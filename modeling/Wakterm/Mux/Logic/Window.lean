import Mathlib.Data.List.Nodup
import Mathlib.Data.List.Perm.Basic
import Wakterm.Mux.Window

/-!
# The tabs of a window, and those that are parked

A window is sound if its tabs have ids of their own and only tabs of it are parked. Every operation
leaves a sound window sound.
-/

namespace Wakterm.Mux

namespace Window

variable {τ : Type} {tabId : τ → TabId} {w w' : Window τ}

/-- The tabs have ids of their own, and what is parked is a tab of the window. -/
structure Sound (tabId : τ → TabId) (w : Window τ) : Prop where
  distinct : (w.ids tabId).Nodup
  parked : w.parkedTabs ⊆ (w.ids tabId).toFinset

/-- If there is a tab, there is a visible one. -/
def HasVisible (tabId : τ → TabId) (w : Window τ) : Prop :=
  w.tabs ≠ [] → w.iterVisible tabId ≠ []

theorem sound_new (id : Nat) : (new id : Window τ).Sound tabId :=
  ⟨List.nodup_nil, Finset.empty_subset _⟩

theorem mem_ids {id : TabId} : id ∈ w.ids tabId ↔ ∃ tab ∈ w.tabs, tabId tab = id := List.mem_map

variable {tab : τ} {tabs : List τ} {ordered : List TabId}

theorem Sound.inj (h : w.Sound tabId) {tab' : τ} (hmem : tab ∈ w.tabs) (hmem' : tab' ∈ w.tabs)
    (heq : tabId tab = tabId tab') :
    tab = tab' := List.inj_on_of_nodup_map h.distinct hmem hmem' heq

theorem Sound.visibleLen_eq (h : w.Sound tabId) : w.visibleLen = (w.iterVisible tabId).length := by
  have hparked : ((w.ids tabId).filter (· ∈ w.parkedTabs)).length = w.parkedTabs.card := by
    rw [← List.toFinset_card_of_nodup (h.distinct.filter _), List.toFinset_filter]
    congr 1
    ext id
    have := @h.parked id
    simp only [Finset.mem_filter, decide_eq_true_eq]
    exact ⟨fun hid => hid.2, fun hid => ⟨this hid, hid⟩⟩
  have hvisible : ((w.ids tabId).filter (· ∉ w.parkedTabs)).length =
      (w.iterVisible tabId).length := by
    unfold ids iterVisible
    rw [List.filter_map, List.length_map]
    rfl
  have hall := List.length_eq_length_filter_add (l := w.ids tabId) (· ∈ w.parkedTabs)
  have hlength : (w.ids tabId).length = w.tabs.length := List.length_map _
  have hnot : (w.ids tabId).filter (fun id => ! decide (id ∈ w.parkedTabs)) =
      (w.ids tabId).filter (· ∉ w.parkedTabs) := by
    refine List.filter_congr fun id _ => ?_
    simp
  rw [hnot, hparked, hvisible, hlength] at hall
  unfold visibleLen
  omega

theorem Sound.perm (h : w.Sound tabId) (hperm : tabs.Perm w.tabs) :
    Sound tabId { w with tabs := tabs } where
  distinct := (hperm.map tabId).nodup_iff.mpr h.distinct
  parked := by
    have := List.toFinset_eq_of_perm _ _ (hperm.map tabId)
    exact this ▸ h.parked

theorem HasVisible.perm (h : w.HasVisible tabId) (hperm : tabs.Perm w.tabs) :
    HasVisible tabId { w with tabs := tabs } := by
  intro hne hnil
  refine h (fun hempty => hne (hempty ▸ hperm).eq_nil) ?_
  have hsame := (hperm.filter (tabId · ∉ w.parkedTabs)).symm
  unfold iterVisible at hnil ⊢
  rw [hnil] at hsame
  exact hsame.eq_nil

theorem byId_eq_some (hids : (tabs.map tabId).Nodup) (h : tab ∈ tabs) :
    byId tabId tabs (tabId tab) = some tab := by
  have hmem : tab ∈ tabs.reverse := List.mem_reverse.mpr h
  cases hfind : byId tabId tabs (tabId tab) with
  | none => exact absurd (by simp) (List.find?_eq_none.mp hfind tab hmem)
  | some found =>
    have hfound : found ∈ tabs := List.mem_reverse.mp (List.mem_of_find?_eq_some hfind)
    have hid : tabId found = tabId tab := by simpa using List.find?_some hfind
    rw [List.inj_on_of_nodup_map hids hfound h hid]

theorem exists_byId (hids : (tabs.map tabId).Nodup) (hperm : ordered.Perm (tabs.map tabId)) :
    ∃ found, ordered.mapM (byId tabId tabs) = some found ∧ found.Perm tabs ∧
      found.map tabId = ordered := by
  have hmem : ∀ id ∈ ordered, ∃ tab ∈ tabs, tabId tab = id := fun id hid =>
    List.mem_map.mp (hperm.mem_iff.mp hid)
  have hmapM : ∃ found, ordered.mapM (byId tabId tabs) = some found ∧
      found.map tabId = ordered ∧ ∀ tab ∈ found, tab ∈ tabs := by
    clear hperm
    induction ordered with
    | nil => exact ⟨[], rfl, rfl, fun tab h => absurd h List.not_mem_nil⟩
    | cons id ordered ih =>
      obtain ⟨tab, htab, rfl⟩ := hmem id List.mem_cons_self
      obtain ⟨found, hfound, hmap, hall⟩ := ih fun id hid => hmem id (List.mem_cons_of_mem _ hid)
      refine ⟨tab :: found, ?_, by rw [List.map_cons, hmap], ?_⟩
      · rw [List.mapM_cons, byId_eq_some hids htab, hfound]
        rfl
      · intro t ht
        rcases List.mem_cons.mp ht with rfl | ht
        · exact htab
        · exact hall t ht
  obtain ⟨found, hfound, hmap, hall⟩ := hmapM
  refine ⟨found, hfound, ?_, hmap⟩
  have hnodup : found.Nodup := by
    refine List.Nodup.of_map tabId ?_
    rw [hmap]
    exact hperm.nodup_iff.mpr hids
  refine (List.perm_ext_iff_of_nodup hnodup hids.of_map).mpr fun tab => ⟨hall tab, fun htab => ?_⟩
  have hid : tabId tab ∈ found.map tabId := by
    rw [hmap]
    exact hperm.mem_iff.mpr (List.mem_map_of_mem htab)
  obtain ⟨other, hother, heq⟩ := List.mem_map.mp hid
  rwa [← List.inj_on_of_nodup_map hids (hall other hother) htab heq]

/-- The listed tabs change places among each other, and the others keep theirs. The induction is on
the tabs, with as many ids left as there are listed tabs among them. -/
theorem exists_place {desired : Finset TabId} {found : TabId → Option τ} {next : List τ}
    (hnext : ordered.mapM found = some next)
    (hlength : ordered.length = (tabs.filter (tabId · ∈ desired)).length) :
    ∃ placed, place tabId desired found ordered tabs = some placed ∧
      placed.Perm (next ++ tabs.filter (tabId · ∉ desired)) ∧
      ∀ (i : Nat) tab, tabs[i]? = some tab → tabId tab ∉ desired → placed[i]? = some tab := by
  induction tabs generalizing ordered next with
  | nil =>
    obtain rfl := List.length_eq_zero_iff.mp hlength
    cases hnext
    exact ⟨[], rfl, List.Perm.refl _, fun i tab h => absurd h (by simp)⟩
  | cons tab tabs ih =>
    by_cases hdesired : tabId tab ∈ desired
    · rw [List.filter_cons_of_pos (by simpa using hdesired), List.length_cons] at hlength
      obtain ⟨id, ordered, rfl⟩ := List.exists_cons_of_length_pos
        (by omega : 0 < ordered.length)
      rw [List.mapM_cons] at hnext
      obtain ⟨first, hfirst, hnext⟩ := Option.bind_eq_some_iff.mp hnext
      obtain ⟨rest, hrest, hnext⟩ := Option.bind_eq_some_iff.mp hnext
      cases hnext
      obtain ⟨placed, hplaced, hperm, hkept⟩ := ih hrest (Nat.succ.inj hlength)
      refine ⟨first :: placed, ?_, ?_, fun i other hother hnot => ?_⟩
      · rw [place, if_pos hdesired, hfirst, hplaced]
        rfl
      · rw [List.filter_cons_of_neg (by simpa using hdesired)]
        exact hperm.cons first
      · cases i with
        | zero =>
          cases hother
          exact absurd hdesired hnot
        | succ i => exact hkept i other hother hnot
    · rw [List.filter_cons_of_neg (by simpa using hdesired)] at hlength
      obtain ⟨placed, hplaced, hperm, hkept⟩ := ih hnext hlength
      refine ⟨tab :: placed, ?_, ?_, fun i other hother hnot => ?_⟩
      · rw [place.eq_def]
        dsimp only
        rw [if_neg hdesired, hplaced]
        rfl
      · rw [List.filter_cons_of_pos (by simpa using hdesired)]
        exact (hperm.cons tab).trans List.perm_middle.symm
      · cases i with
        | zero => exact hother
        | succ i => exact hkept i other hother hnot

theorem ids_place {desired : Finset TabId} {found : TabId → Option τ} {placed : List τ}
    (h : place tabId desired found ordered tabs = some placed)
    (hfound : ∀ id tab, found id = some tab → tabId tab = id)
    (hordered : ∀ id ∈ ordered, id ∈ desired)
    (hlength : ordered.length = (tabs.filter (tabId · ∈ desired)).length) :
    (placed.map tabId).filter (· ∈ desired) = ordered := by
  induction tabs generalizing ordered placed with
  | nil =>
    obtain rfl := List.length_eq_zero_iff.mp hlength
    cases h
    rfl
  | cons tab tabs ih =>
    by_cases hdesired : tabId tab ∈ desired
    · rw [List.filter_cons_of_pos (by simpa using hdesired), List.length_cons] at hlength
      obtain ⟨first, ordered, rfl⟩ := List.exists_cons_of_length_pos
        (by omega : 0 < ordered.length)
      rw [place, if_pos hdesired] at h
      obtain ⟨next, hnext, h⟩ := Option.bind_eq_some_iff.mp h
      obtain ⟨rest, hrest, h⟩ := Option.bind_eq_some_iff.mp h
      cases h
      have hnextId := hfound first next hnext
      rw [List.map_cons, hnextId,
        List.filter_cons_of_pos (by simpa using hordered first List.mem_cons_self),
        ih hrest (fun id hid => hordered id (List.mem_cons_of_mem first hid))
          (Nat.succ.inj hlength)]
    · rw [List.filter_cons_of_neg (by simpa using hdesired)] at hlength
      rw [place.eq_def] at h
      dsimp only at h
      rw [if_neg hdesired] at h
      obtain ⟨rest, hrest, h⟩ := Option.bind_eq_some_iff.mp h
      cases h
      rw [List.map_cons, List.filter_cons_of_neg (by simpa using hdesired),
        ih hrest hordered hlength]

/-! ## Taking tabs away -/

/-- The window without the tabs with these ids. -/
def without (tabId : τ → TabId) (gone : Finset TabId) (w : Window τ) : Window τ :=
  { w with tabs := w.tabs.filter (tabId · ∉ gone), parkedTabs := w.parkedTabs \ gone }

theorem ids_without (gone : Finset TabId) :
    (w.without tabId gone).ids tabId = (w.ids tabId).filter (· ∉ gone) := by
  unfold ids without
  rw [List.filter_map]
  rfl

theorem Sound.without (h : w.Sound tabId) (gone : Finset TabId) :
    (w.without tabId gone).Sound tabId where
  distinct := by
    rw [ids_without]
    exact h.distinct.filter _
  parked := by
    intro id hid
    obtain ⟨hparked, hgone⟩ := Finset.mem_sdiff.mp hid
    rw [ids_without, List.mem_toFinset, List.mem_filter]
    exact ⟨List.mem_toFinset.mp (h.parked hparked), by simpa using hgone⟩

theorem without_without (gone gone' : Finset TabId) :
    (w.without tabId gone).without tabId gone' = w.without tabId (gone ∪ gone') := by
  unfold Window.without
  congr 1
  · rw [List.filter_filter]
    refine List.filter_congr fun tab _ => ?_
    simp [Bool.and_comm]
  · rw [sdiff_sdiff_left]
    rfl

theorem without_empty : w.without tabId ∅ = w := by
  unfold Window.without
  simp

theorem hasVisible_without_iff (gone : Finset TabId) :
    (w.without tabId gone).HasVisible tabId ↔ ((∃ tab ∈ w.tabs, tabId tab ∉ gone) →
      ∃ tab ∈ w.tabs, tabId tab ∉ gone ∧ tabId tab ∉ w.parkedTabs) := by
  unfold HasVisible iterVisible Window.without
  simp only [ne_eq, List.filter_eq_nil_iff, not_forall, List.mem_filter, decide_eq_true_eq,
    Finset.mem_sdiff, exists_prop, not_not, not_and, and_assoc]
  refine imp_congr_right fun _ => exists_congr fun tab => and_congr_right fun _ => ?_
  tauto

theorem eraseIdx_eq_filter (hids : (tabs.map tabId).Nodup) {index : Nat}
    (h : tabs[index]? = some tab) : tabs.eraseIdx index = tabs.filter (tabId · ≠ tabId tab) := by
  induction tabs generalizing index with
  | nil => cases h
  | cons first tabs ih =>
    rw [List.map_cons, List.nodup_cons] at hids
    cases index with
    | zero =>
      obtain rfl := Option.some.inj h
      rw [List.eraseIdx_cons_zero, List.filter_cons_of_neg (by simp)]
      refine (List.filter_eq_self.mpr fun other hother => ?_).symm
      have hne : tabId other ≠ tabId first := fun heq =>
        hids.1 (heq ▸ List.mem_map_of_mem hother)
      simpa using hne
    | succ index =>
      have hmem : tabId tab ∈ tabs.map tabId := List.mem_map_of_mem (List.mem_of_getElem? h)
      have hne : tabId first ≠ tabId tab := fun heq => hids.1 (heq ▸ hmem)
      rw [List.eraseIdx_cons_succ, ih hids.2 h, List.filter_cons_of_pos (by simpa using hne)]

theorem Sound.eraseIdx (h : w.Sound tabId) {index : Nat} (hindex : w.tabs[index]? = some tab) :
    { w with tabs := w.tabs.eraseIdx index, parkedTabs := w.parkedTabs.erase (tabId tab) } =
      w.without tabId {tabId tab} := by
  unfold Window.without
  rw [eraseIdx_eq_filter h.distinct hindex, Finset.sdiff_singleton_eq_erase]
  simp only [Finset.mem_singleton]

theorem Sound.removeById_eq (h : w.Sound tabId) (id : TabId) :
    w.removeById tabId id = w.without tabId {id} := by
  unfold removeById
  cases hindex : w.idxById tabId id with
  | none =>
    have hnone : ∀ tab ∈ w.tabs, tabId tab ≠ id := by
      intro tab htab
      simpa using List.findIdx?_eq_none_iff.mp hindex tab htab
    have hparked : id ∉ w.parkedTabs := fun hid => by
      obtain ⟨tab, htab, heq⟩ := mem_ids.mp (List.mem_toFinset.mp (h.parked hid))
      exact hnone tab htab heq
    unfold Window.without
    rw [Finset.sdiff_singleton_eq_erase, Finset.erase_eq_of_notMem hparked,
      List.filter_eq_self.mpr fun tab htab => by simpa using hnone tab htab]
  | some index =>
    obtain ⟨hlt, hid, -⟩ := List.findIdx?_eq_some_iff_getElem.mp hindex
    have htab : w.tabs[index]? = some w.tabs[index] := List.getElem?_eq_getElem hlt
    obtain rfl : tabId w.tabs[index] = id := by simpa using hid
    exact h.eraseIdx htab

theorem Sound.foldl_removeById (h : w.Sound tabId) (gone : List TabId) :
    gone.foldl (fun w id => w.removeById tabId id) w = w.without tabId gone.toFinset := by
  induction gone generalizing w with
  | nil => exact without_empty.symm
  | cons id gone ih =>
    rw [List.foldl_cons, h.removeById_eq, ih (h.without {id}), without_without,
      List.toFinset_cons]
    rfl

/-- The tabs that are pruned: those that are dead, or not listed. -/
def pruned (tabId : τ → TabId) (dead : τ → Bool) (liveTabIds : List TabId) (w : Window τ) :
    Finset TabId :=
  ((w.tabs.filter fun tab => dead tab ∨ tabId tab ∉ liveTabIds).map tabId).toFinset

theorem Sound.pruneDeadTabs_eq (h : w.Sound tabId) (dead : τ → Bool) (liveTabIds : List TabId) :
    w.pruneDeadTabs tabId dead liveTabIds = w.without tabId (w.pruned tabId dead liveTabIds) := by
  unfold pruneDeadTabs
  dsimp only
  rw [h.foldl_removeById, (h.without _).foldl_removeById, without_without]
  congr 1
  ext id
  unfold pruned Window.without
  simp only [Finset.mem_union, List.mem_toFinset, List.mem_map, List.mem_filter, decide_eq_true_eq,
    not_exists, not_and]
  constructor
  · rintro (⟨tab, ⟨hmem, hdead⟩, rfl⟩ | ⟨tab, ⟨⟨hmem, -⟩, hlive⟩, rfl⟩)
    · exact ⟨tab, ⟨hmem, Or.inl hdead⟩, rfl⟩
    · exact ⟨tab, ⟨hmem, Or.inr hlive⟩, rfl⟩
  · rintro ⟨tab, ⟨hmem, hgone⟩, rfl⟩
    by_cases hdead : dead tab = true
    · exact Or.inl ⟨tab, ⟨hmem, hdead⟩, rfl⟩
    · refine Or.inr ⟨tab, ⟨⟨hmem, fun other hother heq => ?_⟩, hgone.resolve_left hdead⟩, rfl⟩
      rw [h.inj hother.1 hmem heq] at hother
      exact hdead hother.2

/-! ## What the operations come to -/

/-- An operation that fails changes nothing, and is no panic; otherwise it leaves such a window. -/
def Ends {α : Type} (w : Window τ) (P : Window τ → Prop) : Outcome τ α → Prop
  | (.error e, w') => w' = w ∧ e ≠ .panic
  | (.ok _, w') => P w'

theorem ends_finished {α : Type} {P : Window τ → Prop} {outcome : Outcome τ α}
    (h : Ends w P outcome) : Ends w P (finished outcome) := by
  obtain ⟨result, w'⟩ := outcome
  cases result with
  | error e => exact h
  | ok a => exact h

/-- The tabs are in another order, and those that are not listed are where they were. -/
structure Reordered (listed : τ → Prop) (w w' : Window τ) : Prop where
  perm : w'.tabs.Perm w.tabs
  parked : w'.parkedTabs = w.parkedTabs
  kept : ∀ (i : Nat) tab, w.tabs[i]? = some tab → ¬ listed tab → w'.tabs[i]? = some tab

theorem Reordered.refl (listed : τ → Prop) (w : Window τ) : Reordered listed w w :=
  ⟨List.Perm.refl _, rfl, fun _ _ h _ => h⟩

theorem ends_moveByIdx {source target : Nat} (hsource : source < w.tabs.length)
    (htarget : target < w.tabs.length) :
    Ends w (Reordered (fun _ => True) w) (w.moveByIdx source target) := by
  unfold moveByIdx
  rw [List.getElem?_eq_getElem hsource]
  dsimp only
  split
  · exact Reordered.refl _ w
  · have hlength := List.length_eraseIdx_of_lt hsource
    have hle : target ≤ (w.tabs.eraseIdx source).length := by omega
    rw [if_neg (by omega)]
    refine ⟨?_, rfl, fun i tab _ hnot => absurd trivial hnot⟩
    exact (List.perm_insertIdx _ _ hle).trans (List.getElem_cons_eraseIdx_perm hsource)

theorem ends_applyTabOrder (h : w.Sound tabId) (tabIds : List TabId) :
    Ends w (Reordered (fun _ => True) w) (w.applyTabOrder tabId tabIds) := by
  unfold applyTabOrder
  split
  · exact ⟨rfl, fun hp => (by cases hp)⟩
  · split
    · exact ⟨rfl, fun hp => (by cases hp)⟩
    · next hcard =>
      split
      · exact ⟨rfl, fun hp => (by cases hp)⟩
      · next hset =>
        split
        · exact Reordered.refl _ w
        · have hnodup : tabIds.Nodup := by
            rw [not_not] at hcard
            exact Multiset.toFinset_card_eq_card_iff_nodup.mp hcard
          have hperm : tabIds.Perm (w.tabs.map tabId) := by
            refine (List.perm_ext_iff_of_nodup hnodup h.distinct).mpr fun id => ?_
            rw [← List.mem_toFinset, not_not.mp hset, List.mem_toFinset]
          obtain ⟨found, hfound, htabs, -⟩ := exists_byId h.distinct hperm
          rw [hfound]
          exact ⟨htabs, rfl, fun i tab _ hnot => absurd trivial hnot⟩

theorem ends_applyTabOrderSubset (h : w.Sound tabId) (tabIds : List TabId) :
    Ends w (Reordered (tabId · ∈ tabIds) w) (w.applyTabOrderSubset tabId tabIds) := by
  unfold applyTabOrderSubset
  dsimp only
  split
  · exact ⟨rfl, fun hp => (by cases hp)⟩
  · next hcard =>
    split
    · exact ⟨rfl, fun hp => (by cases hp)⟩
    · next hlength =>
      split
      · exact Reordered.refl _ w
      · have hnodup : tabIds.Nodup := by
          rw [not_not] at hcard
          exact Multiset.toFinset_card_eq_card_iff_nodup.mp hcard
        have hids : (w.ids tabId).filter (· ∈ tabIds.toFinset) =
            (w.tabs.filter (tabId · ∈ tabIds.toFinset)).map tabId := by
          unfold ids
          rw [List.filter_map]
          rfl
        rw [not_not, hids] at hlength
        have hsub : ((w.tabs.filter (tabId · ∈ tabIds.toFinset)).map tabId).Nodup :=
          hids ▸ h.distinct.filter _
        -- as many tabs are found as are listed, so that they are the listed ones
        have hperm : ((w.tabs.filter (tabId · ∈ tabIds.toFinset)).map tabId).Perm tabIds := by
          refine (List.subperm_of_subset hsub fun id hid => ?_).perm_of_length_le
            (le_of_eq hlength.symm)
          obtain ⟨tab, htab, rfl⟩ := List.mem_map.mp hid
          exact List.mem_toFinset.mp (by simpa using (List.mem_filter.mp htab).2)
        obtain ⟨next, hnext, hnextPerm, -⟩ := exists_byId hsub hperm.symm
        have hcount : tabIds.length = (w.tabs.filter (tabId · ∈ tabIds.toFinset)).length := by
          rw [← hlength, List.length_map]
        obtain ⟨placed, hplaced, hplacedPerm, hkept⟩ := exists_place hnext hcount
        rw [hplaced]
        refine ⟨?_, rfl, fun i tab htab hnot => hkept i tab htab
          fun hmem => hnot (List.mem_toFinset.mp hmem)⟩
        have hsplit : (w.tabs.filter (tabId · ∈ tabIds.toFinset) ++
            w.tabs.filter (tabId · ∉ tabIds.toFinset)).Perm w.tabs := by
          have := List.filter_append_perm (fun tab => decide (tabId tab ∈ tabIds.toFinset)) w.tabs
          simpa only [decide_not] using this
        exact (hplacedPerm.trans (hnextPerm.append_right _)).trans hsplit

theorem Sound.ids_applyTabOrderSubset (h : w.Sound tabId) {tabIds : List TabId}
    (hnodup : tabIds.Nodup) (hmem : ∀ id ∈ tabIds, id ∈ w.ids tabId) :
    ((w.applyTabOrderSubset tabId tabIds).2.ids tabId).filter (· ∈ tabIds.toFinset) = tabIds := by
  have hperm : ((w.ids tabId).filter (· ∈ tabIds.toFinset)).Perm tabIds := by
    refine (List.perm_ext_iff_of_nodup (h.distinct.filter _) hnodup).mpr fun id => ?_
    rw [List.mem_filter, decide_eq_true_iff, List.mem_toFinset]
    exact ⟨fun hid => hid.2, fun hid => ⟨hmem id hid, hid⟩⟩
  have hids : (w.ids tabId).filter (· ∈ tabIds.toFinset) =
      (w.tabs.filter (tabId · ∈ tabIds.toFinset)).map tabId := by
    unfold ids
    rw [List.filter_map]
    rfl
  have hsub : ((w.tabs.filter (tabId · ∈ tabIds.toFinset)).map tabId).Nodup :=
    hids ▸ h.distinct.filter _
  have hcount : tabIds.length = (w.tabs.filter (tabId · ∈ tabIds.toFinset)).length := by
    rw [← hperm.length_eq, hids, List.length_map]
  unfold applyTabOrderSubset
  dsimp only
  rw [if_neg (not_not.mpr (List.toFinset_card_of_nodup hnodup)),
    if_neg (not_not.mpr hperm.length_eq)]
  split
  · next hsame => exact hsame
  · obtain ⟨next, hnext, -, -⟩ := exists_byId hsub (hids ▸ hperm.symm)
    obtain ⟨placed, hplaced, -, -⟩ := exists_place hnext hcount
    rw [hplaced]
    refine ids_place hplaced ?_ (fun id hid => List.mem_toFinset.mpr hid) hcount
    intro id tab hfind
    have hid := List.find?_some hfind
    exact of_decide_eq_true hid

theorem ends_moveVisibleByIdx (h : w.Sound tabId) (source target : Nat) :
    Ends w (Reordered (tabId · ∉ w.parkedTabs) w) (w.moveVisibleByIdx tabId source target) := by
  unfold moveVisibleByIdx
  dsimp only
  split
  · exact ⟨rfl, fun hp => (by cases hp)⟩
  · next hrange =>
    rw [not_not] at hrange
    rw [List.getElem?_eq_getElem hrange.1]
    dsimp only
    generalize hvisible : ((w.iterVisible tabId).eraseIdx source).insertIdx target
      ((w.iterVisible tabId)[source]) = visible
    have hperm : visible.Perm (w.iterVisible tabId) := by
      have hlength := List.length_eraseIdx_of_lt hrange.1
      rw [← hvisible]
      exact (List.perm_insertIdx _ _ (by omega)).trans
        (List.getElem_cons_eraseIdx_perm hrange.1)
    have hends := ends_applyTabOrderSubset h (visible.map tabId)
    cases horder : w.applyTabOrderSubset tabId (visible.map tabId) with
    | mk result w' =>
      rw [horder] at hends
      cases result with
      | error e => exact hends
      | ok changed =>
        refine ⟨hends.perm, hends.parked, fun i tab htab hnot => hends.kept i tab htab ?_⟩
        rintro hmem
        obtain ⟨other, hother, heq⟩ := List.mem_map.mp hmem
        obtain ⟨hmemOther, hshown⟩ := List.mem_filter.mp (hperm.mem_iff.mp hother)
        rw [h.inj hmemOther (List.mem_of_getElem? htab) heq] at hshown
        exact hnot (by simpa using hshown)

/-- Other tabs of the window are parked, and one is not. -/
structure Reparked (tabId : τ → TabId) (w w' : Window τ) : Prop where
  tabs : w'.tabs = w.tabs
  parked : w'.parkedTabs = w.parkedTabs ∨
    w'.parkedTabs ⊆ (w.ids tabId).toFinset ∧ w'.parkedTabs.card < w.tabs.length

theorem ends_applyParkedTabs (tabIds parkedTabIds : List TabId) :
    Ends w (Reparked tabId w) (w.applyParkedTabs tabId tabIds parkedTabIds) := by
  unfold applyParkedTabs
  dsimp only
  split
  · exact ⟨rfl, fun hp => (by cases hp)⟩
  · split
    · exact ⟨rfl, fun hp => (by cases hp)⟩
    · split
      · exact ⟨rfl, fun hp => (by cases hp)⟩
      · next hsubset =>
        split
        · exact ⟨rfl, fun hp => (by cases hp)⟩
        · next hcard =>
          split
          · exact ⟨rfl, Or.inl rfl⟩
          · rw [not_not] at hsubset hcard
            unfold ids at hcard
            rw [List.length_map] at hcard
            exact ⟨rfl, Or.inr ⟨hsubset, hcard⟩⟩

theorem ends_applyParkedTabsSubset (h : w.Sound tabId) (domainTabIds parkedTabIds : List TabId) :
    Ends w (Reparked tabId w) (w.applyParkedTabsSubset tabId domainTabIds parkedTabIds) := by
  unfold applyParkedTabsSubset
  dsimp only
  split
  · exact ⟨rfl, fun hp => (by cases hp)⟩
  · split
    · exact ⟨rfl, fun hp => (by cases hp)⟩
    · next hdomain =>
      split
      · exact ⟨rfl, fun hp => (by cases hp)⟩
      · next hparked =>
        split
        · exact ⟨rfl, fun hp => (by cases hp)⟩
        · next hcard =>
          split
          · exact ⟨rfl, Or.inl rfl⟩
          · rw [not_not] at hdomain hparked hcard
            rw [List.toFinset_card_of_nodup h.distinct] at hcard
            unfold ids at hcard
            rw [List.length_map] at hcard
            refine ⟨rfl, Or.inr ⟨Finset.union_subset ?_ ?_, hcard⟩⟩
            · exact (Finset.filter_subset _ _).trans h.parked
            · exact hparked.2.trans hdomain

/-- There is a new tab. -/
structure Added (tab : τ) (w w' : Window τ) : Prop where
  perm : w'.tabs.Perm (tab :: w.tabs)
  parked : w'.parkedTabs = w.parkedTabs

theorem ends_push (hnew : tabId tab ∉ w.ids tabId) : Ends w (Added tab w) (w.push tabId tab) := by
  unfold push
  rw [if_neg hnew]
  exact ⟨List.perm_append_singleton tab w.tabs, rfl⟩

theorem ends_insert {index : Nat} (hnew : tabId tab ∉ w.ids tabId) (hindex : index ≤ w.tabs.length)
    : Ends w (Added tab w) (w.insert tabId index tab) := by
  unfold insert
  rw [if_neg hnew, if_neg (Nat.not_lt.mpr hindex)]
  exact ⟨List.perm_insertIdx _ _ hindex, rfl⟩

/-! ## Soundness -/

theorem Reordered.sound {listed : τ → Prop} (hw : Reordered listed w w') (h : w.Sound tabId) :
    w'.Sound tabId := by
  have hsame := h.perm hw.perm
  exact ⟨hsame.distinct, hw.parked ▸ hsame.parked⟩

theorem Reordered.hasVisible {listed : τ → Prop} (hw : Reordered listed w w')
    (h : w.HasVisible tabId) : w'.HasVisible tabId := by
  have hsame := h.perm hw.perm
  unfold HasVisible iterVisible at hsame ⊢
  rwa [hw.parked]

theorem Added.sound (hw : Added tab w w') (hnew : tabId tab ∉ w.ids tabId) (h : w.Sound tabId) :
    w'.Sound tabId := by
  have hids : (w'.ids tabId).Perm (tabId tab :: w.ids tabId) := hw.perm.map tabId
  refine ⟨hids.nodup_iff.mpr (List.nodup_cons.mpr ⟨hnew, h.distinct⟩), fun id hid => ?_⟩
  rw [hw.parked] at hid
  exact List.mem_toFinset.mpr (hids.mem_iff.mpr (List.mem_cons_of_mem _
    (List.mem_toFinset.mp (h.parked hid))))

theorem Added.hasVisible (hw : Added tab w w') (hnew : tabId tab ∉ w.ids tabId) (h : w.Sound tabId)
    : w'.HasVisible tabId := by
  intro _
  have hmem : tab ∈ w'.tabs := hw.perm.mem_iff.mpr List.mem_cons_self
  have hparked : tabId tab ∉ w'.parkedTabs := by
    rw [hw.parked]
    exact fun hid => hnew (List.mem_toFinset.mp (h.parked hid))
  exact List.ne_nil_of_mem (List.mem_filter.mpr ⟨hmem, by simpa using hparked⟩)

theorem Reparked.sound (hw : Reparked tabId w w') (h : w.Sound tabId) : w'.Sound tabId := by
  have hids : w'.ids tabId = w.ids tabId := congrArg (List.map tabId) hw.tabs
  refine ⟨hids ▸ h.distinct, ?_⟩
  rw [hids]
  rcases hw.parked with hsame | hother
  · exact hsame ▸ h.parked
  · exact hother.1

theorem Reparked.hasVisible (hw : Reparked tabId w w') (h : w.Sound tabId)
    (hvisible : w.HasVisible tabId) : w'.HasVisible tabId := by
  rcases hw.parked with hsame | hother
  · unfold HasVisible iterVisible at hvisible ⊢
    rwa [hw.tabs, hsame]
  · intro _
    have hcard : w'.parkedTabs.card < (w.ids tabId).toFinset.card := by
      rw [List.toFinset_card_of_nodup h.distinct]
      unfold ids
      rw [List.length_map]
      exact hother.2
    obtain ⟨id, hid, hnot⟩ := Finset.exists_mem_notMem_of_card_lt_card hcard
    obtain ⟨tab, htab, rfl⟩ := mem_ids.mp (List.mem_toFinset.mp hid)
    exact List.ne_nil_of_mem (List.mem_filter.mpr ⟨hw.tabs ▸ htab, by simpa using hnot⟩)

end Window

end Wakterm.Mux
