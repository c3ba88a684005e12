import Wakterm.Mux.Logic.Window

/-!
# The tabs of a window over its operations

Whatever is done with the tabs of a window, their ids are distinct, only tabs of it are parked, and
what fails or reorders does no more than that.
-/

namespace Wakterm.Theorems.Window

open Wakterm.Mux Wakterm.Mux.Window

variable {τ : Type} (tabId : τ → TabId)

/-- The indices are of places in the window, and a tab that is added is new to it. -/
def InRange (w : Window τ) : WindowOp τ → Prop
  | .push tab => tabId tab ∉ w.ids tabId
  | .insert index tab => tabId tab ∉ w.ids tabId ∧ index ≤ w.tabs.length
  | .moveByIdx source target => source < w.tabs.length ∧ target < w.tabs.length
  | .removeByIdx index => index < w.tabs.length
  | _ => True

instance (w : Window τ) : (op : WindowOp τ) → Decidable (InRange tabId w op)
  | .push _ => inferInstanceAs (Decidable (_ ∉ _))
  | .insert _ _ => inferInstanceAs (Decidable (_ ∉ _ ∧ _ ≤ _))
  | .moveByIdx _ _ => inferInstanceAs (Decidable (_ < _ ∧ _ < _))
  | .removeByIdx _ => inferInstanceAs (Decidable (_ < _))
  | .moveVisibleByIdx _ _ | .applyTabOrder _ | .applyTabOrderSubset _ | .applyParkedTabs _ _
  | .applyParkedTabsSubset _ _ | .removeById _ | .pruneDeadTabs _ _ => .isTrue trivial

/-- The operation reorders the tabs. -/
def Reorders : WindowOp τ → Prop
  | .moveByIdx .. | .moveVisibleByIdx .. | .applyTabOrder .. | .applyTabOrderSubset .. => True
  | _ => False

/-- The tabs that an operation is to reorder: all, or the visible ones, or those that are listed. -/
def Listed (w : Window τ) : WindowOp τ → τ → Prop
  | .moveVisibleByIdx .., tab => tabId tab ∉ w.parkedTabs
  | .applyTabOrderSubset tabIds, tab => tabId tab ∈ tabIds
  | _, _ => True

/-- The ids of the tabs that an operation takes away. -/
def goneIds (w : Window τ) : WindowOp τ → Finset TabId
  | .removeByIdx index =>
    match w.tabs[index]? with
    | some tab => {tabId tab}
    | none => ∅
  | .removeById tab => {tab}
  | .pruneDeadTabs dead liveTabIds => Window.pruned tabId dead liveTabIds w
  | _ => ∅

/-- The books of a window. -/
structure Kept (w : Window τ) : Prop where
  distinct : (w.ids tabId).Nodup
  parked : ∀ id ∈ w.parkedTabs, ∃ tab ∈ w.tabs, tabId tab = id
  visibleLen : w.visibleLen = (w.iterVisible tabId).length
  visible : w.tabs ≠ [] → w.iterVisible tabId ≠ []

/-- What an operation does is in order: nothing if it fails, and otherwise no more than it says. -/
structure Orderly (w : Window τ) (op : WindowOp τ) : Prop where
  failed : ∀ e, (w.step tabId op).1 = .error e → (w.step tabId op).2 = w ∧ e ≠ .panic
  reordered : Reorders op → (w.step tabId op).2.tabs.Perm w.tabs ∧
    ∀ (i : Nat) tab, w.tabs[i]? = some tab → ¬ Listed tabId w op tab →
      (w.step tabId op).2.tabs[i]? = some tab
  kept : Kept tabId (w.step tabId op).2

/-- Of the tabs that the operation leaves one is visible, or else it leaves none. -/
def LeavesVisible (w : Window τ) (op : WindowOp τ) : Prop :=
  (∃ tab ∈ w.tabs, tabId tab ∉ goneIds tabId w op) →
    ∃ tab ∈ w.tabs, tabId tab ∉ goneIds tabId w op ∧ tabId tab ∉ w.parkedTabs

/-- Each operation of a run is such, on the window that it comes to. -/
def Throughout (p : Window τ → WindowOp τ → Prop) (w : Window τ) : List (WindowOp τ) → Prop
  | [] => True
  | op :: ops => p w op ∧ Throughout p (w.step tabId op).2 ops

variable {tabId} {w : Window τ} {op : WindowOp τ}

theorem kept_of_sound (h : w.Sound tabId) (hvisible : w.HasVisible tabId) : Kept tabId w where
  distinct := h.distinct
  parked _ hid := mem_ids.mp (List.mem_toFinset.mp (h.parked hid))
  visibleLen := h.visibleLen_eq
  visible := hvisible

/-- What comes of an operation on a sound window. -/
structure Stepped (tabId : τ → TabId) (w : Window τ) (op : WindowOp τ) (outcome : Outcome τ Unit) :
    Prop where
  failed : ∀ e, outcome.1 = .error e → outcome.2 = w ∧ e ≠ .panic
  reordered : Reorders op → outcome.2.tabs.Perm w.tabs ∧
    ∀ (i : Nat) tab, w.tabs[i]? = some tab → ¬ Listed tabId w op tab →
      outcome.2.tabs[i]? = some tab
  sound : outcome.2.Sound tabId
  visible : outcome.2.HasVisible tabId ↔ LeavesVisible tabId w op

theorem stepped_of_ends (h : w.Sound tabId) (hvisible : w.HasVisible tabId)
    (hgone : goneIds tabId w op = ∅) {P : Window τ → Prop} {outcome : Outcome τ Unit}
    (hends : Ends w P outcome) (hsound : ∀ w', P w' → w'.Sound tabId ∧ w'.HasVisible tabId)
    (hreorders : Reorders op → ∀ w', P w' → Reordered (Listed tabId w op) w w') :
    Stepped tabId w op outcome := by
  have hleaves : LeavesVisible tabId w op := by
    unfold LeavesVisible
    rw [hgone]
    refine (hasVisible_without_iff ∅).mp ?_
    rwa [without_empty]
  obtain ⟨result, w'⟩ := outcome
  cases result with
  | error e =>
    obtain ⟨rfl, hpanic⟩ := hends
    refine ⟨fun e' he => ⟨rfl, Except.error.inj he ▸ hpanic⟩, fun _ => ⟨List.Perm.refl _,
      fun i tab htab _ => htab⟩, h, fun _ => hleaves, fun _ => hvisible⟩
  | ok a =>
    obtain ⟨hsound', hvisible'⟩ := hsound w' hends
    exact ⟨fun e he => (by cases he), fun hre => ⟨(hreorders hre w' hends).perm,
      (hreorders hre w' hends).kept⟩, hsound', fun _ => hleaves, fun _ => hvisible'⟩

theorem stepped_of_reordered (h : w.Sound tabId) (hvisible : w.HasVisible tabId)
    (hgone : goneIds tabId w op = ∅) {outcome : Outcome τ Unit}
    (hends : Ends w (Reordered (Listed tabId w op) w) outcome) : Stepped tabId w op outcome :=
  stepped_of_ends h hvisible hgone hends
    (fun _ hw => ⟨hw.sound h, hw.hasVisible hvisible⟩) (fun _ _ hw => hw)

theorem stepped_without (h : w.Sound tabId) (hop : ¬ Reorders op) :
    Stepped tabId w op (.ok (), w.without tabId (goneIds tabId w op)) where
  failed e he := by cases he
  reordered hre := absurd hre hop
  sound := h.without _
  visible := hasVisible_without_iff _

theorem stepped (h : w.Sound tabId) (hvisible : w.HasVisible tabId) (hrange : InRange tabId w op) :
    Stepped tabId w op (w.step tabId op) := by
  cases op with
  | push tab =>
    exact stepped_of_ends h hvisible rfl (ends_push hrange)
      (fun _ hw => ⟨hw.sound hrange h, hw.hasVisible hrange h⟩) (fun hre => hre.elim)
  | insert index tab =>
    exact stepped_of_ends h hvisible rfl (ends_insert hrange.1 hrange.2)
      (fun _ hw => ⟨hw.sound hrange.1 h, hw.hasVisible hrange.1 h⟩) (fun hre => hre.elim)
  | moveByIdx source target =>
    exact stepped_of_reordered h hvisible rfl
      (ends_finished (ends_moveByIdx hrange.1 hrange.2))
  | moveVisibleByIdx source target =>
    exact stepped_of_reordered h hvisible rfl
      (ends_finished (ends_moveVisibleByIdx h source target))
  | applyTabOrder tabIds =>
    exact stepped_of_reordered h hvisible rfl (ends_finished (ends_applyTabOrder h tabIds))
  | applyTabOrderSubset tabIds =>
    exact stepped_of_reordered h hvisible rfl
      (ends_finished (ends_applyTabOrderSubset h tabIds))
  | applyParkedTabs tabIds parkedTabIds =>
    exact stepped_of_ends h hvisible rfl (ends_finished (ends_applyParkedTabs tabIds parkedTabIds))
      (fun _ hw => ⟨hw.sound h, hw.hasVisible h hvisible⟩) (fun hre => hre.elim)
  | applyParkedTabsSubset domainTabIds parkedTabIds =>
    exact stepped_of_ends h hvisible rfl
      (ends_finished (ends_applyParkedTabsSubset h domainTabIds parkedTabIds))
      (fun _ hw => ⟨hw.sound h, hw.hasVisible h hvisible⟩) (fun hre => hre.elim)
  | removeByIdx index =>
    obtain ⟨tab, htab⟩ : ∃ tab, w.tabs[index]? = some tab :=
      ⟨_, List.getElem?_eq_getElem (show index < w.tabs.length from hrange)⟩
    have hgone : goneIds tabId w (.removeByIdx index) = {tabId tab} := by
      unfold goneIds
      dsimp only
      rw [htab]
    have hstep : w.step tabId (.removeByIdx index) =
        (.ok (), w.without tabId (goneIds tabId w (.removeByIdx index))) := by
      rw [hgone, ← h.eraseIdx htab]
      unfold step removeByIdx
      dsimp only
      rw [htab]
      rfl
    rw [hstep]
    exact stepped_without h fun hre => hre.elim
  | removeById id =>
    have hstep : w.step tabId (.removeById id) =
        (.ok (), w.without tabId (goneIds tabId w (.removeById id))) :=
      congrArg (Prod.mk _) (h.removeById_eq id)
    rw [hstep]
    exact stepped_without h fun hre => hre.elim
  | pruneDeadTabs dead liveTabIds =>
    have hstep : w.step tabId (.pruneDeadTabs dead liveTabIds) =
        (.ok (), w.without tabId (goneIds tabId w (.pruneDeadTabs dead liveTabIds))) :=
      congrArg (Prod.mk _) (h.pruneDeadTabs_eq dead liveTabIds)
    rw [hstep]
    exact stepped_without h fun hre => hre.elim

/-- The induction is on the operations; what carries it is that the window is sound, and has a visible
tab, which is what each step has to leave. -/
theorem orderly_run_iff {ops : List (WindowOp τ)} (h : w.Sound tabId)
    (hvisible : w.HasVisible tabId) (hrange : Throughout tabId (InRange tabId) w ops) :
    Throughout tabId (Orderly tabId) w ops ↔ Throughout tabId (LeavesVisible tabId) w ops := by
  induction ops generalizing w with
  | nil => exact Iff.rfl
  | cons op ops ih =>
    have hstep := stepped h hvisible hrange.1
    constructor
    · rintro ⟨hfirst, hrest⟩
      exact ⟨hstep.visible.mp hfirst.kept.visible,
        (ih hstep.sound hfirst.kept.visible hrange.2).mp hrest⟩
    · rintro ⟨hfirst, hrest⟩
      have hafter := hstep.visible.mpr hfirst
      exact ⟨⟨hstep.failed, hstep.reordered, kept_of_sound hstep.sound hafter⟩,
        (ih hstep.sound hafter hrange.2).mpr hrest⟩

/-- **Over every run of operations from a new window the books are kept, what fails changes nothing
and what reorders does only that, exactly if no removal leaves parked tabs and no visible one.** -/
theorem bookkeeping_iff (id : Nat) {ops : List (WindowOp τ)}
    (hrange : Throughout tabId (InRange tabId) (Window.new id) ops) :
    Throughout tabId (Orderly tabId) (Window.new id) ops ↔
      Throughout tabId (LeavesVisible tabId) (Window.new id) ops :=
  orderly_run_iff (sound_new id) (fun h => absurd rfl h) hrange

/-! ## A window with two tabs -/

/-- Tabs that are no more than their ids. -/
def ownId (tab : TabId) : TabId := tab

instance (w : Window TabId) (op : WindowOp TabId) : Decidable (LeavesVisible ownId w op) :=
  inferInstanceAs (Decidable (_ → _))

/-- Two tabs, of which one is parked, change places, and the parked one is removed. -/
theorem bookkeeping_parked : Throughout ownId (Orderly ownId) (Window.new 0)
      [.push 1, .push 2, .applyParkedTabs [1, 2] [2], .moveByIdx 0 1, .removeByIdx 0] := by
  have hrange : Throughout ownId (InRange ownId) (Window.new 0)
      [.push 1, .push 2, .applyParkedTabs [1, 2] [2], .moveByIdx 0 1, .removeByIdx 0] :=
    ⟨by decide, by decide, trivial, by decide, by decide, trivial⟩
  exact (bookkeeping_iff 0 hrange).mpr
    ⟨by decide, by decide, by decide, by decide, by decide, trivial⟩

/-- The visible tab of the two is removed, and the parked one is left. -/
theorem last_visible_removed : Throughout ownId (InRange ownId) (Window.new 0)
      [.push 1, .push 2, .applyParkedTabs [1, 2] [2], .removeById 1] ∧
    ¬ Throughout ownId (Orderly ownId) (Window.new 0)
      [.push 1, .push 2, .applyParkedTabs [1, 2] [2], .removeById 1] := by
  refine ⟨⟨by decide, by decide, trivial, trivial, trivial⟩, ?_⟩
  rintro ⟨-, -, -, hlast, -⟩
  exact absurd hlast.kept.visible (by decide)

end Wakterm.Theorems.Window
