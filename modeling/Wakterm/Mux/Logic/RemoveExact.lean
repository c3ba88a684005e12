import Mathlib.Data.List.Induction
import Wakterm.Mux.Logic.Removal

/-!
# Removing exactly the matching panes

When a leaf is taken out the loop goes on behind its sibling.
-/

namespace Wakterm.Mux

open Wakterm.Machine Wakterm.Bintree

def matchIndices {α : Type} (g : α → Bool) (xs : List α) : List Nat :=
  (xs.zipIdx.filter fun x => g x.1).map (·.2)

section MatchIndices

variable {α : Type} (g : α → Bool)

theorem matchIndices_snoc (xs : List α) (x : α) : matchIndices g (xs ++ [x]) =
      matchIndices g xs ++ if g x = true then [xs.length] else [] := by
  cases hx : g x <;> simp [matchIndices, List.zipIdx_append, hx]

theorem matchIndices_of_none {xs ys : List α} (h : ∀ y ∈ ys, g y = false) :
    matchIndices g (xs ++ ys) = matchIndices g xs := by
  induction ys using List.reverseRecOn with
  | nil => rw [List.append_nil]
  | append_singleton ys y ih =>
    rw [← List.append_assoc, matchIndices_snoc, h y (by simp)]
    simp only [Bool.false_eq_true, if_false, List.append_nil]
    exact ih fun z hz => h z (by simp [hz])

theorem length_matchIndices_le (xs : List α) (k : Nat) :
    ((matchIndices g xs).filter (· ≤ k)).length = (xs.take (k + 1)).countP g := by
  induction xs using List.reverseRecOn with
  | nil => rfl
  | append_singleton xs x ih =>
    rw [matchIndices_snoc, List.filter_append, List.length_append, ih, List.take_append,
      List.countP_append]
    congr 1
    by_cases hk : xs.length ≤ k
    · obtain ⟨n, hn⟩ : ∃ n, k + 1 - xs.length = n + 1 := ⟨k - xs.length, by omega⟩
      cases hx : g x <;> simp [hn, hk, hx]
    · have hzero : k + 1 - xs.length = 0 := by omega
      cases g x <;> simp [hk, hzero]

theorem sub_length_matchIndices (pre post : List α) (x : α) :
    pre.length - ((matchIndices g (pre ++ x :: post)).filter (· ≤ pre.length)).length =
      (pre.filter fun y => !g y).length - if g x = true then 1 else 0 := by
  have htake : (pre ++ x :: post).take (pre.length + 1) = pre ++ [x] := by
    simp [List.take_append, List.take_of_length_le]
  have hlen : (pre.filter g).length + (pre.filter fun y => !g y).length = pre.length := by
    simpa [List.countP_eq_length_filter] using
      (List.length_eq_countP_add_countP g (l := pre)).symm
  rw [length_matchIndices_le, htake, List.countP_append, List.countP_eq_length_filter,
    List.countP_singleton]
  omega

theorem getElem?_filter_of_matchIndices {xs : List α} {k : Nat} {x : α}
    (hx : xs[k]? = some x) :
    let k' := k - ((matchIndices g xs).filter (· ≤ k)).length
    let stay := xs.filter fun y => !g y
    (stay ≠ [] → k' < stay.length) ∧ (g x = false → stay[k']? = some x) := by
  obtain ⟨hk, hx⟩ := List.getElem?_eq_some_iff.mp hx
  obtain ⟨pre, post, rfl, rfl⟩ : ∃ pre post, xs = pre ++ x :: post ∧ pre.length = k :=
    ⟨xs.take k, xs.drop (k + 1), by simp [← hx], by simp [hk.le]⟩
  dsimp only
  rw [sub_length_matchIndices, List.filter_append]
  cases hg : g x with
  | true =>
    refine ⟨fun hne => ?_, nofun⟩
    have hpos := List.length_pos_iff.mpr hne
    simp only [List.length_append, if_true] at hpos ⊢
    omega
  | false =>
    rw [List.filter_cons_of_pos (by simp [hg])]
    simp

end MatchIndices

/-! ## The condition -/

/-- How many leaves stay. -/
def staying (g : Pane → Bool) (t : PaneTree) : Nat :=
  t.leaves.countP fun x => !g x

/-- The condition on the two children of a split, `later` telling whether a
pane behind the split is taken out. -/
def PairOk (g : Pane → Bool) (later : Bool) : PaneTree → PaneTree → Prop
  | .leaf a, .leaf b => g a = true → g b = false ∧ later = false
  | .node l r d, .leaf b => g b = true → later = false ∨ staying g (.node l r d) ≤ 1
  | _, _ => True

/-- No leaf that has to go is skipped, and the count of the leaves is not lost
before the last leaf that has to go. -/
def WalkOk (g : Pane → Bool) : Bool → PaneTree → Prop
  | later, .node l r _ =>
    WalkOk g (r.leaves.any g || later) l ∧ WalkOk g later r ∧ PairOk g later l r
  | _, .empty => True
  | _, .leaf _ => True

instance decidablePairOk (g : Pane → Bool) (later : Bool) :
    (l r : PaneTree) → Decidable (PairOk g later l r)
  | .leaf _, .leaf _ => inferInstanceAs (Decidable (_ → _ ∧ _))
  | .node _ _ _, .leaf _ => inferInstanceAs (Decidable (_ → _ ∨ _))
  | .empty, _ => isTrue (by simp [PairOk])
  | .leaf _, .empty => isTrue trivial
  | .leaf _, .node _ _ _ => isTrue trivial
  | .node _ _ _, .empty => isTrue trivial
  | .node _ _ _, .node _ _ _ => isTrue trivial

instance decidableWalkOk (g : Pane → Bool) :
    (later : Bool) → (t : PaneTree) → Decidable (WalkOk g later t)
  | later, .node l r _ =>
    haveI := decidableWalkOk g (r.leaves.any g || later) l
    haveI := decidableWalkOk g later r
    inferInstanceAs (Decidable (_ ∧ _ ∧ _))
  | _, .empty => isTrue trivial
  | _, .leaf _ => isTrue trivial

theorem walkOk_of_countP_le_one {g : Pane → Bool} {t : PaneTree} :
    ∀ {later : Bool}, t.leaves.countP g + later.toNat ≤ 1 → WalkOk g later t := by
  induction t with
  | empty => exact fun _ => trivial
  | leaf x => exact fun _ => trivial
  | node l r d ihl ihr =>
    intro later h
    simp only [BinTree.leaves, List.countP_append] at h
    refine ⟨ihl ?_, ihr (by omega), ?_⟩
    · cases hr : r.leaves.any g with
      | false => rw [Bool.false_or]; omega
      | true =>
        obtain ⟨y, hy, hgy⟩ := List.any_eq_true.mp hr
        have hpos := List.countP_pos_iff.mpr ⟨y, hy, hgy⟩
        simp only [Bool.true_or, Bool.toNat_true]
        omega
    · cases r with
      | empty => cases l <;> trivial
      | node r₁ r₂ d' => cases l <;> trivial
      | leaf b =>
        cases l with
        | empty => trivial
        | leaf a =>
          intro ha
          cases hb : g b <;> cases later <;> simp_all [BinTree.leaves]
        | node l₁ l₂ d' =>
          intro hb
          cases later <;> simp_all [BinTree.leaves]

/-! ## The invariant -/

/-- What is still to be walked along a path is in order, when `k` leaves stay
at its end. -/
def PathOk (g : Pane → Bool) : Path Pane SplitDirectionAndSize → Nat → Prop
  | .top, _ => True
  | .left r _ up, k =>
    WalkOk g (up.leavesAfter.any g) r ∧
      (∀ b, r = .leaf b → g b = true → up.leavesAfter.any g = false ∨ k ≤ 1) ∧
      PathOk g up (k + staying g r)
  | .right l _ up, k => PathOk g up (l.numLeaves + k)

/-- The condition on a leaf and its sibling, where the walk arrives at the leaf. -/
def SiblingOk (g : Pane → Bool) : PaneTree → Path Pane SplitDirectionAndSize → Prop
  | .leaf a, .left (.leaf b) _ up =>
    g a = true → g b = false ∧ up.leavesAfter.any g = false
  | .leaf b, .right l _ up =>
    g b = true → up.leavesAfter.any g = false ∨ l.numLeaves ≤ 1
  | _, _ => True

namespace TabInner

section Exact

variable (g : Pane → Bool) (orig : List Pane)

/-- What the loop has found among the leaves it has walked over. -/
structure Found (s : Removal) (walked : List Pane) : Prop where
  deadPanes : s.deadPanes = walked.filter g
  removedIndices : s.removedIndices = matchIndices g walked

/-- The count is right and `rest` is still to be walked. -/
structure Counting (s : Removal) (before rest : List Pane) (walked : List Pane) : Prop where
  orig : orig = walked ++ rest
  before : before = walked.filter fun x => !g x
  found : Found g s walked
  paneIndex : s.paneIndex = walked.length

/-- The walk arrives at a subtree with the right count. -/
structure ExactAt (s : Removal) (t : PaneTree) (p : Path Pane SplitDirectionAndSize) :
    Prop where
  counting : ∃ walked, Counting g orig s p.leavesBefore (t.leaves ++ p.leavesAfter) walked
  walkOk : WalkOk g (p.leavesAfter.any g) t
  pathOk : PathOk g p (staying g t)
  siblingOk : SiblingOk g t p
  full : (p.plug t).Full

/-- The walk leaves a subtree with the right count. -/
structure ExactAfter (s : Removal) (t : PaneTree) (p : Path Pane SplitDirectionAndSize) :
    Prop where
  counting : ∃ walked, Counting g orig s (p.leavesBefore ++ t.leaves) p.leavesAfter walked
  pathOk : PathOk g p t.numLeaves
  full : (p.plug t).Full

/-- All that match are gone. -/
structure Cleared (s : Removal) (t : PaneTree) : Prop where
  leaves : t.leaves = orig.filter fun x => !g x
  found : Found g s orig

variable {g orig}

variable {s s' : Removal} {x : Pane} {before rest walked : List Pane}
  {d : Option SplitDirectionAndSize} {up : Path Pane SplitDirectionAndSize}

theorem Cleared.not_match {t : PaneTree} (h : Cleared g orig s t) (hx : x ∈ t.leaves) :
    g x = false := by
  rw [h.leaves, List.mem_filter] at hx
  simpa using hx.2

theorem Cleared.of_leaves {t t' : PaneTree} (h : Cleared g orig s t) (ht : t'.leaves = t.leaves) :
    Cleared g orig s t' :=
  ⟨ht.trans h.leaves, h.found⟩

theorem Counting.keep (h : Counting g orig s before (x :: rest) walked) (hx : g x = false)
    (hdead : s'.deadPanes = s.deadPanes) (hidx : s'.removedIndices = s.removedIndices)
    (hnum : s'.paneIndex = s.paneIndex + 1) :
    Counting g orig s' (before ++ [x]) rest (walked ++ [x]) where
  orig := by rw [h.orig, List.append_assoc, List.singleton_append]
  before := by rw [h.before, List.filter_append, List.filter_cons_of_pos (by simp [hx]),
    List.filter_nil]
  found :=
    { deadPanes := by simp [hdead, h.found.deadPanes, hx]
      removedIndices := by simp [hidx, h.found.removedIndices, matchIndices_snoc, hx] }
  paneIndex := by rw [hnum, h.paneIndex, List.length_append, List.length_singleton]

theorem Counting.found_take (h : Counting g orig s before (x :: rest) walked) (hx : g x = true)
    (hdead : s'.deadPanes = s.deadPanes ++ [x])
    (hidx : s'.removedIndices = s.removedIndices ++ [s.paneIndex]) :
    Found g s' (walked ++ [x]) where
  deadPanes := by simp [hdead, h.found.deadPanes, hx]
  removedIndices := by simp [hidx, h.found.removedIndices, matchIndices_snoc, hx, h.paneIndex]

theorem Counting.take (h : Counting g orig s before (x :: rest) walked) (hx : g x = true)
    (hdead : s'.deadPanes = s.deadPanes ++ [x])
    (hidx : s'.removedIndices = s.removedIndices ++ [s.paneIndex])
    (hnum : s'.paneIndex = s.paneIndex + 1) : Counting g orig s' before rest (walked ++ [x]) where
  orig := by rw [h.orig, List.append_assoc, List.singleton_append]
  before := by
    rw [h.before, List.filter_append, List.filter_cons_of_neg (by simp [hx]), List.filter_nil,
      List.append_nil]
  found := h.found_take hx hdead hidx
  paneIndex := by rw [hnum, h.paneIndex, List.length_append, List.length_singleton]

theorem Counting.cleared (h : Counting g orig s before (x :: rest) walked) (hx : g x = true)
    (hdead : s'.deadPanes = s.deadPanes ++ [x])
    (hidx : s'.removedIndices = s.removedIndices ++ [s.paneIndex]) (hrest : ∀ y ∈ rest, g y = false)
    {t : PaneTree} (ht : t.leaves = before ++ rest) : Cleared g orig s' t := by
  have horig : orig = walked ++ [x] ++ rest := by
    rw [h.orig, List.append_assoc, List.singleton_append]
  have hstay : rest.filter (fun y => !g y) = rest :=
    List.filter_eq_self.mpr fun y hy => by simp [hrest y hy]
  have hgone : rest.filter g = [] := List.filter_eq_nil_iff.mpr fun y hy => by simp [hrest y hy]
  have hfound := h.found_take hx hdead hidx
  refine ⟨?_, ?_, ?_⟩
  · rw [ht, h.before, horig, List.filter_append, List.filter_append, hstay,
      List.filter_cons_of_neg (by simp [hx]), List.filter_nil, List.append_nil]
  · rw [hfound.deadPanes, horig, List.filter_append (walked ++ [x]), hgone, List.append_nil]
  · rw [hfound.removedIndices, horig, matchIndices_of_none g hrest]

theorem ExactAt.node {s : Removal} {l r : PaneTree} {d : Option SplitDirectionAndSize}
    {p : Path Pane SplitDirectionAndSize} (h : ExactAt g orig s (.node l r d) p)
    (d' : Option SplitDirectionAndSize) : ExactAt g orig s l (.left r d' p) := by
  obtain ⟨⟨walked, hcount⟩, ⟨hl, hr, hpair⟩, hpath, -, hfull⟩ := h
  refine ⟨⟨walked, ?_⟩, ?_, ⟨hr, ?_, ?_⟩, ?_, ?_⟩
  · simpa only [BinTree.leaves, Path.leavesBefore, Path.leavesAfter, List.append_assoc]
      using hcount
  · rwa [Path.leavesAfter, List.any_append]
  · rintro b rfl hb
    cases l with
    | empty => exact .inr (Nat.zero_le 1)
    | leaf a => exact .inr (List.countP_le_length)
    | node l₁ l₂ d₁ => exact hpair hb
  · simpa only [staying, BinTree.leaves, List.countP_append] using hpath
  · cases l with
    | empty => trivial
    | node l₁ l₂ d₁ => trivial
    | leaf a =>
      cases r with
      | empty => trivial
      | node r₁ r₂ d₁ => trivial
      | leaf b => exact hpair
  · simpa only [Path.plug, Path.full_plug, BinTree.Full] using hfull

/-- A matching first child goes: its sibling is walked next, or is the last
leaf of interest. -/
theorem ExactAt.removeLeft {r : PaneTree} (h : ExactAt g orig s (.leaf x) (.left r d up))
    (hx : g x = true) (zoomedId : Option PaneId) (size : TerminalSize) : Regrown
      (fun s t p => ExactAt g orig s t p ∨ Cleared g orig s (p.plug t))
      (fun s t p => ExactAfter g orig s t p ∨ Cleared g orig s (p.plug t))
      (Cleared g orig) (s.take zoomedId x) r up size := by
  obtain ⟨⟨walked, hcount⟩, -, ⟨hr, -, hpath⟩, hsibling, hfull⟩ := h
  have hfull' : (up.plug r).Full := by
    rw [Path.full_plug] at hfull ⊢
    exact hfull.2
  cases r with
  | empty => exact ((up.full_plug _).mp hfull').1.elim
  | leaf y =>
    obtain ⟨hy, hlater⟩ := hsibling hx
    refine Or.inr ?_
    refine hcount.cleared hx rfl rfl ?_ ?_
    · rw [List.any_eq_false] at hlater
      intro z hz
      rcases List.mem_cons.mp (show z ∈ y :: up.leavesAfter from hz) with rfl | hz
      · exact hy
      · simpa using hlater z hz
    · rw [Path.leaves_plug, List.append_assoc]
      rfl
  | node l r d' =>
    have hat : ExactAt g orig (s.take zoomedId x).next (.node l r d') up :=
      { counting := ⟨walked ++ [x], hcount.take hx rfl rfl rfl⟩
        walkOk := hr
        pathOk := by simpa [staying, BinTree.leaves, hx] using hpath
        siblingOk := trivial
        full := hfull' }
    exact .inl (hat.node _)

theorem ExactAt.removeRight {l : PaneTree} (h : ExactAt g orig s (.leaf x) (.right l d up))
    (hx : g x = true) (zoomedId : Option PaneId) (size : TerminalSize) : Regrown
      (fun s t p => ExactAt g orig s t p ∨ Cleared g orig s (p.plug t))
      (fun s t p => ExactAfter g orig s t p ∨ Cleared g orig s (p.plug t))
      (Cleared g orig) (s.take zoomedId x) l up size := by
  obtain ⟨⟨walked, hcount⟩, -, hpath, hsibling, hfull⟩ := h
  have hfull' : (up.plug l).Full := by
    rw [Path.full_plug] at hfull ⊢
    exact hfull.2
  cases l with
  | empty => exact ((up.full_plug _).mp hfull').1.elim
  | leaf y =>
    refine .inl ⟨⟨walked ++ [x], hcount.take hx rfl rfl rfl⟩, ?_, hfull'⟩
    simpa [PathOk, staying, BinTree.leaves, BinTree.numLeaves, hx] using hpath
  | node l₁ l₂ d' =>
    have hlater : up.leavesAfter.any g = false := by
      refine (hsibling hx).resolve_right fun hle => ?_
      have hl := ((up.full_plug _).mp hfull').1
      have h₁ := hl.1.numLeaves_pos
      have h₂ := hl.2.numLeaves_pos
      simp only [BinTree.numLeaves] at hle
      omega
    rw [List.any_eq_false] at hlater
    refine Or.inr ?_
    refine hcount.cleared hx rfl rfl ?_ ?_
    · exact fun z hz => by simpa using hlater z hz
    · simp [Path.plug, Path.leaves_plug, Path.leavesBefore, Path.leavesAfter, BinTree.leaves]

theorem exactRule (rootSize cell : TerminalSize) (zoomedId : Option PaneId) :
    RemovalRule (fun _ x => g x) rootSize cell zoomedId
      (fun s t p => ExactAt g orig s t p ∨ Cleared g orig s (p.plug t))
      (fun s t p => ExactAfter g orig s t p ∨ Cleared g orig s (p.plug t)) (Cleared g orig) where
  empty := by
    rintro s p (h | h)
    · exact ((p.full_plug _).mp h.full).1.elim
    · exact h
  node := by
    rintro s l r d p (h | h)
    · exact .inl (h.node _)
    · exact .inr (h.of_leaves (by simp only [Path.plug, Path.leaves_plug, BinTree.leaves]))
  keep := by
    rintro s x p (⟨⟨walked, hcount⟩, _, hpath, _, hfull⟩ | h) hx
    · refine .inl ⟨⟨walked ++ [x], hcount.keep hx rfl rfl rfl⟩, ?_, hfull⟩
      simpa [staying, BinTree.leaves, BinTree.numLeaves, hx] using hpath
    · exact .inr ⟨h.leaves, h.found.1, h.found.2⟩
  removeTop := by
    rintro s x (⟨⟨walked, hcount⟩, -⟩ | h) hx
    · exact hcount.cleared hx rfl rfl (by simp [Path.leavesAfter]) rfl
    · rw [h.not_match (by simp [Path.plug, BinTree.leaves])] at hx
      cases hx
  removeLeft := by
    rintro s x r d up (h | h) hx
    · exact h.removeLeft hx zoomedId _
    · rw [h.not_match (by simp [Path.leaves_plug, BinTree.leaves])] at hx
      cases hx
  removeRight := by
    rintro s x l d up (h | h) hx
    · exact h.removeRight hx zoomedId _
    · rw [h.not_match (by simp [Path.leaves_plug, BinTree.leaves])] at hx
      cases hx
  cross := by
    rintro s t r d up (⟨⟨walked, hcount⟩, ⟨hr, hsibling, hpath⟩, hfull⟩ | h)
    · refine .inl ⟨⟨walked, hcount⟩, hr, hpath, ?_, hfull⟩
      cases r with
      | empty => trivial
      | node r₁ r₂ d' => trivial
      | leaf b => exact hsibling b rfl
    · exact .inr h
  up := by
    rintro s t l d up (⟨⟨walked, hcount⟩, hpath, hfull⟩ | h)
    · refine .inl ⟨⟨walked, ?_⟩, hpath, hfull⟩
      simpa only [Path.leavesBefore, Path.leavesAfter, BinTree.leaves, List.append_assoc]
        using hcount
    · exact .inr h
  finish := by
    rintro s t (⟨⟨walked, hcount⟩, -⟩ | h)
    · obtain ⟨horig, hbefore, hfound, -⟩ := hcount
      simp only [Path.leavesAfter, List.append_nil] at horig
      rw [horig]
      exact ⟨hbefore, hfound⟩
    · exact h

/-- **The loop takes out the matching leaves**, and no others. -/
theorem removeLoop_exact {root : PaneTree} (htree : SplitTree root)
    (hok : WalkOk g false root) (tab : TabInner) (rootSize cell : TerminalSize)
    (zoomedId : Option PaneId) : ∃ s t, removeLoop (fun _ x => g x) rootSize cell zoomedId
        ((root.numNodes + 1) * (root.numNodes + 1)) (Removal.start tab) root.cursor =
          some (s, t) ∧ Cleared g root.leaves s t := by
  obtain ⟨⟨s, t⟩, hrun⟩ := removeLoop_isSome (fun _ x => g x) rootSize cell zoomedId
    (Removal.start tab) htree
  refine ⟨s, t, hrun, (exactRule rootSize cell zoomedId).post _ _ _ s t ?_ hrun⟩
  rcases htree.proper with rfl | hfull
  · exact .inr ⟨rfl, rfl, rfl⟩
  · exact .inl
      { counting := ⟨[], by simp [BinTree.cursor, Path.leavesAfter], rfl, ⟨rfl, rfl⟩, rfl⟩
        walkOk := hok
        pathOk := trivial
        siblingOk := by
          cases root <;> trivial
        full := hfull }

end Exact

end TabInner

end Wakterm.Mux
