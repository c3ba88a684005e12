import Wakterm.Mux.Logic.RemoveExact
import Wakterm.Mux.Logic.RemoveGrows

/-!
# Removing panes

`remove_pane_if` walks the tree while it takes leaves out of it.
-/

namespace Wakterm.Theorems.Remove

open Wakterm.Mux Wakterm.Bintree

/-- The panes that match are taken out and returned, each once, the others stay
in their order, and the focus stays on the active pane if it stays. -/
def RemovesExactly (g : Pane → Bool) (tab : TabInner) (root : PaneTree) : Prop :=
  ∃ dead tab' root', tab.removePaneIf (fun _ x => g x) = some (dead, tab') ∧
    tab'.pane = some root' ∧ dead.Perm (root.leaves.filter g) ∧
    (∀ x ∈ root'.leaves, g x = false) ∧ root'.leaves = root.leaves.filter (fun x => !g x) ∧
    (root'.leaves ≠ [] → tab'.active < root'.numLeaves ∧
      ∀ x, root.leaves[tab.active]? = some x → g x = false →
        root'.leaves[tab'.active]? = some x)

/-- The removal goes well: the cell size can be computed, and the walk is not led astray. -/
structure Removable (g : Pane → Bool) (tab : TabInner) (root : PaneTree) : Prop where
  size : ∀ ax, 1 ≤ tab.size.cells ax
  walk : WalkOk g false root

/-- **The matching panes go and the others stay**, whenever no pair of panes
goes whole and the count of the leaves is kept up to the last that goes. -/
theorem removesExactly_of_removable {g : Pane → Bool} {tab : TabInner} {root : PaneTree}
    (hroot : tab.pane = some root) (htree : SplitTree root)
    (hactive : root ≠ .empty → tab.active < root.numLeaves) (h : Removable g tab root) :
    RemovesExactly g tab root := by
  obtain ⟨s, t, hrun, hleaves, hdead, hidx⟩ := TabInner.removeLoop_exact htree h.walk tab
    tab.size (cellOf tab.size) (tab.zoomed.map (·.paneId))
  refine ⟨s.deadPanes, tab.afterRemoval s t, t,
    TabInner.removePaneIf_eq_some_iff.mpr ⟨root, s, t, hroot, h.size, hrun, rfl, rfl⟩, rfl,
    .of_eq hdead, ?_, hleaves, fun hne => ?_⟩
  · intro x hx
    rw [hleaves, List.mem_filter] at hx
    simpa using hx.2
  · have hroot : root ≠ .empty := by
      rintro rfl
      exact hne hleaves
    have hlt := hactive hroot
    rw [← BinTree.length_leaves] at hlt
    obtain ⟨hrange, hstays⟩ := getElem?_filter_of_matchIndices g (List.getElem?_eq_getElem hlt)
    rw [← BinTree.length_leaves]
    simp only [TabInner.afterRemoval, hidx, hleaves] at hne ⊢
    refine ⟨hrange hne, fun x hx hg => ?_⟩
    rw [List.getElem?_eq_getElem hlt, Option.some.injEq] at hx
    rw [← hx]
    exact hstays (hx ▸ hg)

/-- Three panes in a row, in the right half another pair. -/
def threePanes : PaneTree :=
  .node (.leaf ⟨0, 0⟩)
    (.node (.leaf ⟨1, 0⟩) (.leaf ⟨2, 0⟩)
      (some ⟨.horizontal, ⟨24, 19, 190, 600, 96⟩, ⟨24, 20, 200, 600, 96⟩⟩))
    (some ⟨.horizontal, ⟨24, 39, 390, 600, 96⟩, ⟨24, 40, 400, 600, 96⟩⟩)

/-- They fill a tab of 80 columns; the one in the middle is active. -/
def threeInRow : TabInner :=
  { TabInner.new 0 ⟨24, 80, 800, 600, 96⟩ with
    pane := some threePanes
    active := 1 }

/-- The outer two can go at once. -/
theorem removesExactly_threeInRow : RemovesExactly (fun x => x.paneId ≠ 1) threeInRow threePanes :=
  removesExactly_of_removable rfl ⟨.inr ⟨trivial, trivial, trivial⟩, by decide⟩ (fun _ => by decide)
    ⟨forall_axis (by decide) (by decide), by decide⟩

/-- When both panes of the right half have to go, the second stays. -/
theorem removal_skips_threeInRow :
    ¬ ∀ (g : Pane → Bool) (tab : TabInner) (root : PaneTree), tab.pane = some root →
      SplitTree root → LaidOut root tab.size → tab.active < root.numLeaves →
      RemovesExactly g tab root := by
  intro hall
  obtain ⟨dead, tab', root', hrun, hpane, -, hgone, -⟩ :=
    hall (fun x => x.paneId ≠ 0) threeInRow threePanes rfl
      ⟨.inr ⟨trivial, trivial, trivial⟩, by decide⟩ (by decide) (by decide)
  have hval : (threeInRow.removePaneIf fun _ x => x.paneId ≠ 0).map
      (fun out => out.2.pane.map BinTree.leaves) = some (some [⟨0, 0⟩, ⟨2, 0⟩]) := by
    decide
  rw [hrun, Option.map_some, Option.some.injEq, hpane, Option.map_some,
    Option.some.injEq] at hval
  have hstays := hgone ⟨2, 0⟩ (by simp [hval])
  simp at hstays

end Wakterm.Theorems.Remove

/-!
## The space of a removed pane

Whatever the layout, the space of a pane that is removed goes to others and none of them shrinks.
-/

namespace Wakterm.Theorems.RemovePane

open Wakterm.Mux Wakterm.Bintree

/-- The pane is removed and the others fill the tab. None has fewer rows or columns than it had. The
last size each was told is what it has, in pixels too or at the cell size of the tab; one that was
told nothing has what it had. -/
def RemovesAndGrows (tab : TabInner) (root : PaneTree) (paneId : PaneId) : Prop :=
  ∃ pane tab' root', tab.removePane paneId = some (some pane, tab') ∧ pane.paneId = paneId ∧
    tab'.size = tab.size ∧ tab'.pane = some root' ∧ HasData root' ∧ Consistent root' tab'.size ∧
    (allocations root' tab'.size).map Prod.fst = root.leaves.filter (·.paneId ≠ paneId) ∧
    ∀ x b, (x, b) ∈ allocations root' tab'.size → ∃ a, (x, a) ∈ allocations root tab.size ∧
      a.rows ≤ b.rows ∧ a.cols ≤ b.cols ∧
      (lastTold x (tab'.calls.drop tab.calls.length) = none → b = a) ∧
      ∀ c, lastTold x (tab'.calls.drop tab.calls.length) = some c →
        c = b ∨ c = b.atCell (cellOf tab.size)

/-- **Removing a pane shrinks none of the others**, in a tab that is laid out. -/
theorem removePane_grows {tab : TabInner} {root : PaneTree} {paneId : PaneId}
    (hroot : tab.pane = some root) (htree : SplitTree root) (hlaid : LaidOut root tab.size)
    (hsize : ∀ ax, tab.size.cells ax < 2 ^ 64) (hids : (root.leaves.map (·.paneId)).Nodup)
    (hid : paneId ∈ root.leaves.map (·.paneId)) : RemovesAndGrows tab root paneId := by
  obtain ⟨pane, hpane, hpaneId⟩ := List.mem_map.mp hid
  have hfull : root.Full := by
    rcases htree.proper with rfl | hfull
    · exact absurd hpane (by simp [BinTree.leaves])
    · exact hfull
  have htiled : Tiled root tab.size := (tiled_iff root tab.size).mpr ⟨hfull, htree.hasData, hlaid⟩
  -- exactly one pane matches
  have hmatch : root.leaves.filter (fun x => decide (x.paneId = paneId)) = [pane] := by
    have hnodup : (root.leaves.filter fun x => decide (x.paneId = paneId)).Nodup :=
      (hids.of_map _).filter _
    have hall : ∀ x ∈ root.leaves.filter (fun x => decide (x.paneId = paneId)), x = pane := by
      intro x hx
      obtain ⟨hx, heq⟩ := List.mem_filter.mp hx
      exact List.inj_on_of_nodup_map hids hx hpane ((of_decide_eq_true heq).trans hpaneId.symm)
    have hmem : pane ∈ root.leaves.filter (fun x => decide (x.paneId = paneId)) :=
      List.mem_filter.mpr ⟨hpane, decide_eq_true hpaneId⟩
    have hpos := List.length_pos_of_mem hmem
    have hcopies := List.eq_replicate_of_mem hall
    have hle := List.nodup_replicate.mp (hcopies ▸ hnodup)
    rw [hcopies, show (root.leaves.filter fun x => decide (x.paneId = paneId)).length = 1 by omega,
      List.replicate_one]
  have hone : root.leaves.countP (fun x => decide (x.paneId = paneId)) = 1 := by
    rw [List.countP_eq_length_filter, hmatch, List.length_singleton]
  obtain ⟨s, t, hrun, hleaves, hdead, -⟩ := TabInner.removeLoop_exact htree
    (walkOk_of_countP_le_one (by rw [hone]; exact Nat.le_refl 1)) tab tab.size (cellOf tab.size)
    (tab.zoomed.map (·.paneId))
  have hremoves : tab.removePaneIf (fun _ x => decide (x.paneId = paneId)) =
      some (s.deadPanes, tab.afterRemoval s t) :=
    TabInner.removePaneIf_eq_some_iff.mpr ⟨root, s, t, hroot, htiled.one_le, hrun, rfl, rfl⟩
  have hgrown := TabInner.removeLoop_grown hsize ((filled_one_iff root tab.size).mpr htiled)
    (hids.of_map _) hrun
  rw [hmatch] at hdead
  refine ⟨pane, tab.afterRemoval s t, t, ?_, hpaneId, rfl, rfl, ?_⟩
  · simp [TabInner.removePane, hremoves, hdead]
  · have hstay : t.leaves = root.leaves.filter (·.paneId ≠ paneId) := by
      rw [hleaves]
      simp only [ne_eq, decide_not]
    rcases hgrown with rfl | hdone
    · refine ⟨trivial, trivial, ?_, fun x b hx => absurd hx (by simp [allocations])⟩
      exact hstay
    · have htiled' := (filled_one_iff t tab.size).mp hdone.filled
      refine ⟨htiled'.hasData, htiled'.laidOut.consistent,
        (map_fst_allocations htiled'.hasData _).trans hstay, fun x b hx => ?_⟩
      obtain ⟨a, ha, hle, htold⟩ := hdone.grown x b hx
      exact ⟨a, ha, hle .y, hle .x, htold.untold, htold.told⟩

/-- A pane to the left of two that are stacked. -/
def besideTwo : PaneTree :=
  .node (.leaf ⟨0, 0⟩)
    (.node (.leaf ⟨1, 0⟩) (.leaf ⟨2, 0⟩)
      (some ⟨.vertical, ⟨12, 40, 400, 300, 96⟩, ⟨11, 40, 400, 275, 96⟩⟩))
    (some ⟨.horizontal, ⟨24, 39, 390, 600, 96⟩, ⟨24, 40, 400, 600, 96⟩⟩)

/-- The tab they fill. -/
def besideTwoTab : TabInner :=
  { TabInner.new 0 ⟨24, 80, 800, 600, 96⟩ with pane := some besideTwo }

/-- When the left pane goes the other two get its columns. -/
theorem removePane_grows_besideTwo : RemovesAndGrows besideTwoTab besideTwo 0 :=
  removePane_grows rfl ⟨.inr ⟨trivial, trivial, trivial⟩, by decide⟩ (by decide)
    (forall_axis (by decide) (by decide)) (by decide) (by decide)

end Wakterm.Theorems.RemovePane
