import Wakterm.Mux.Logic.Adjust
import Wakterm.Mux.Logic.Panes

/-!
# What `resize_impl` makes of a split tree

An unzoomed `resize_impl` is `adjust_x_size`, `adjust_y_size` and `reconcile_tree_sizes` (`relaid`)
at the requested size clamped up to `compute_min_size`.
-/

namespace Wakterm.Mux

open Wakterm.Machine Wakterm.Bintree Wakterm.Layout

/-- A tab at rest: not zoomed, with a proper split tree laid out for its size. -/
structure TabInner.Settled (tab : TabInner) (root : PaneTree) : Prop where
  unzoomed : tab.zoomed = none
  pane : tab.pane = some root
  tree : SplitTree root
  laidOut : LaidOut root tab.size

/-- The requested size clamped up to `compute_min_size`. -/
def clampedSize (root : PaneTree) (size : TerminalSize) : TerminalSize :=
  let cols := max size.cols (computeMinSize root).1
  let rows := max size.rows (computeMinSize root).2
  { rows := rows
    cols := cols
    pixelWidth := umul cols (size.pixelWidth / size.cols)
    pixelHeight := umul rows (size.pixelHeight / size.rows)
    dpi := size.dpi }

@[simp] theorem cells_clampedSize (root : PaneTree) (size : TerminalSize) (ax : Axis) :
    (clampedSize root size).cells ax = max (size.cells ax) (minCells ax root) := by
  cases ax <;> rfl

/-- The tree `resize_impl` leaves behind. -/
def relaid (root : PaneTree) (old size : TerminalSize) : PaneTree :=
  let new := clampedSize root size
  reconcileTreeSizes
    (adjustYSize (adjustXSize root (iwrap (asIsize new.cols - asIsize old.cols)) (cellOf size))
      (iwrap (asIsize new.rows - asIsize old.rows)) (cellOf size)) new

theorem skeleton_relaid (root : PaneTree) (old size : TerminalSize) :
    skeleton (relaid root old size) = skeleton root := by
  simp only [relaid, skeleton_reconcileTreeSizes, adjustXSize, adjustYSize,
    skeleton_adjustSize]

variable {root : PaneTree} {size old : TerminalSize}

theorem SplitTree.relaid (h : SplitTree root) (old size : TerminalSize) :
    SplitTree (relaid root old size) :=
  .of_skeleton (skeleton_relaid root old size).symm h

theorem TabInner.resizeImpl_unzoomed {tab : TabInner} {root : PaneTree}
    (hz : tab.zoomed = none) (hroot : tab.pane = some root) (hp : root.Proper)
    {size : TerminalSize} (hsize : ∀ ax, 1 ≤ size.cells ax) (sendResize : Bool) :
    ∃ cs, tab.resizeImpl size sendResize = some
        { tab with
          pane := some (relaid root tab.size size)
          size := clampedSize root size
          calls := tab.calls ++
            applySizesFromSplits (relaid root tab.size size) (clampedSize root size) ++ cs } ∧
      ∀ c ∈ cs, c.isResize = false := by
  have hskel := skeleton_relaid root tab.size size
  have hproper : (relaid root tab.size size).Proper := by
    rcases hp with rfl | hfull
    · exact .inl rfl
    · exact .inr ((full_iff_of_skeleton hskel).mpr hfull)
  have hsend := @TabInner.sendResizeBatch_eq
    { tab with
      pane := some (relaid root tab.size size)
      size := clampedSize root size
      calls := tab.calls ++
        applySizesFromSplits (relaid root tab.size size) (clampedSize root size) }
    (relaid root tab.size size)
    rfl hproper (collectPaneSizes (relaid root tab.size size) (clampedSize root size))
  obtain ⟨cs, hcs, hres⟩ := hsend
  simp only [TabInner.resizeImpl, hz, cellDimensions_eq hsize, hroot, Option.bind_eq_bind,
    Option.bind_some]
  rw [if_neg ((forall_one_le_iff size).mp hsize)]
  cases sendResize with
  | false =>
    refine ⟨[], ?_, by simp⟩
    rw [List.append_nil]
    rfl
  | true =>
    rw [hz] at hcs
    exact ⟨cs, hcs, hres⟩

theorem TabInner.resizeImpl_zoomed {tab : TabInner} {z : Pane} (hz : tab.zoomed = some z)
    (hsize : ∀ ax, 1 ≤ size.cells ax) (sendResize : Bool) : tab.resizeImpl size sendResize =
      some { tab with size := size, calls := tab.calls ++ [PaneCall.resize z size] } := by
  simp only [TabInner.resizeImpl, hz]
  exact if_neg ((forall_one_le_iff size).mp hsize)

theorem TabInner.resizeImpl_empty {tab : TabInner} (hsize : ¬ ∀ ax, 1 ≤ size.cells ax)
    (sendResize : Bool) : tab.resizeImpl size sendResize = some tab := by
  rw [forall_one_le_iff, not_not] at hsize
  exact if_pos hsize

/-! ## Axis by axis -/

theorem SplitTree.least_lt (htree : SplitTree root) (h : LaidOut root size)
    (hsize : ∀ ax, size.cells ax < 2 ^ 63) (ax : Axis) : (span ax root).least < 2 ^ 63 := by
  rcases htree.proper with rfl | hfull
  · exact (by decide : 1 < 2 ^ 63)
  · exact ((laidOut_iff hfull htree.hasData size).mp h ax).least_le.trans_lt (hsize ax)

theorem clampedSize_lt (hleast : ∀ ax, (span ax root).least < 2 ^ 63)
    (hsize : ∀ ax, size.cells ax < 2 ^ 63) (ax : Axis) :
    (clampedSize root size).cells ax < 2 ^ 63 := by
  have := hleast ax
  rw [cells_clampedSize, minCells_eq ax root (by omega)]
  exact max_lt (hsize ax) (hleast ax)

/-- The passes seen along one axis: the one for the other axis, before or after,
leaves it alone. -/
theorem relaid_along (root : PaneTree) (old size : TerminalSize) (ax : Axis) :
    ∃ t₁ t, span ax t₁ = span ax root ∧ span ax t = span ax (adjustSize ax t₁
        (iwrap (asIsize ((clampedSize root size).cells ax) - asIsize (old.cells ax)))
        (cellOf size)) ∧ relaid root old size = reconcileTreeSizes t (clampedSize root size) := by
  cases ax with
  | x => exact ⟨root, _, rfl, span_adjustSize_of_ne (by decide) _ _ _, rfl⟩
  | y => exact ⟨_, _, span_adjustSize_of_ne (by decide) _ _ _, rfl, rfl⟩

theorem span_relaid {ax : Axis} (h : (span ax root).Roomy (old.cells ax))
    (hold : old.cells ax < 2 ^ 63) (hsize : size.cells ax < 2 ^ 63) :
    let new := max (size.cells ax) (span ax root).least
    span ax (relaid root old size) =
      if old.cells ax ≤ new then ((span ax root).growBy (new - old.cells ax)).squeeze new
      else ((span ax root).shrinkBy (old.cells ax - new)).squeeze new := by
  intro new
  have hleast := h.least_le
  have hnew : (clampedSize root size).cells ax = new := by
    rw [cells_clampedSize, minCells_eq ax root (by omega)]
  have hlt : new < 2 ^ 63 := by omega
  obtain ⟨t₁, t, ht₁, ht, hrel⟩ := relaid_along root old size ax
  rw [hnew, asIsize_of_lt hlt, asIsize_of_lt hold, iwrap_of_mem (by omega) (by omega)] at ht
  rw [← ht₁] at h ⊢
  rw [hrel]
  by_cases hle : old.cells ax ≤ new
  · rw [show (new : Int) - old.cells ax = ((new - old.cells ax : Nat) : Int) by omega,
      span_adjustSize_grow h (by omega)] at ht
    rw [if_pos hle, span_reconcileTreeSizes ax t _ ?_ (by omega), hnew, ht]
    rw [ht]
    exact (h.growBy _).fills.below (by omega)
  · rw [show (new : Int) - old.cells ax = -((old.cells ax - new : Nat) : Int) by omega,
      span_adjustSize_shrink h hold (by omega)] at ht
    rw [if_neg hle, span_reconcileTreeSizes ax t _ ?_ (by omega), hnew, ht]
    rw [ht]
    exact (h.fills.below hold).shrinkBy _

theorem roomy_span_relaid_iff {ax : Axis} (h : (span ax root).Roomy (old.cells ax))
    (hold : old.cells ax < 2 ^ 63) (hsize : size.cells ax < 2 ^ 63) :
    (span ax (relaid root old size)).Roomy ((clampedSize root size).cells ax) ↔
      Span.SparesAtOnce (old.cells ax - max (size.cells ax) (span ax root).least)
        (span ax root) := by
  have hleast := h.least_le
  rw [cells_clampedSize, minCells_eq ax root (by omega), span_relaid h hold hsize]
  generalize hnew : max (size.cells ax) (span ax root).least = new
  have hle' : (span ax root).least ≤ new := by omega
  split_ifs with hle
  · have hgrow := h.growBy (new - old.cells ax)
    rw [Nat.add_sub_cancel' hle] at hgrow
    rw [hgrow.squeeze_eq, Nat.sub_eq_zero_of_le hle]
    exact iff_of_true hgrow h.sparesAtOnce_zero
  · have hiff := Span.squeeze_shrinkBy_roomy_iff h (old.cells ax - new) (by omega)
    rwa [Nat.sub_sub_self (by omega)] at hiff

/-- **When `resize_impl` leaves a laid out tree**: on each axis every child has
to be able to spare its part of the cells that are lost. -/
theorem relaid_laidOut_iff (htree : SplitTree root) (h : LaidOut root old)
    (hold : ∀ ax, old.cells ax < 2 ^ 63) (hsize : ∀ ax, size.cells ax < 2 ^ 63) :
    LaidOut (relaid root old size) (clampedSize root size) ↔
      ∀ ax, Span.SparesAtOnce (old.cells ax - (clampedSize root size).cells ax) (span ax root) := by
  rcases htree.proper with rfl | hfull
  · exact iff_of_true ⟨trivial, trivial⟩ fun ax => trivial
  · have hroomy := (laidOut_iff hfull htree.hasData old).mp h
    have hnew := htree.relaid old size
    have hfull' := (full_iff_of_skeleton (skeleton_relaid root old size)).mpr hfull
    rw [laidOut_iff hfull' hnew.hasData]
    refine forall_congr' fun ax => ?_
    have hleast := (hroomy ax).least_le.trans_lt (hold ax)
    rw [roomy_span_relaid_iff (hroomy ax) (hold ax) (hsize ax), cells_clampedSize,
      minCells_eq ax root (by omega)]

end Wakterm.Mux
