import Wakterm.Layout.Span
import Wakterm.Mux.SplitTree

/-!
# Split trees, one axis at a time

Rows and columns never mix: seen along one axis a split tree is a `Layout.Span`, and the top-down
passes of the tab code are the library's `squeeze` and `pushDown` on it.
-/

namespace Wakterm.Mux

open Wakterm.Machine Wakterm.Bintree Wakterm.Layout

/-- The split tree along one axis. -/
def span (ax : Axis) : PaneTree → Span
  | .node l r (some d) =>
    .split (d.direction.axis = ax) (d.first.cells ax) (d.second.cells ax) (span ax l)
      (span ax r)
  | .node _ _ none => .pane
  | .empty => .pane
  | .leaf _ => .pane

/-- Everything but the sizes. -/
def skeleton (t : PaneTree) : BinTree Pane SplitDirection :=
  t.mapData (·.direction)

/-- The directions together with the cells along one axis. -/
def frame (ax : Axis) (t : PaneTree) : BinTree Pane (SplitDirection × Nat × Nat) :=
  t.mapData fun d => (d.direction, d.first.cells ax, d.second.cells ax)

/-- A proper split tree: no `empty` below a node and data on every node. -/
structure SplitTree (t : PaneTree) : Prop where
  proper : t.Proper
  hasData : HasData t

/-- The tree is consistent with the size and every pane has a cell. -/
structure LaidOut (t : PaneTree) (size : TerminalSize) : Prop where
  consistent : Consistent t size
  panes : PanesNonempty t size

instance (t : PaneTree) (size : TerminalSize) : Decidable (LaidOut t size) :=
  decidable_of_iff (Consistent t size ∧ PanesNonempty t size)
    ⟨fun h => ⟨h.1, h.2⟩, fun h => ⟨h.consistent, h.panes⟩⟩

theorem forall_axis {p : Axis → Prop} (hx : p .x) (hy : p .y) : ∀ ax, p ax
  | .x => hx
  | .y => hy

theorem axis_eq_or (ax bx : Axis) : ax = bx ∨ ax = bx.other := by
  cases ax <;> cases bx <;> first | exact .inl rfl | exact .inr rfl

@[simp] theorem Axis.other_ne (ax : Axis) : ax.other ≠ ax := by
  cases ax <;> decide

variable {t' t : PaneTree}

theorem span_eq_of_frame {ax : Axis} (h : frame ax t = frame ax t') : span ax t = span ax t' := by
  induction t generalizing t' with
  | empty => cases t' <;> simp_all [frame, BinTree.mapData, span]
  | leaf p => cases t' <;> simp_all [frame, BinTree.mapData, span]
  | node l r d ihl ihr =>
    cases t' with
    | empty => simp [frame, BinTree.mapData] at h
    | leaf p => simp [frame, BinTree.mapData] at h
    | node l' r' d' =>
      simp only [frame, BinTree.mapData, BinTree.node.injEq] at h
      obtain ⟨hl, hr, hd⟩ := h
      cases d with
      | none =>
        cases d' with
        | none => rfl
        | some d' => simp at hd
      | some d =>
        cases d' with
        | none => simp at hd
        | some d' =>
          simp only [Option.map_some, Option.some.injEq, Prod.mk.injEq] at hd
          simp only [span, ihl hl, ihr hr, hd]

theorem skeleton_eq_of_frame {ax : Axis} (h : frame ax t = frame ax t') :
    skeleton t = skeleton t' := by
  have h' := congrArg (BinTree.mapData Prod.fst) h
  simpa only [frame, skeleton, BinTree.mapData_mapData, Function.comp_def] using h'

theorem height_eq_of_frame {ax : Axis} (h : frame ax t = frame ax t') : t.height = t'.height := by
  have h' := congrArg BinTree.height h
  simpa only [frame, BinTree.height_mapData] using h'

theorem leaves_eq_of_skeleton (h : skeleton t = skeleton t') : t.leaves = t'.leaves := by
  have h' := congrArg BinTree.leaves h
  simpa only [skeleton, BinTree.leaves_mapData] using h'

theorem full_iff_of_skeleton (h : skeleton t = skeleton t') : t.Full ↔ t'.Full := by
  have h' := congrArg BinTree.Full h
  simpa only [skeleton, BinTree.full_mapData, eq_iff_iff] using h'

theorem hasData_iff_of_skeleton (h : skeleton t = skeleton t') : HasData t ↔ HasData t' := by
  induction t generalizing t' with
  | empty => cases t' <;> simp_all [skeleton, BinTree.mapData, HasData]
  | leaf p => cases t' <;> simp_all [skeleton, BinTree.mapData, HasData]
  | node l r d ihl ihr =>
    cases t' with
    | empty => simp [skeleton, BinTree.mapData] at h
    | leaf p => simp [skeleton, BinTree.mapData] at h
    | node l' r' d' =>
      simp only [skeleton, BinTree.mapData, BinTree.node.injEq] at h
      obtain ⟨hl, hr, hd⟩ := h
      simp only [HasData, ihl hl, ihr hr]
      cases d <;> cases d' <;> simp_all

theorem SplitTree.of_skeleton (h : skeleton t = skeleton t') (ht : SplitTree t) : SplitTree t' := by
  refine ⟨?_, (hasData_iff_of_skeleton h).mp ht.hasData⟩
  rcases ht.proper with rfl | hfull
  · cases t' <;> simp_all [skeleton, BinTree.mapData, BinTree.Proper]
  · exact .inr ((full_iff_of_skeleton h).mp hfull)

/-- The cell of a size that has rows and columns. -/
def cellOf (size : TerminalSize) : TerminalSize where
  rows := 1
  cols := 1
  pixelWidth := size.pixelWidth / size.cols
  pixelHeight := size.pixelHeight / size.rows
  dpi := size.dpi

theorem forall_one_le_iff (size : TerminalSize) :
    (∀ ax, 1 ≤ size.cells ax) ↔ ¬ (size.rows = 0 ∨ size.cols = 0) := by
  constructor
  · intro h
    have hx : 1 ≤ size.cols := h .x
    have hy : 1 ≤ size.rows := h .y
    omega
  · intro h
    exact forall_axis (p := fun ax => 1 ≤ size.cells ax) (Nat.pos_of_ne_zero fun hx => h (.inr hx))
      (Nat.pos_of_ne_zero fun hy => h (.inl hy))

theorem cellDimensions_eq {size : TerminalSize} (h : ∀ ax, 1 ≤ size.cells ax) :
    cellDimensions size = some (cellOf size) :=
  if_neg fun h0 => (forall_one_le_iff size).mp h h0.symm

theorem cellDimensions_eq_none {size : TerminalSize} (h : ¬ ∀ ax, 1 ≤ size.cells ax) :
    cellDimensions size = none :=
  if_pos (not_not.mp fun h0 => h ((forall_one_le_iff size).mpr fun h1 => h0 h1.symm))

/-! ## Consistency axis by axis -/

theorem SplitDirectionAndSize.fits_iff (d : SplitDirectionAndSize) (a : TerminalSize) : d.Fits a ↔
      d.first.cells d.direction.axis + 1 + d.second.cells d.direction.axis =
          a.cells d.direction.axis ∧
        d.first.cells d.direction.axis.other = a.cells d.direction.axis.other ∧
        d.second.cells d.direction.axis.other = a.cells d.direction.axis.other := by
  unfold SplitDirectionAndSize.Fits
  cases d.direction <;>
    simp only [SplitDirection.axis, Axis.other, TerminalSize.cells_x, TerminalSize.cells_y] <;>
    tauto

theorem consistent_iff (t : PaneTree) (a : TerminalSize) :
    Consistent t a ↔ ∀ ax, (span ax t).Fills (a.cells ax) := by
  induction t generalizing a with
  | empty => simp [Consistent, span, Span.Fills]
  | leaf p => simp [Consistent, span, Span.Fills]
  | node l r d ihl ihr =>
    cases d with
    | none => simp [Consistent, span, Span.Fills]
    | some d =>
      simp only [Consistent, ihl, ihr, d.fits_iff]
      constructor
      · rintro ⟨⟨hsum, hf, hs⟩, hl, hr⟩ ax
        rcases axis_eq_or ax d.direction.axis with rfl | rfl
        · simp only [span, decide_true, Span.Fills]
          exact ⟨hsum, hl _, hr _⟩
        · simp only [span, (Axis.other_ne _).symm, decide_false, Span.Fills]
          exact ⟨hf, hs, hl _, hr _⟩
      · intro h
        have h1 := h d.direction.axis
        have h2 := h d.direction.axis.other
        simp only [span, decide_true, Span.Fills] at h1
        simp only [span, (Axis.other_ne _).symm, decide_false, Span.Fills] at h2
        refine ⟨⟨h1.1, h2.1, h2.2.1⟩, ?_, ?_⟩
        · intro ax
          rcases axis_eq_or ax d.direction.axis with rfl | rfl
          · exact h1.2.1
          · exact h2.2.2.1
        · intro ax
          rcases axis_eq_or ax d.direction.axis with rfl | rfl
          · exact h1.2.2
          · exact h2.2.2.2

theorem laidOut_iff (hfull : t.Full) (hdata : HasData t) (a : TerminalSize) :
    LaidOut t a ↔ ∀ ax, (span ax t).Roomy (a.cells ax) := by
  induction t generalizing a with
  | empty => exact hfull.elim
  | leaf p =>
    constructor
    · rintro ⟨_, hrows, hcols⟩ (_ | _)
      · exact hcols
      · exact hrows
    · intro h
      exact ⟨trivial, h .y, h .x⟩
  | node l r d ihl ihr =>
    obtain ⟨hd, hdl, hdr⟩ := hdata
    obtain ⟨d, rfl⟩ := Option.isSome_iff_exists.mp hd
    have hl := ihl hfull.1 hdl d.first
    have hr := ihr hfull.2 hdr d.second
    constructor
    · rintro ⟨⟨hfits, hcl, hcr⟩, hpl, hpr⟩ ax
      have hl := hl.mp ⟨hcl, hpl⟩
      have hr := hr.mp ⟨hcr, hpr⟩
      obtain ⟨hsum, hf, hs⟩ := (d.fits_iff a).mp hfits
      rcases axis_eq_or ax d.direction.axis with rfl | rfl
      · simp only [span, decide_true, Span.Roomy]
        exact ⟨hsum, hl _, hr _⟩
      · simp only [span, (Axis.other_ne _).symm, decide_false, Span.Roomy]
        exact ⟨hf, hs, hl _, hr _⟩
    · intro h
      have hcons := (consistent_iff _ a).mpr fun ax => (h ax).fills
      have hchild : ∀ ax, (span ax l).Roomy (d.first.cells ax) ∧
          (span ax r).Roomy (d.second.cells ax) := by
        intro ax
        have h1 := h ax
        rcases axis_eq_or ax d.direction.axis with rfl | rfl
        · simp only [span, decide_true, Span.Roomy] at h1
          exact h1.2
        · simp only [span, (Axis.other_ne _).symm, decide_false, Span.Roomy] at h1
          exact h1.2.2
      exact ⟨hcons, (hl.mpr fun ax => (hchild ax).1).panes,
        (hr.mpr fun ax => (hchild ax).2).panes⟩

theorem collectTreeInvariantErrors_eq_nil_iff (t : PaneTree) (a : TerminalSize)
    (hrange : ∀ ax, (span ax t).Below (2 ^ 63)) :
    collectTreeInvariantErrors t a = [] ↔ Consistent t a := by
  induction t generalizing a with
  | empty => simp [collectTreeInvariantErrors, Consistent]
  | leaf p => simp [collectTreeInvariantErrors, Consistent]
  | node l r d ihl ihr =>
    cases d with
    | none => simp [collectTreeInvariantErrors, Consistent]
    | some d =>
      have hx := hrange .x
      have hy := hrange .y
      simp only [span, Span.Below, TerminalSize.cells_x, TerminalSize.cells_y] at hx hy
      have hl := ihl d.first fun ax => by
        cases ax
        · exact hx.2.2.1
        · exact hy.2.2.1
      have hr := ihr d.second fun ax => by
        cases ax
        · exact hx.2.2.2
        · exact hy.2.2.2
      have hcols : uadd (uadd d.first.cols 1) d.second.cols =
          d.first.cols + 1 + d.second.cols := by
        unfold uadd
        omega
      have hrows : uadd (uadd d.first.rows 1) d.second.rows =
          d.first.rows + 1 + d.second.rows := by
        unfold uadd
        omega
      have hnode : d.invariantErrors a = [] ↔ d.Fits a := by
        unfold SplitDirectionAndSize.invariantErrors SplitDirectionAndSize.Fits
        cases d.direction <;>
          simp only [hcols, hrows, List.append_eq_nil_iff, ite_eq_right_iff,
            List.cons_ne_nil, imp_false, not_not, and_assoc]
      simp only [collectTreeInvariantErrors, Consistent, List.append_eq_nil_iff, hl, hr,
        hnode, and_assoc]

/-! ## The passes of the tab code, axis by axis -/

theorem least_span_node_le {ax : Axis} {l r : PaneTree} {d : SplitDirectionAndSize} :
    (span ax l).least ≤ (span ax (.node l r (some d))).least ∧
      (span ax r).least ≤ (span ax (.node l r (some d))).least := by
  simp only [span]
  cases decide (d.direction.axis = ax) <;> simp only [Span.least] <;> omega

theorem minCells_eq (ax : Axis) (t : PaneTree) (h : (span ax t).least < 2 ^ 64) :
    minCells ax t = (span ax t).least := by
  induction t with
  | empty => cases ax <;> rfl
  | leaf p => cases ax <;> rfl
  | node l r d ihl ihr =>
    cases d with
    | none => cases ax <;> rfl
    | some d =>
      have hle := @least_span_node_le ax l r d
      have hl := ihl (by omega)
      have hr := ihr (by omega)
      cases ax <;> rcases hd : d.direction <;>
        simp_all [minCells, computeMinSize, span, Span.least, SplitDirection.axis, uadd] <;>
        omega

@[simp] theorem SplitDirectionAndSize.direction_reconcile (d : SplitDirectionAndSize)
    (a : TerminalSize) : (d.reconcile a).direction = d.direction := by
  unfold SplitDirectionAndSize.reconcile
  cases d.direction <;> rfl

theorem SplitDirectionAndSize.reconcile_along (d : SplitDirectionAndSize)
    (a : TerminalSize) (hf : d.first.cells d.direction.axis + 2 < 2 ^ 64)
    (ha : a.cells d.direction.axis < 2 ^ 64) :
    let f := if d.first.cells d.direction.axis + 2 > a.cells d.direction.axis then
      a.cells d.direction.axis - 2 else d.first.cells d.direction.axis
    (d.reconcile a).first.cells d.direction.axis = f ∧
      (d.reconcile a).second.cells d.direction.axis = a.cells d.direction.axis - (1 + f) := by
  have hadd : uadd (d.first.cells d.direction.axis) 2 = d.first.cells d.direction.axis + 2 :=
    uadd_of_lt (by omega)
  have hone : ∀ f, f < 2 ^ 64 - 1 → uadd 1 f = 1 + f := fun f hf => uadd_of_lt (by omega)
  unfold SplitDirectionAndSize.reconcile
  cases hd : d.direction <;> simp only [hd, SplitDirection.axis, TerminalSize.cells_x,
      TerminalSize.cells_y] at hf ha hadd ⊢ <;>
    rw [hadd, hone _ (by split_ifs <;> omega)] <;>
    exact ⟨rfl, rfl⟩

theorem SplitDirectionAndSize.reconcile_across (d : SplitDirectionAndSize) (a : TerminalSize) :
    (d.reconcile a).first.cells d.direction.axis.other = a.cells d.direction.axis.other ∧
      (d.reconcile a).second.cells d.direction.axis.other = a.cells d.direction.axis.other := by
  unfold SplitDirectionAndSize.reconcile
  cases d.direction <;> exact ⟨rfl, rfl⟩

theorem skeleton_reconcileTreeSizes (t : PaneTree) (a : TerminalSize) :
    skeleton (reconcileTreeSizes t a) = skeleton t := by
  induction t generalizing a with
  | empty => rfl
  | leaf p => rfl
  | node l r d ihl ihr =>
    cases d with
    | none => rfl
    | some d =>
      unfold skeleton at ihl ihr ⊢
      simp only [reconcileTreeSizes, BinTree.mapData, ihl, ihr, Option.map_some,
        SplitDirectionAndSize.direction_reconcile]

theorem span_reconcileTreeSizes (ax : Axis) (t : PaneTree) (a : TerminalSize)
    (ht : (span ax t).Below (2 ^ 63)) (ha : a.cells ax < 2 ^ 64) :
    span ax (reconcileTreeSizes t a) = (span ax t).squeeze (a.cells ax) := by
  induction t generalizing a with
  | empty => rfl
  | leaf p => rfl
  | node l r d ihl ihr =>
    cases d with
    | none => rfl
    | some d =>
      simp only [span, Span.Below] at ht
      obtain ⟨hf, _, hbl, hbr⟩ := ht
      simp only [reconcileTreeSizes, span, SplitDirectionAndSize.direction_reconcile]
      rcases axis_eq_or ax d.direction.axis with rfl | rfl
      · obtain ⟨h1, h2⟩ := d.reconcile_along a (by omega) ha
        have hlt : (d.reconcile a).first.cells d.direction.axis < 2 ^ 64 := by
          rw [h1]
          split_ifs <;> omega
        rw [ihl _ hbl hlt, ihr _ hbr (by rw [h2]; omega), h1, h2]
        simp only [decide_true, Span.squeeze]
      · obtain ⟨h1, h2⟩ := d.reconcile_across a
        rw [ihl _ hbl (by rw [h1]; exact ha), ihr _ hbr (by rw [h2]; exact ha), h1, h2]
        simp only [(Axis.other_ne _).symm, decide_false, Span.squeeze]

@[simp] theorem SplitDirectionAndSize.direction_applyPaneSize (d : SplitDirectionAndSize)
    (a : TerminalSize) : (d.applyPaneSize a).direction = d.direction := rfl

theorem SplitDirectionAndSize.applyPaneSize_along (d : SplitDirectionAndSize)
    (a : TerminalSize) (hf : d.first.cells d.direction.axis + 1 < 2 ^ 64) :
    (d.applyPaneSize a).first.cells d.direction.axis = d.first.cells d.direction.axis ∧
      (d.applyPaneSize a).second.cells d.direction.axis =
        a.cells d.direction.axis - (1 + d.first.cells d.direction.axis) := by
  have hone : uadd 1 (d.first.cells d.direction.axis) =
      1 + d.first.cells d.direction.axis := uadd_of_lt (by omega)
  unfold SplitDirectionAndSize.applyPaneSize
  cases hd : d.direction <;>
    simp_all [SplitDirection.axis]

theorem SplitDirectionAndSize.applyPaneSize_across (d : SplitDirectionAndSize) (a : TerminalSize) :
    (d.applyPaneSize a).first.cells d.direction.axis.other = a.cells d.direction.axis.other ∧
      (d.applyPaneSize a).second.cells d.direction.axis.other = a.cells d.direction.axis.other := by
  unfold SplitDirectionAndSize.applyPaneSize
  cases hd : d.direction <;> exact ⟨rfl, rfl⟩

end Wakterm.Mux
