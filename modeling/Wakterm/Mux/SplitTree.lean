import Wakterm.Bintree.Tree
import Wakterm.Mux.Size

/-!
# Sizes in a split tree

The functions of `mux/src/tab.rs` that read and write the sizes stored in a split tree.
-/

namespace Wakterm.Mux

open Wakterm.Machine Wakterm.Bintree

abbrev PaneId := Nat

abbrev DomainId := Nat

abbrev TabId := Nat

/-- A handle on a pane (`Arc<dyn Pane>`): what the tab code can ask of it
without side effects that never changes. -/
structure Pane where
  paneId : PaneId
  domainId : DomainId
  deriving DecidableEq

abbrev PaneTree := BinTree Pane SplitDirectionAndSize

abbrev PaneCursor := Cursor Pane SplitDirectionAndSize

inductive PaneCall where
  | resize (pane : Pane) (size : TerminalSize)
  | setZoomed (pane : Pane) (zoomed : Bool)
  | focusChanged (pane : Pane) (focused : Bool)
  | sendResizeBatch (pane : Pane) (tabId : TabId) (sizes : List (PaneId × TerminalSize))
  | sendRotatePanes (pane : Pane) (tabId : TabId) (clockwise : Bool)
  deriving DecidableEq

def computeMinSize : PaneTree → Nat × Nat
  | .node left right (some d) =>
    let l := computeMinSize left
    let r := computeMinSize right
    match d.direction with
    | .vertical => (max l.1 r.1, uadd (uadd l.2 r.2) 1)
    | .horizontal => (uadd (uadd l.1 r.1) 1, max l.2 r.2)
  | .node _ _ none => (1, 1)
  | .empty => (1, 1)
  | .leaf _ => (1, 1)

/-- The component of `compute_min_size` for an axis. -/
def minCells (ax : Axis) (t : PaneTree) : Nat :=
  match ax with
  | .x => (computeMinSize t).1
  | .y => (computeMinSize t).2

/-- A child's new number of cells, with the pixels that go with it. -/
def TerminalSize.withCells (s : TerminalSize) (ax : Axis) (n : Nat)
    (cell : TerminalSize) : TerminalSize :=
  s.setSpan ax n (usatMul n (cell.pixels ax))

/-- The branch of `adjust_*_size` for a split across the axis: both children
change alike, not below the node's minimum. -/
def adjustAcross (adjust : PaneTree → Int → PaneTree) (ax : Axis) (cell : TerminalSize)
    (least : Nat) (left right : PaneTree) (d : SplitDirectionAndSize) (amount : Int) :
    PaneTree :=
  let newCells := max (isat (asIsize (d.first.cells ax) + amount)) (asIsize least)
  let amount := isat (newCells - asIsize (d.first.cells ax))
  if amount = 0 then .node left right (some d)
  else
    let first := d.first.withCells ax newCells.toNat cell
    let second := d.second.setSpan ax (first.cells ax) (first.pixels ax)
    .node (adjust left amount) (adjust right amount)
      (some { d with first := first, second := second })

/-- The `while` loop of `adjust_*_size` for a split along the axis: one cell to
or from each child in turn, until nothing is left or neither child gives. -/
def adjustAlong (adjust : PaneTree → Int → PaneTree) (ax : Axis) (cell : TerminalSize) :
    Nat → PaneTree → PaneTree → SplitDirectionAndSize → Int → PaneTree
  | 0, left, right, d, _ => .node left right (some d)
  | fuel + 1, left, right, d, amount =>
    if amount = 0 then .node left right (some d)
    else
      let first := { d.first with dpi := cell.dpi }
      let second := { d.second with dpi := cell.dpi }
      if 0 < amount then
        let left := adjust left 1
        let first := first.withCells ax (uadd (first.cells ax) 1) cell
        if 0 < amount - 1 then
          let right := adjust right 1
          let second := second.withCells ax (uadd (second.cells ax) 1) cell
          adjustAlong adjust ax cell fuel left right
            { d with first := first, second := second } (amount - 1 - 1)
        else
          adjustAlong adjust ax cell fuel left right
            { d with first := first, second := second } (amount - 1)
      else if 1 < first.cells ax then
        let left := adjust left (-1)
        let first := first.withCells ax (first.cells ax - 1) cell
        if amount + 1 < 0 ∧ 1 < second.cells ax then
          let right := adjust right (-1)
          let second := second.withCells ax (second.cells ax - 1) cell
          adjustAlong adjust ax cell fuel left right
            { d with first := first, second := second } (amount + 1 + 1)
        else
          adjustAlong adjust ax cell fuel left right
            { d with first := first, second := second } (amount + 1)
      else if 1 < second.cells ax then
        let right := adjust right (-1)
        let second := second.withCells ax (second.cells ax - 1) cell
        adjustAlong adjust ax cell fuel left right
          { d with first := first, second := second } (amount + 1)
      else
        -- neither child made progress
        .node left right (some { d with first := first, second := second })

/-- `adjust_x_size` and `adjust_y_size` with a bound for the height. -/
def adjustSizeAux (ax : Axis) (cell : TerminalSize) : Nat → PaneTree → Int → PaneTree
  | 0, t, _ => t
  | fuel + 1, t, amount =>
    match t with
    | .node left right (some d) =>
      if amount = 0 then t
      else if d.direction.axis = ax then
        adjustAlong (adjustSizeAux ax cell fuel) ax cell amount.natAbs left right d amount
      else
        adjustAcross (adjustSizeAux ax cell fuel) ax cell (minCells ax t) left right
          { d with
            first := { d.first with dpi := cell.dpi }
            second := { d.second with dpi := cell.dpi } } amount
    | t => t

/-- `adjust_x_size` or `adjust_y_size`. -/
def adjustSize (ax : Axis) (t : PaneTree) (amount : Int) (cell : TerminalSize) : PaneTree :=
  adjustSizeAux ax cell t.height t amount

def adjustXSize : PaneTree → Int → TerminalSize → PaneTree := adjustSize .x

def adjustYSize : PaneTree → Int → TerminalSize → PaneTree := adjustSize .y

/-- `collect_pane_sizes`: what is pushed for the subtree. -/
def collectPaneSizes : PaneTree → TerminalSize → List (PaneId × TerminalSize)
  | .node left right (some d), _ =>
    collectPaneSizes left d.first ++ collectPaneSizes right d.second
  | .leaf pane, size => [(pane.paneId, size)]
  | .node _ _ none, _ => []
  | .empty, _ => []

/-- `apply_sizes_from_splits`: the calls made on the leaves. -/
def applySizesFromSplits : PaneTree → TerminalSize → List PaneCall
  | .node left right (some d), _ =>
    applySizesFromSplits left d.first ++ applySizesFromSplits right d.second
  | .leaf pane, size => [.resize pane size]
  | .node _ _ none, _ => []
  | .empty, _ => []

/-- The body of `reconcile_tree_sizes` at one node. -/
def SplitDirectionAndSize.reconcile (d : SplitDirectionAndSize)
    (allocated : TerminalSize) : SplitDirectionAndSize :=
  let cellWidth := checkedDivOrOne allocated.pixelWidth allocated.cols
  let cellHeight := checkedDivOrOne allocated.pixelHeight allocated.rows
  match d.direction with
  | .horizontal =>
    let firstCols :=
      if uadd d.first.cols 2 > allocated.cols then allocated.cols - 2 else d.first.cols
    let secondCols := allocated.cols - uadd 1 firstCols
    { d with
      first :=
        { rows := allocated.rows
          cols := firstCols
          pixelWidth := umul firstCols cellWidth
          pixelHeight := umul allocated.rows cellHeight
          dpi := allocated.dpi }
      second :=
        { rows := allocated.rows
          cols := secondCols
          pixelWidth := umul secondCols cellWidth
          pixelHeight := umul allocated.rows cellHeight
          dpi := allocated.dpi } }
  | .vertical =>
    let firstRows :=
      if uadd d.first.rows 2 > allocated.rows then allocated.rows - 2 else d.first.rows
    let secondRows := allocated.rows - uadd 1 firstRows
    { d with
      first :=
        { rows := firstRows
          cols := allocated.cols
          pixelWidth := umul allocated.cols cellWidth
          pixelHeight := umul firstRows cellHeight
          dpi := allocated.dpi }
      second :=
        { rows := secondRows
          cols := allocated.cols
          pixelWidth := umul allocated.cols cellWidth
          pixelHeight := umul secondRows cellHeight
          dpi := allocated.dpi } }

def reconcileTreeSizes : PaneTree → TerminalSize → PaneTree
  | .node left right (some d), allocated =>
    .node (reconcileTreeSizes left (d.reconcile allocated).first)
      (reconcileTreeSizes right (d.reconcile allocated).second)
      (some (d.reconcile allocated))
  | .node left right none, _ => .node left right none
  | .empty, _ => .empty
  | .leaf pane, _ => .leaf pane

/-- The body of `TabInner::apply_pane_size` on a node that has data: the first
child keeps its size along the split's axis. -/
def SplitDirectionAndSize.applyPaneSize (d : SplitDirectionAndSize)
    (paneSize : TerminalSize) : SplitDirectionAndSize :=
  let cellWidth := checkedDivOrOne paneSize.pixelWidth paneSize.cols
  let cellHeight := checkedDivOrOne paneSize.pixelHeight paneSize.rows
  let (first, second) :=
    if d.direction = .horizontal then
      ({ d.first with rows := paneSize.rows },
        { d.second with
          rows := paneSize.rows
          cols := paneSize.cols - uadd 1 d.first.cols })
    else
      ({ d.first with cols := paneSize.cols },
        { d.second with
          cols := paneSize.cols
          rows := paneSize.rows - uadd 1 d.first.rows })
  { d with
    first :=
      { first with
        pixelWidth := umul first.cols cellWidth
        pixelHeight := umul first.rows cellHeight }
    second :=
      { second with
        pixelWidth := umul second.cols cellWidth
        pixelHeight := umul second.rows cellHeight } }

/-- The complaints of `collect_tree_invariant_errors` about one node. -/
def SplitDirectionAndSize.invariantErrors (d : SplitDirectionAndSize)
    (allocated : TerminalSize) : List String :=
  match d.direction with
  | .horizontal =>
    let f := d.first.rows
    let s := d.second.rows
    let a := allocated.rows
    let fc := d.first.cols
    let sc := d.second.cols
    let ac := allocated.cols
    let total := uadd (uadd fc 1) sc
    (if f ≠ a then [s!"H first.rows={f} != {a}"] else []) ++
    (if s ≠ a then [s!"H second.rows={s} != {a}"] else []) ++
    (if total ≠ ac then [s!"H cols {fc}+1+{sc}={total} != {ac}"] else [])
  | .vertical =>
    let f := d.first.cols
    let s := d.second.cols
    let a := allocated.cols
    let fr := d.first.rows
    let sr := d.second.rows
    let ar := allocated.rows
    let total := uadd (uadd fr 1) sr
    (if f ≠ a then [s!"V first.cols={f} != {a}"] else []) ++
    (if s ≠ a then [s!"V second.cols={s} != {a}"] else []) ++
    (if total ≠ ar then [s!"V rows {fr}+1+{sr}={total} != {ar}"] else [])

def collectTreeInvariantErrors : PaneTree → TerminalSize → List String
  | .node left right (some d), allocated =>
    d.invariantErrors allocated ++ collectTreeInvariantErrors left d.first ++
      collectTreeInvariantErrors right d.second
  | .node _ _ none, _ => []
  | .empty, _ => []
  | .leaf _, _ => []

/-- A tree is consistent with an allocation when the children of every node
fill what the node was given. -/
def Consistent : PaneTree → TerminalSize → Prop
  | .node left right (some d), allocated =>
    d.Fits allocated ∧ Consistent left d.first ∧ Consistent right d.second
  | .node _ _ none, _ => True
  | .empty, _ => True
  | .leaf _, _ => True

/-- Every pane is allocated at least one row and one column. -/
def PanesNonempty : PaneTree → TerminalSize → Prop
  | .node left right (some d), _ =>
    PanesNonempty left d.first ∧ PanesNonempty right d.second
  | .leaf _, size => 1 ≤ size.rows ∧ 1 ≤ size.cols
  | .node _ _ none, _ => True
  | .empty, _ => True

/-- Every node carries its split data. -/
def HasData : PaneTree → Prop
  | .node left right d => d.isSome ∧ HasData left ∧ HasData right
  | .empty => True
  | .leaf _ => True

instance decidableConsistent :
    (t : PaneTree) → (size : TerminalSize) → Decidable (Consistent t size)
  | .node left right (some d), _ =>
    haveI := decidableConsistent left d.first
    haveI := decidableConsistent right d.second
    inferInstanceAs (Decidable (_ ∧ _ ∧ _))
  | .node _ _ none, _ => isTrue trivial
  | .empty, _ => isTrue trivial
  | .leaf _, _ => isTrue trivial

instance decidablePanesNonempty :
    (t : PaneTree) → (size : TerminalSize) → Decidable (PanesNonempty t size)
  | .node left right (some d), _ =>
    haveI := decidablePanesNonempty left d.first
    haveI := decidablePanesNonempty right d.second
    inferInstanceAs (Decidable (_ ∧ _))
  | .node _ _ none, _ => isTrue trivial
  | .empty, _ => isTrue trivial
  | .leaf _, size => inferInstanceAs (Decidable (1 ≤ size.rows ∧ 1 ≤ size.cols))

instance decidableHasData : (t : PaneTree) → Decidable (HasData t)
  | .node left right d =>
    haveI := decidableHasData left
    haveI := decidableHasData right
    inferInstanceAs (Decidable (d.isSome ∧ _ ∧ _))
  | .empty => isTrue trivial
  | .leaf _ => isTrue trivial

end Wakterm.Mux
