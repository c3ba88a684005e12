import Mathlib.Algebra.Ring.Nat
import Wakterm.Term.Cell

/-!
# Lines as runs

`ClusteredLine`: the text of a line as one string, and the attributes as runs of columns.
-/

namespace Wakterm.Term

structure Cluster where
  cellWidth : Nat
  attrs : CellAttributes
  deriving DecidableEq

/-- `ClusteredLine`. The bit set of the double-wide columns is the list of its members. -/
structure ClusteredLine where
  text : Text
  isDoubleWide : List Nat
  clusters : List Cluster
  len : Nat
  lastCellWidth : Option Nat
  deriving DecidableEq

namespace ClusteredLine

def new : ClusteredLine := ⟨[], [], [], 0, none⟩

/-- `ClusterLineCellIter`: the graphemes ahead, the runs ahead, the column, and the columns of the
first run that were passed. -/
def iterFrom (isDoubleWide : List Nat) : List Text → List Cluster → Nat → Nat → List CellRef
  | [], _, _, _ => []
  | _ :: _, [], _, _ => []
  | text :: texts, cluster :: clusters, idx, total =>
    let wide := isDoubleWide.contains idx
    let total := total + cellWidth wide
    ⟨idx, text, wide, cluster.attrs⟩ ::
      if cluster.cellWidth ≤ total then
        iterFrom isDoubleWide texts clusters (idx + cellWidth wide) 0
      else iterFrom isDoubleWide texts (cluster :: clusters) (idx + cellWidth wide) total

def iter (graphemes : Graphemes) (cl : ClusteredLine) : List CellRef :=
  iterFrom cl.isDoubleWide (graphemes cl.text) cl.clusters 0 0

end ClusteredLine

/-- A cell of its own for each column: a wide cell is followed by a blank one. -/
def CellRef.expand (c : CellRef) : List Cell :=
  c.asCell :: if c.wide then [Cell.blankWithAttrs c.attrs] else []

namespace ClusteredLine

def toCellVec (graphemes : Graphemes) (cl : ClusteredLine) : List Cell :=
  (cl.iter graphemes).flatMap CellRef.expand

/-- The runs of `from_cell_vec`, with the one that is still open. -/
def runsFrom : Option Cluster → List CellRef → List Cluster
  | last, [] => last.toList
  | none, c :: cells => runsFrom (some ⟨c.width, c.attrs⟩) cells
  | some cluster, c :: cells =>
    if cluster.attrs = c.attrs then
      runsFrom (some ⟨(cluster.cellWidth + c.width) % 2 ^ 16, cluster.attrs⟩) cells
    else cluster :: runsFrom (some ⟨c.width, c.attrs⟩) cells

/-- `ClusteredLine::from_cell_vec`. The width of the last cell is noted as one. -/
def fromCellVec (cells : List CellRef) : ClusteredLine where
  text := cells.flatMap CellRef.text
  isDoubleWide := (cells.filter CellRef.wide).map CellRef.cellIndex
  clusters := runsFrom none cells
  len := (cells.map CellRef.width).sum
  lastCellWidth := if cells.isEmpty then none else some 1

/-- A cell at the end of the runs: a run of its own if it has other attributes than the last run,
or if that is as long as it can be. -/
def appendRun (clusters : List Cluster) (width : Nat) (attrs : CellAttributes) : List Cluster :=
  match clusters.getLast? with
  | none => [⟨width, attrs⟩]
  | some cluster =>
    if cluster.attrs ≠ attrs ∨ 2 ^ 16 ≤ cluster.cellWidth + width then
      clusters ++ [⟨width, attrs⟩]
    else clusters.dropLast ++ [{ cluster with cellWidth := cluster.cellWidth + width }]

def appendGrapheme (cl : ClusteredLine) (text : Text) (wide : Bool) (attrs : CellAttributes) :
    ClusteredLine where
  text := cl.text ++ text
  isDoubleWide := if wide then cl.isDoubleWide ++ [cl.len] else cl.isDoubleWide
  clusters := appendRun cl.clusters (cellWidth wide) attrs
  len := cl.len + cellWidth wide
  lastCellWidth := some (cellWidth wide)

def append (cl : ClusteredLine) (cell : Cell) : ClusteredLine :=
  cl.appendGrapheme cell.text cell.wide cell.attrs

/-- The loop of `prune_trailing_blanks`, and whether it pruned anything. -/
def pruneLoop : Nat → ClusteredLine → Bool → ClusteredLine × Bool
  | 0, cl, pruned => (cl, pruned)
  | n + 1, cl, pruned =>
    match cl.clusters.getLast? with
    | none => pruneLoop n cl pruned
    | some cluster =>
      if cluster.attrs ≠ .blank then (cl, pruned)
      else
        let clusters := cl.clusters.dropLast
        pruneLoop n
          { cl with
            text := cl.text.dropLast
            clusters :=
              if cluster.cellWidth - 1 = 0 then clusters
              else clusters ++ [{ cluster with cellWidth := cluster.cellWidth - 1 }]
            len := cl.len - 1
            lastCellWidth := none }
          true

def pruneTrailingBlanks (cl : ClusteredLine) : ClusteredLine × Bool :=
  pruneLoop (cl.text.reverse.takeWhile (· = ' ')).length cl false

def computeLastCellWidth (graphemes : Graphemes) (cl : ClusteredLine) : Option Nat :=
  cl.lastCellWidth.or ((cl.iter graphemes).getLast?.map CellRef.width)

/-- `ClusteredLine::set_last_cell_was_wrapped`: the last cell's columns become a run of their
own. -/
def setLastCellWasWrapped (graphemes : Graphemes) (cl : ClusteredLine) (wrapped : Bool) :
    ClusteredLine :=
  let width := cl.computeLastCellWidth graphemes
  let cl := { cl with lastCellWidth := width }
  match width, cl.clusters.getLast? with
  | some width, some last =>
    let attrs := last.attrs.setWrapped wrapped
    { cl with
      clusters :=
        if last.cellWidth = width then cl.clusters.dropLast ++ [{ last with attrs := attrs }]
        else cl.clusters.dropLast ++
          [{ last with cellWidth := last.cellWidth - width }, ⟨width, attrs⟩] }
  | _, _ => cl

end ClusteredLine

end Wakterm.Term
