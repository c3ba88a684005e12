import Wakterm.Term.ClusteredLine

/-!
# Lines of the terminal

`Line` of `wakterm-surface`: its cells in one of two forms of storage, a cell for each column or
runs, the number of its last change, and its bits.
-/

namespace Wakterm.Term

/-- What a panic is about: a row or a column out of range, a tab stop, or a number below zero. -/
inductive Panic where
  | row | column | tabStop | arithmetic
  deriving DecidableEq

inductive CellStorage where
  | V (cells : List Cell)
  | C (cl : ClusteredLine)
  deriving DecidableEq

structure LineBits where
  hasHyperlink : Bool
  scannedImplicitHyperlinks : Bool
  hasImplicitHyperlinks : Bool
  doubleWidth : Bool
  doubleHeightTop : Bool
  doubleHeightBottom : Bool
  bidiEnabled : Bool
  rtl : Bool
  autoDetectDirection : Bool
  deriving DecidableEq

def LineBits.none : LineBits := ⟨false, false, false, false, false, false, false, false, false⟩

inductive ParagraphDirectionHint where
  | leftToRight | rightToLeft | autoLeftToRight | autoRightToLeft
  deriving DecidableEq

structure BidiMode where
  enabled : Bool
  hint : ParagraphDirectionHint
  deriving DecidableEq

structure Line where
  cells : CellStorage
  seqno : Nat
  bits : LineBits
  deriving DecidableEq

/-- `Vec::resize_with(width, Cell::blank)`. -/
def resizeCells (cells : List Cell) (width : Nat) : List Cell :=
  cells.take width ++ List.replicate (width - cells.length) Cell.blank

/-- `VecStorageIter`: the cells, without those that a wide cell before them covers. -/
def visibleFrom : Bool → Nat → List Cell → List CellRef
  | _, _, [] => []
  | true, idx, _ :: cells => visibleFrom false (idx + 1) cells
  | false, idx, cell :: cells =>
    ⟨idx, cell.text, cell.wide, cell.attrs⟩ :: visibleFrom cell.wide (idx + 1) cells

/-- `VecStorage::set_cell`. Images with a placement stay, unless they are to be cleared. -/
def setVec (cells : List Cell) (idx : Nat) (cell : Cell) (clear : Bool) : List Cell :=
  let images := if clear then [] else
    ((cells[idx]?.map fun old => old.attrs.images).getD []).filter fun im => im.placementId.isSome
  cells.set idx { cell with attrs := images.foldl CellAttributes.attachImage cell.attrs }

/-- The body of `invalidate_grapheme_at_or_before`: a wide cell in front is blanked out. -/
def invalidateVec (cells : List Cell) (idx : Nat) : List Cell :=
  match idx with
  | 0 => cells
  | prior + 1 =>
    match cells[prior]? with
    | some cell =>
      if cell.wide then
        (cells.set prior (.blankWithAttrs cell.attrs)).set (prior + 1) (.blankWithAttrs cell.attrs)
      else cells
    | none => cells

namespace Line

def new (seqno : Nat) : Line := ⟨.C .new, seqno, .none⟩

def withWidthAndCell (width : Nat) (cell : Cell) (seqno : Nat) : Line :=
  ⟨.V (List.replicate width cell), seqno, .none⟩

def updateLastChangeSeqno (line : Line) (seqno : Nat) : Line :=
  { line with seqno := max line.seqno seqno }

def changedSince (line : Line) (seqno : Nat) : Bool := line.seqno = 0 || seqno < line.seqno

def setSingleWidth (line : Line) (seqno : Nat) : Line :=
  { line with bits := { line.bits with
      doubleWidth := false, doubleHeightTop := false, doubleHeightBottom := false } }
    |>.updateLastChangeSeqno seqno

def setBidiInfo (line : Line) (enabled : Bool) (direction : ParagraphDirectionHint) (seqno : Nat) :
    Line :=
  let (auto, rtl) := match direction with
    | .autoRightToLeft => (true, true)
    | .autoLeftToRight => (true, false)
    | .leftToRight => (false, false)
    | .rightToLeft => (false, true)
  { line with bits := { line.bits with
      bidiEnabled := enabled, autoDetectDirection := auto, rtl := rtl } }
    |>.updateLastChangeSeqno seqno

end Line

def BidiMode.applyToLine (mode : BidiMode) (line : Line) (seqno : Nat) : Line :=
  line.setBidiInfo mode.enabled mode.hint seqno

namespace Line

def len (line : Line) : Nat :=
  match line.cells with
  | .V cells => cells.length
  | .C cl => cl.len

section Cells

variable (graphemes : Graphemes)

def visibleCells (line : Line) : List CellRef :=
  match line.cells with
  | .V cells => visibleFrom false 0 cells
  | .C cl => cl.iter graphemes

/-- `coerce_vec_storage`: the cells, made from the runs if need be. -/
def vec (line : Line) : List Cell :=
  match line.cells with
  | .V cells => cells
  | .C cl => cl.toCellVec graphemes

/-- The line with these cells. -/
def setCells (line : Line) (cells : List Cell) : Line := { line with cells := .V cells }

def compressForScrollback (line : Line) : Line :=
  match line.cells with
  | .V cells => { line with cells := .C (.fromCellVec (visibleFrom false 0 cells)) }
  | .C _ => line

def isWhitespace (line : Line) : Bool := (line.visibleCells graphemes).all fun c => c.text = space

def lastCellWasWrapped (line : Line) : Bool :=
  ((line.visibleCells graphemes).getLast?.map fun c => c.attrs.wrapped).getD false

/-- `Line::set_last_cell_was_wrapped`. A line of runs that is empty gets its first blank. -/
def setLastCellWasWrapped (line : Line) (wrapped : Bool) (seqno : Nat) : Line :=
  let line := line.updateLastChangeSeqno seqno
  match line.cells with
  | .C cl =>
    let cl := if cl.len = 0 then cl.append .blank else cl
    { line with cells := .C (cl.setLastCellWasWrapped graphemes wrapped) }
  | .V cells =>
    match cells.getLast? with
    | none => line
    | some cell => line.setCells (cells.dropLast ++ [cell.setWrapped wrapped])

/-- The body of `invalidate_implicit_hyperlinks_impl`: the text is measured again. -/
def clearImplicit (cells : List Cell) : List Cell :=
  cells.map fun cell =>
    if cell.attrs.hyperlink.any Hyperlink.implicit then
      .newGrapheme graphemes cell.text { cell.attrs with hyperlink := none }
    else cell

def invalidateImplicitHyperlinks (line : Line) (seqno : Nat) : Line :=
  if !line.bits.scannedImplicitHyperlinks && !line.bits.hasImplicitHyperlinks then line
  else
    let line := { line with bits := { line.bits with scannedImplicitHyperlinks := false } }
    if !line.bits.hasImplicitHyperlinks then line
    else
      { line.setCells (clearImplicit graphemes (line.vec graphemes)) with
          bits := { line.bits with hasImplicitHyperlinks := false } }
        |>.updateLastChangeSeqno seqno

def resize (line : Line) (width seqno : Nat) : Line :=
  line.setCells (resizeCells (line.vec graphemes) width) |>.updateLastChangeSeqno seqno

def resizeAndClear (line : Line) (width seqno : Nat) (blankAttr : CellAttributes) : Line :=
  { line.setCells (List.replicate width (.blankWithAttrs blankAttr)) with bits := .none }
    |>.updateLastChangeSeqno seqno

/-- Implied blanks, until a cell can be appended at `idx`. -/
def fillOut (cl : ClusteredLine) (idx : Nat) : ClusteredLine :=
  (List.replicate (idx - cl.len) ()).foldl (fun cl _ => cl.appendGrapheme space false .blank) cl

/-- The cells of `set_cell_impl`, once the line is wide enough: what the new cell touches of a
wide cell is blanked out, and so are the columns that it covers. -/
def setCellVec (cells : List Cell) (idx : Nat) (cell : Cell) (clear : Bool) : List Cell :=
  let cells := if cells.length < idx + cell.width then resizeCells cells (idx + cell.width) else cells
  let cells := invalidateVec cells idx
  let cells :=
    if cell.wide then setVec cells (idx + 1) (.blankWithAttrs cell.attrs) clear else cells
  setVec cells idx cell clear

def setCellImpl (line : Line) (idx : Nat) (cell : Cell) (clear : Bool) (seqno : Nat) : Line :=
  let line := (line.invalidateImplicitHyperlinks graphemes seqno).updateLastChangeSeqno seqno
  let line := { line with bits := { line.bits with
    hasHyperlink := line.bits.hasHyperlink || cell.attrs.hyperlink.isSome } }
  match line.cells with
  | .V cells => line.setCells (setCellVec cells idx cell clear)
  | .C cl =>
    if cl.len < idx ∧ cell.isBlank then line
    else
      let cl := fillOut cl idx
      if idx = cl.len then { line with cells := .C (cl.append cell) }
      else line.setCells (setCellVec (cl.toCellVec graphemes) idx cell clear)

def setCell (line : Line) (idx : Nat) (cell : Cell) (seqno : Nat) : Line :=
  line.setCellImpl graphemes idx cell false seqno

def setCellGrapheme (line : Line) (idx : Nat) (text : Text) (wide : Bool) (attr : CellAttributes)
    (seqno : Nat) : Line :=
  let line := { line with bits := { line.bits with
    hasHyperlink := line.bits.hasHyperlink || attr.hyperlink.isSome } }
  match line.cells with
  | .V _ => line.setCell graphemes idx (.newGraphemeWithWidth text wide attr) seqno
  | .C cl =>
    if cl.len < idx ∧ text = space ∧ attr = .blank then line
    else
      let cl := fillOut cl idx
      if idx = cl.len then
        ({ line with cells := .C (cl.appendGrapheme text wide attr) }
          |>.invalidateImplicitHyperlinks graphemes seqno).updateLastChangeSeqno seqno
      else { line with cells := .C cl }
        |>.setCell graphemes idx (.newGraphemeWithWidth text wide attr) seqno

def insertCell (line : Line) (x : Nat) (cell : Cell) (rightMargin seqno : Nat) :
    Except Panic Line :=
  let line := line.invalidateImplicitHyperlinks graphemes seqno
  let cells := line.vec graphemes
  if rightMargin = 0 then .error .arithmetic
  else
    let cells := if rightMargin ≤ cells.length then cells.eraseIdx (rightMargin - 1) else cells
    let cells := if cells.length ≤ x then resizeCells cells x else cells
    let cells := if cell.wide then cells.insertIdx x (.blankWithAttrs cell.attrs) else cells
    .ok (line.setCells (cells.insertIdx x cell) |>.updateLastChangeSeqno seqno)

def eraseCell (line : Line) (x seqno : Nat) : Except Panic Line :=
  if line.len ≤ x then .ok line
  else
    let line := line.invalidateImplicitHyperlinks graphemes seqno
    let cells := invalidateVec (line.vec graphemes) x
    if cells.length ≤ x then .error .column
    else .ok (line.setCells (cells.eraseIdx x ++ [.blank]) |>.updateLastChangeSeqno seqno)

def removeCell (line : Line) (x seqno : Nat) : Except Panic Line :=
  if line.len ≤ x then .ok line
  else
    let line := line.invalidateImplicitHyperlinks graphemes seqno
    let cells := invalidateVec (line.vec graphemes) x
    if cells.length ≤ x then .error .column
    else .ok (line.setCells (cells.eraseIdx x) |>.updateLastChangeSeqno seqno)

def eraseCellWithMargin (line : Line) (x rightMargin seqno : Nat) (blankAttr : CellAttributes) :
    Except Panic Line :=
  let line := line.invalidateImplicitHyperlinks graphemes seqno
  let erased : Except Panic Line :=
    if x < line.len then
      let cells := invalidateVec (line.vec graphemes) x
      if cells.length ≤ x then .error .column else .ok (line.setCells (cells.eraseIdx x))
    else .ok line
  match erased with
  | .error panic => .error panic
  | .ok line =>
    if rightMargin ≤ line.len + 1 then
      if rightMargin = 0 then .error .arithmetic
      else .ok (line.setCells ((line.vec graphemes).insertIdx (rightMargin - 1)
        (.blankWithAttrs blankAttr)) |>.updateLastChangeSeqno seqno)
    else .ok (line.updateLastChangeSeqno seqno)

end Cells

/-- The columns up to the last that is no blank. -/
def pruneVec (cells : List Cell) : List Cell :=
  (cells.reverse.dropWhile Cell.isBlank).reverse

/-- `Line::prune_trailing_blanks`. A line of cells that are all blank stays as it is. -/
def pruneTrailingBlanks (line : Line) (seqno : Nat) : Line :=
  match line.cells with
  | .C cl =>
    let (cl, pruned) := cl.pruneTrailingBlanks
    if pruned then { line with cells := .C cl }.updateLastChangeSeqno seqno
    else { line with cells := .C cl }
  | .V cells =>
    if cells.all Cell.isBlank then line
    else line.setCells (pruneVec cells) |>.updateLastChangeSeqno seqno

section Cells

variable (graphemes : Graphemes)

def fillRange (line : Line) (start stop : Nat) (cell : Cell) (seqno : Nat) : Line :=
  if line.len = 0 ∧ cell.isBlank then line
  else
    ((List.range' start (stop - start)).foldl
        (fun line x => line.setCellImpl graphemes x cell true seqno) line).pruneTrailingBlanks seqno

def appendLine (line other : Line) (seqno : Nat) : Line :=
  let others := other.visibleCells graphemes
  match line.cells with
  | .V cells => line.setCells (cells ++ others.flatMap CellRef.expand) |>.updateLastChangeSeqno seqno
  | .C cl =>
    { line with cells := .C (others.foldl (fun cl other => cl.append (CellRef.asCell other)) cl) }
      |>.updateLastChangeSeqno seqno

/-- One cell of `wrap`: the lines before the last, the last line, and the column it begins at. -/
def wrapCell (width seqno : Nat) : List Line × Option (Line × Nat) → CellRef →
    List Line × Option (Line × Nat)
  | (lines, last), cell =>
    let place := fun (line : Line) (delta : Nat) =>
      line.setCellGrapheme graphemes (cell.cellIndex - delta) cell.text cell.wide cell.attrs seqno
    match last with
    | none => (lines, some (place (.new seqno) cell.cellIndex, cell.cellIndex))
    | some (line, delta) =>
      if width < line.len + cell.width then
        (lines ++ [line.setLastCellWasWrapped graphemes true seqno],
          some (place (.new seqno) cell.cellIndex, cell.cellIndex))
      else (lines, some (place line delta, delta))

def wrap (line : Line) (width seqno : Nat) : List Line :=
  let cells := ((line.visibleCells graphemes).reverse.dropWhile fun c => c.text = space).reverse
  if cells.isEmpty then [line]
  else
    let (lines, last) := cells.foldl (wrapCell graphemes width seqno) ([], none)
    lines ++ (last.map Prod.fst).toList

end Cells

end Line

end Wakterm.Term
