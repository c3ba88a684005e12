import Wakterm.Rangeset.RangeSet
import Wakterm.Term.Line

/-!
# Lines on the wire

`SerializedLines` of `codec/src/lib.rs`. Cells share their hyperlinks through `Arc`s, and the bytes
of an image are not to be sent with every cell.
-/

namespace Wakterm.Term

/-- `attrs_mut().set_hyperlink`. -/
def Cell.setHyperlink (c : Cell) (link : Option Hyperlink) : Cell :=
  { c with attrs := { c.attrs with hyperlink := link } }

/-- `attrs_mut().clear_images`. -/
def Cell.clearImages (c : Cell) : Cell := { c with attrs := { c.attrs with images := [] } }

end Wakterm.Term

namespace Wakterm.Codec

open Wakterm.Rangeset Wakterm.Term

structure CellCoordinates where
  lineIdx : Nat
  cols : Range Nat

structure LineHyperlink where
  link : Hyperlink
  coords : List CellCoordinates

/-- `TextureCoordinate`, two floating-point numbers, as their bits. -/
structure TextureCoordinate where
  x : UInt32
  y : UInt32

/-- What `ImageCell` is asked for about the part of the image that it shows. -/
structure ImagePart where
  topLeft : TextureCoordinate
  bottomRight : TextureCoordinate
  dataHash : List UInt8
  paddingLeft : UInt16
  paddingTop : UInt16
  paddingRight : UInt16
  paddingBottom : UInt16

structure SerializedImageCell where
  lineIdx : Int
  cellIdx : Nat
  part : ImagePart
  zIndex : Int
  imageId : Option Nat
  placementId : Option Nat

structure SerializedLines where
  lines : List (Int × Line)
  hyperlinks : List LineHyperlink
  images : List SerializedImageCell

/-- The link of the cell at a column of a line. -/
def linkAt (graphemes : Graphemes) (lines : List (Int × Line)) (i x : Nat) :
    Option Hyperlink :=
  (lines[i]?.bind fun p => (p.2.vec graphemes)[x]?).bind fun c => c.attrs.hyperlink

/-- Where the hyperlinks of the cells are. In one place there is one hyperlink. -/
structure Arcs (graphemes : Graphemes) (lines : List (Int × Line)) where
  address : Nat → Nat → Nat
  one_link : ∀ i x j y l l', linkAt graphemes lines i x = some l →
    linkAt graphemes lines j y = some l' → address i x = address j y → l = l'

/-- The links of all cells, where there are any. -/
def linksOf (graphemes : Graphemes) (lines : List (Int × Line)) : List (Option Hyperlink) :=
  lines.flatMap fun p => (p.2.vec graphemes).map fun c => c.attrs.hyperlink

theorem linkAt_mem_linksOf {graphemes : Graphemes} {lines : List (Int × Line)} {i x : Nat}
    {l : Hyperlink} (h : linkAt graphemes lines i x = some l) :
    some l ∈ linksOf graphemes lines := by
  obtain ⟨c, hc, hlink⟩ := Option.bind_eq_some_iff.mp h
  obtain ⟨p, hp, hcell⟩ := Option.bind_eq_some_iff.mp hc
  refine List.mem_flatMap.mpr ⟨p, List.mem_of_getElem? hp, List.mem_map.mpr ⟨c, ?_, hlink⟩⟩
  exact List.mem_of_getElem? hcell

/-- Each link is in one place. -/
def Arcs.interned (graphemes : Graphemes) (lines : List (Int × Line)) : Arcs graphemes lines where
  address := fun i x => (linksOf graphemes lines).idxOf (linkAt graphemes lines i x)
  one_link := by
    intro i x j y l l' hl hl' hsame
    rw [hl, hl', List.idxOf_inj (linkAt_mem_linksOf hl)] at hsame
    exact Option.some.inj hsame

section

variable (graphemes : Graphemes) (part : Nat → ImagePart) (address : Nat → Nat → Nat)

/-- The entry for an image of the cell at `cellIdx`. -/
def SerializedImageCell.of (row : Int) (cellIdx : Nat) (im : ImageCell) : SerializedImageCell where
  lineIdx := row
  cellIdx := cellIdx
  part := part im.image
  zIndex := im.zIndex
  imageId := im.imageId
  placementId := im.placementId

/-- The variables of the loops of `SerializedLines::from`. A current link is its address and what
is there. -/
structure Scan where
  currentLink : Option (Nat × Hyperlink)
  currentRange : Range Nat
  hyperlinks : List LineHyperlink
  images : List SerializedImageCell

/-- `hyperlinks.push`, for the columns of the current streak. -/
def Scan.push (s : Scan) (lineIdx : Nat) (link : Hyperlink) : Scan :=
  { s with hyperlinks := s.hyperlinks ++ [⟨link, [⟨lineIdx, s.currentRange⟩]⟩] }

/-- The first half of the loop over the cells: the link of the cell, and the cell without it. -/
def Scan.link (lineIdx : Nat) (s : Scan) (x : Nat) (cell : Cell) : Scan × Cell :=
  match cell.attrs.hyperlink with
  | some link =>
    let cell := cell.setHyperlink none
    match s.currentLink with
    | some current =>
      if current.1 = address lineIdx x then
        -- continue the current streak
        ({ s with currentRange := rangeUnion s.currentRange ⟨x, x + 1⟩ }, cell)
      else
        -- another link: push the current data and start a new streak
        ({ s.push lineIdx current.2 with
            currentRange := ⟨x, x + 1⟩
            currentLink := some (address lineIdx x, link) }, cell)
    | none =>
      ({ s with
          currentRange := ⟨x, x + 1⟩
          currentLink := some (address lineIdx x, link) }, cell)
  | none =>
    match s.currentLink with
    | some current =>
      ({ s.push lineIdx current.2 with currentLink := none, currentRange := ⟨0, 0⟩ }, cell)
    | none => (s, cell)

/-- The body of the loop over the cells. -/
def Scan.cell (lineIdx : Nat) (row : Int) (s : Scan) (x : Nat) (cell : Cell) : Scan × Cell :=
  let (s, cell) := s.link address lineIdx x cell
  ({ s with images := s.images ++ cell.attrs.images.map (SerializedImageCell.of part row x) },
    cell.clearImages)

/-- The loop over the cells of a line, from column `x` on. -/
def Scan.cells (lineIdx : Nat) (row : Int) : Nat → List Cell → Scan → Scan × List Cell
  | _, [], s => (s, [])
  | x, cell :: cells, s =>
    let (s, cell) := s.cell part address lineIdx row x cell
    let (s, cells) := Scan.cells lineIdx row (x + 1) cells s
    (s, cell :: cells)

/-- The body of the loop over the lines. -/
def Scan.line (lineIdx : Nat) (row : Int) (line : Line) (s : Scan) : Scan × Line :=
  let s := { s with currentLink := none, currentRange := ⟨0, 0⟩ }
  let (s, cells) := Scan.cells part address lineIdx row 0 (line.vec graphemes) s
  let s :=
    match s.currentLink with
    | some current => { s.push lineIdx current.2 with currentLink := none }
    | none => s
  (s, line.setCells cells)

/-- The loop over the lines, from the one numbered `lineIdx` on. -/
def Scan.lines : Nat → List (Int × Line) → Scan → Scan × List (Int × Line)
  | _, [], s => (s, [])
  | lineIdx, (row, line) :: lines, s =>
    let (s, line) := s.line graphemes part address lineIdx row line
    let (s, lines) := Scan.lines (lineIdx + 1) lines s
    (s, (row, line) :: lines)

/-- `SerializedLines::from`. -/
def SerializedLines.fromLines (lines : List (Int × Line)) (arcs : Arcs graphemes lines) :
    SerializedLines :=
  let (s, lines) := Scan.lines graphemes part arcs.address 0 lines ⟨none, ⟨0, 0⟩, [], []⟩
  { lines := lines, hyperlinks := s.hyperlinks, images := s.images }

end

section

variable (graphemes : Graphemes)

/-- The loop over the cells that `get_mut(cols)` gives: none where the range is not one of the
slice. -/
def setRange (url : Hyperlink) (cols : Range Nat) (cells : List Cell) : List Cell :=
  if cols.start ≤ cols.stop ∧ cols.stop ≤ cells.length then
    cells.mapIdx fun x cell => if cols.contains x then cell.setHyperlink (some url) else cell
  else cells

/-- The body of the loop over the coordinates of a link. -/
def setLinks (url : Hyperlink) (lines : List (Int × Line)) (coord : CellCoordinates) :
    List (Int × Line) :=
  match lines[coord.lineIdx]? with
  | some (row, line) =>
    lines.set coord.lineIdx
      (row, line.setCells (setRange url coord.cols (line.vec graphemes)))
  | none => lines

def SerializedLines.extractData (s : SerializedLines) :
    List (Int × Line) × List SerializedImageCell :=
  let lines :=
    if s.hyperlinks.isEmpty then s.lines
    else s.hyperlinks.foldl (fun lines link => link.coords.foldl (setLinks graphemes link.link) lines)
      s.lines
  (lines, s.images)

end

end Wakterm.Codec
