import Wakterm.Machine.Loop
import Wakterm.Term.Line

/-!
# Screens

`Screen` of `term/src/screen.rs`: the lines of the scrollback and the viewport.
-/

namespace Wakterm.Term

open Wakterm.Machine

/-- A `Range`. -/
structure Span (α : Type) where
  start : α
  stop : α
  deriving DecidableEq

/-- `Screen`, with the number of lines that its configuration allows for the scrollback. -/
structure Screen where
  lines : List Line
  stableRowIndexOffset : Nat
  configuredScrollback : Nat
  allowScrollback : Bool
  physicalRows : Nat
  physicalCols : Nat
  dpi : Nat
  deriving DecidableEq

structure TerminalSize where
  rows : Nat
  cols : Nat
  dpi : Nat

structure CursorPosition where
  x : Nat
  y : Int
  deriving DecidableEq

namespace Screen

def new (size : TerminalSize) (configuredScrollback : Nat) (allowScrollback : Bool) (seqno : Nat)
    (bidiMode : BidiMode) : Screen where
  lines := List.replicate (max size.rows 1) (bidiMode.applyToLine (.new seqno) seqno)
  stableRowIndexOffset := 0
  configuredScrollback := configuredScrollback
  allowScrollback := allowScrollback
  physicalRows := max size.rows 1
  physicalCols := max size.cols 1
  dpi := size.dpi

def scrollbackSize (s : Screen) : Nat := if s.allowScrollback then s.configuredScrollback else 0

def physRow (s : Screen) (row : Int) : Nat :=
  (s.lines.length - s.physicalRows) + min row.toNat s.physicalRows

def physRange (s : Screen) (range : Span Int) : Span Nat :=
  ⟨s.physRow range.start, s.physRow range.stop⟩

def physToStableRowIndex (s : Screen) (phys : Nat) : Int := (phys + s.stableRowIndexOffset : Nat)

def stableRowToPhys (s : Screen) (stable : Int) : Option Nat :=
  let idx := stable - s.stableRowIndexOffset
  if idx < 0 ∨ (s.lines.length : Int) ≤ idx then none else some idx.toNat

/-- A difference of stable rows `as usize`: below 0 it comes out at the upper end. -/
def asUsize (i : Int) : Nat := if i < 0 then (i + 18446744073709551616).toNat else i.toNat

def stableRange (s : Screen) (range : Span Int) : Span Nat :=
  let rangeLen := asUsize (range.stop - range.start)
  match s.stableRowToPhys range.start with
  | none => ⟨0, min rangeLen s.lines.length⟩
  | some first =>
    match s.stableRowToPhys (range.stop - 1) with
    | none =>
      let last := s.lines.length - 1
      ⟨last - rangeLen, last + 1⟩
    | some last => ⟨first, last + 1⟩

def getChangedStableRows (s : Screen) (range : Span Int) (seqno : Nat) : List Int :=
  let phys := s.stableRange range
  (((s.lines.zipIdx).drop phys.start).take (phys.stop - phys.start)).filterMap fun (line, idx) =>
    if line.changedSince seqno then some (s.physToStableRowIndex idx) else none

/-- `line_mut`. -/
def modifyLine (s : Screen) (idx : Nat) (f : Line → Except Panic Line) : Except Panic Screen :=
  match s.lines[idx]? with
  | none => .error .row
  | some line => (f line).map fun line => { s with lines := s.lines.set idx line }

/-- `line_mut(idx).update_last_change_seqno`. -/
def touch (seqno idx : Nat) (s : Screen) : Except Panic Screen :=
  s.modifyLine idx fun line => .ok (line.updateLastChangeSeqno seqno)

/-- The last `n` lines are popped as far as they are blank. -/
def popBlank (graphemes : Graphemes) : Nat → List Line → List Line
  | 0, lines => lines
  | n + 1, lines =>
    if (lines.getLast?.map (Line.isWhitespace graphemes)).getD false then
      popBlank graphemes n lines.dropLast
    else popBlank graphemes n lines

/-- Blank lines beyond the capacity are popped; the last line comes first here. -/
def popExcess (graphemes : Graphemes) (capacity : Nat) : List Line → List Line
  | [] => []
  | line :: lines =>
    if capacity < lines.length + 1 ∧ line.isWhitespace graphemes then
      popExcess graphemes capacity lines
    else line :: lines

end Screen

/-! ## Rewrapping -/

/-- The state of the loop of `rewrap_lines`. -/
structure Rewrap where
  rewrapped : List Line
  logicalLine : Option Line
  logicalCursorX : Option Nat
  adjustedCursor : Nat × Nat

section Rewrap

variable (graphemes : Graphemes)

/-- Where the cursor goes that is at column `x` of the logical line. -/
def adjustCursor (physicalCols oldCols cursorX rewrapped x : Nat) : Nat × Nat :=
  let numLines := x / physicalCols
  let lastX := x - numLines * physicalCols
  let adjusted := (lastX, rewrapped + numLines)
  if adjusted.1 = 0 ∧ 0 < adjusted.2 then
    -- the cursor would lose the line that it belongs to: it goes behind the end of the line before
    (if physicalCols < oldCols then cursorX else physicalCols, adjusted.2 - 1)
  else adjusted

/-- A line that goes on in the next one is no longer marked so. -/
def unmarkWrapped (seqno : Nat) (line : Line) : Line :=
  let line := line.updateLastChangeSeqno seqno
  if line.lastCellWasWrapped graphemes then line.setLastCellWasWrapped graphemes false seqno
  else line

/-- The line behind those that it continues. -/
def joinLine (seqno : Nat) (prior : Option Line) (line : Line) : Line :=
  match prior with
  | none => line
  | some prior => prior.appendLine graphemes line seqno

/-- A logical line in the new width. -/
def splitLine (physicalCols seqno : Nat) (line : Line) : List Line :=
  if line.len ≤ physicalCols then [line] else line.wrap graphemes physicalCols seqno

/-- One line of `rewrap_lines`. -/
def rewrapLine (physicalCols oldCols cursorX cursorY seqno : Nat) (r : Rewrap) (physIdx : Nat)
    (line : Line) : Rewrap :=
  let wasWrapped := line.lastCellWasWrapped graphemes
  let logicalCursorX :=
    if physIdx = cursorY then some (cursorX + (r.logicalLine.map Line.len).getD 0)
    else r.logicalCursorX
  let line := joinLine graphemes seqno r.logicalLine (unmarkWrapped graphemes seqno line)
  if wasWrapped then
    { r with logicalLine := some line, logicalCursorX := logicalCursorX }
  else
    { rewrapped := r.rewrapped ++ splitLine graphemes physicalCols seqno line
      logicalLine := none
      logicalCursorX := none
      adjustedCursor :=
        match logicalCursorX with
        | none => r.adjustedCursor
        | some x => adjustCursor physicalCols oldCols cursorX r.rewrapped.length x }

/-- The loop of `rewrap_lines`. -/
def rewrapFrom (physicalCols oldCols cursorX cursorY seqno : Nat) :
    Rewrap → Nat → List Line → Rewrap
  | r, _, [] => r
  | r, physIdx, line :: lines =>
    rewrapFrom physicalCols oldCols cursorX cursorY seqno
      (rewrapLine graphemes physicalCols oldCols cursorX cursorY seqno r physIdx line)
      (physIdx + 1) lines

namespace Screen

/-- `Screen::rewrap_lines`: the lines, and the cursor. A logical line that is still open when the
lines end is dropped. -/
def rewrapLines (s : Screen) (physicalCols physicalRows cursorX cursorY seqno : Nat) :
    Screen × Nat × Nat :=
  let r := rewrapFrom graphemes physicalCols s.physicalCols cursorX cursorY seqno
    ⟨[], none, none, (cursorX, cursorY)⟩ 0 s.lines
  let capacity := physicalRows + s.scrollbackSize
  ({ s with lines := (popExcess graphemes capacity r.rewrapped.reverse).reverse },
    r.adjustedCursor)

/-- The lines in the new width, and the cursor. Only the lines of the primary screen are
rewrapped. -/
def reflow (s : Screen) (physicalCols physicalRows cursorX cursorY seqno : Nat) :
    Screen × Nat × Nat :=
  if physicalCols ≠ s.physicalCols then
    if s.allowScrollback then
      s.rewrapLines graphemes physicalCols physicalRows cursorX cursorY seqno
    else
      ({ s with lines := s.lines.map fun line =>
          if physicalCols < s.physicalCols then line.resize graphemes physicalCols seqno
          else line.updateLastChangeSeqno seqno },
        cursorX, cursorY)
  else (s, cursorX, cursorY)

/-- New lines at the bottom. -/
def padLines (s : Screen) (n seqno : Nat) : Screen :=
  { s with lines := s.lines ++ List.replicate n (.new seqno) }

def resize (s : Screen) (size : TerminalSize) (cursor : CursorPosition) (seqno : Nat)
    (isConpty : Bool) : Screen × CursorPosition :=
  let physicalRows := max size.rows 1
  let physicalCols := max size.cols 1
  if physicalRows = s.physicalRows ∧ physicalCols = s.physicalCols ∧ size.dpi = s.dpi then
    (s, cursor)
  else
    let cursorPhys := s.physRow cursor.y
    let s := { s with
      dpi := size.dpi
      lines := popBlank graphemes (s.lines.length - (cursorPhys + 1)) s.lines }
    let (s, cursorX, cursorY) := s.reflow graphemes physicalCols physicalRows cursor.x cursorPhys seqno
    let s := s.padLines (physicalRows - s.lines.length) seqno
    let (s, newCursorY) :=
      if isConpty then
        let newCursorY := max (cursor.y + cursorY - cursorPhys) 0
        let required := physicalRows - newCursorY.toNat
        let actual := s.lines.length - cursorY
        (s.padLines (required - actual) seqno, newCursorY)
      else (s, (cursorY : Int) - ((s.lines.length : Int) - physicalRows))
    ({ s with physicalRows := physicalRows, physicalCols := physicalCols }, ⟨cursorX, newCursorY⟩)

end Screen

end Rewrap

/-! ## Cells -/

namespace Screen

variable (graphemes : Graphemes)

def insertCell (s : Screen) (x : Nat) (y : Int) (rightMargin seqno : Nat) :
    Except Panic Screen :=
  s.modifyLine (s.physRow y) fun line =>
    ((line.updateLastChangeSeqno seqno).insertCell graphemes x .blank rightMargin seqno).map
      fun line =>
        if s.physicalCols < line.len then line.resize graphemes s.physicalCols seqno else line

def eraseCell (s : Screen) (x : Nat) (y : Int) (rightMargin seqno : Nat)
    (blankAttr : CellAttributes) : Except Panic Screen :=
  s.modifyLine (s.physRow y) fun line =>
    line.eraseCellWithMargin graphemes x rightMargin seqno blankAttr

def setCell (s : Screen) (x : Nat) (y : Int) (cell : Cell) (seqno : Nat) :
    Except Panic Screen :=
  s.modifyLine (s.physRow y) fun line => .ok (line.setCell graphemes x cell seqno)

def setCellGrapheme (s : Screen) (x : Nat) (y : Int) (text : Text) (wide : Bool)
    (attr : CellAttributes) (seqno : Nat) : Except Panic Screen :=
  s.modifyLine (s.physRow y) fun line =>
    .ok (line.setCellGrapheme graphemes x text wide attr seqno)

def clearLine (s : Screen) (y : Int) (cols : Span Nat) (attr : CellAttributes) (seqno : Nat)
    (bidiMode : BidiMode) : Except Panic Screen :=
  s.modifyLine (s.physRow y) fun line =>
    let line := if cols.start = 0 then bidiMode.applyToLine line seqno else line
    .ok (line.fillRange graphemes cols.start cols.stop (.blankWithAttrs attr) seqno)

end Screen

/-! ## Scrolling -/

/-- A line that comes in when the screen scrolls. -/
def blankLine (physicalCols seqno : Nat) (blankAttr : CellAttributes) (bidiMode : BidiMode) : Line :=
  bidiMode.applyToLine
    (if blankAttr = .blank then .new seqno
      else .withWidthAndCell physicalCols (.blankWithAttrs blankAttr) seqno) seqno

namespace Screen

/-- A line that scrolls off is used again at the bottom of the region. -/
def moveLine (removeIdx seqno : Nat) (blankAttr : CellAttributes) (insertAtEnd : Bool)
    (insertAt : Nat) (s : Screen) : Except Panic Screen :=
  match s.lines[removeIdx]? with
  | none => .error .row
  | some line =>
    let lines := s.lines.eraseIdx removeIdx
    let line :=
      if blankAttr = .blank then .new seqno
      else (line.resizeAndClear s.physicalCols seqno blankAttr).updateLastChangeSeqno seqno
    if insertAtEnd then .ok { s with lines := lines ++ [line] }
    else if lines.length < insertAt then .error .row
    else .ok { s with lines := lines.insertIdx insertAt line }

/-- A new line at the bottom of the region. -/
def addLine (seqno : Nat) (blankAttr : CellAttributes) (bidiMode : BidiMode) (insertAtEnd : Bool)
    (insertAt : Nat) (s : Screen) : Except Panic Screen :=
  let line := blankLine s.physicalCols seqno blankAttr bidiMode
  if insertAtEnd then .ok { s with lines := s.lines ++ [line] }
  else if s.lines.length < insertAt then .error .row
  else .ok { s with lines := s.lines.insertIdx insertAt line }

/-- A line is taken away, if it is there. -/
def removeLine (idx : Nat) (s : Screen) : Except Panic Screen :=
  .ok { s with lines := s.lines.eraseIdx idx }

/-- How many lines `scroll_up` takes away at the top: those that scroll off, or, where these go to
the scrollback, those that there is no room for. -/
def linesRemoved (s : Screen) (scrollbackOk : Bool) (numRows : Nat) : Nat :=
  if scrollbackOk then (s.lines.length + numRows) - (s.physicalRows + s.scrollbackSize)
  else numRows

def scrollUp (s : Screen) (region : Span Int) (numRows seqno : Nat) (blankAttr : CellAttributes)
    (bidiMode : BidiMode) : Except Panic Screen :=
  let phys := s.physRange region
  if phys.stop < phys.start then .error .arithmetic
  else do
    let numRows := min numRows (phys.stop - phys.start)
    let scrollbackOk := decide (region.start = 0) && s.allowScrollback
    let insertAtEnd := decide (region.stop = s.physicalRows)
    let s ← (if scrollbackOk then .ok s
      else rowsFrom phys.start (phys.stop - phys.start) (touch seqno) s)
    let linesRemoved := s.linesRemoved scrollbackOk numRows
    let s ← (if region.start = 0 then
        rowsFrom (s.physRow 0) (s.physRow numRows - s.physRow 0)
          (fun y s => s.modifyLine y fun line => .ok line.compressForScrollback) s
      else .ok s)
    let removeIdx := if region.start = 0 then 0 else phys.start
    let toMove := min linesRemoved numRows
    let s ← rounds toMove (moveLine removeIdx seqno blankAttr insertAtEnd (phys.stop - 1)) s
    let toRemove := linesRemoved - toMove
    let toAdd := numRows - toMove
    let s ← rounds toRemove (removeLine removeIdx) s
    let s := if removeIdx = 0 ∧ scrollbackOk then
        { s with stableRowIndexOffset := s.stableRowIndexOffset + linesRemoved }
      else s
    let s ← rounds toAdd (addLine seqno blankAttr bidiMode insertAtEnd phys.stop) s
    -- the stable rows below the region have changed
    if 0 < toRemove ∨ (0 < toAdd ∧ !insertAtEnd) then
      let below := s.physRange ⟨region.stop, s.physicalRows⟩
      rowsFrom below.start (below.stop - below.start) (touch seqno) s
    else .ok s

def eraseScrollback (s : Screen) : Except Panic Screen :=
  if s.lines.length < s.physicalRows then .error .arithmetic
  else
    let toClear := s.lines.length - s.physicalRows
    .ok { s with
      lines := s.lines.drop toClear
      stableRowIndexOffset := s.stableRowIndexOffset + if s.allowScrollback then toClear else 0 }

def scrollDown (s : Screen) (region : Span Int) (numRows seqno : Nat) (blankAttr : CellAttributes)
    (bidiMode : BidiMode) : Except Panic Screen :=
  let phys := s.physRange region
  if phys.stop < phys.start then .error .arithmetic
  else do
    let numRows := min numRows (phys.stop - phys.start)
    let middle := phys.stop - numRows
    let s ← rowsFrom phys.start (middle - phys.start) (touch seqno) s
    let s ← rounds numRows (removeLine middle) s
    rounds numRows (addLine seqno blankAttr bidiMode false phys.start) s

/-- The cells of another row are placed into this one from the left margin on, and the columns
up to the right margin that they do not reach are blanked out. -/
def placeCells (graphemes : Graphemes) (margins : Span Nat) (cells : List Cell) (seqno : Nat)
    (blankAttr : CellAttributes) (line : Line) : Except Panic Line :=
  let stop := margins.start + cells.length
  let line := line.updateLastChangeSeqno seqno
  let line := if line.len < stop then line.resize graphemes stop seqno else line
  let row := line.vec graphemes
  if row.length < stop then .error .column
  else
    let line := line.setCells (row.take margins.start ++ cells ++ row.drop stop)
    .ok (line.fillRange graphemes stop margins.stop (.blankWithAttrs blankAttr) seqno)

/-- The cells of a row between the margins are copied to another row. -/
def copyRow (graphemes : Graphemes) (margins : Span Nat) (seqno : Nat)
    (blankAttr : CellAttributes) (src dest : Nat) (s : Screen) : Except Panic Screen :=
  match s.lines[src]? with
  | none => .error .row
  | some line =>
    if margins.stop < margins.start then .error .arithmetic
    else
      let cells := ((line.vec graphemes).drop margins.start).take (margins.stop - margins.start)
      s.modifyLine src (fun line => .ok (line.setCells (line.vec graphemes))) >>= fun s =>
        s.modifyLine dest (placeCells graphemes margins cells seqno blankAttr)

/-- The cells of a row between the margins are blanked out. -/
def blankRow (graphemes : Graphemes) (margins : Span Nat) (seqno : Nat)
    (blankAttr : CellAttributes) (row : Nat) (s : Screen) : Except Panic Screen :=
  s.modifyLine row fun line =>
    if margins.stop < margins.start then .error .arithmetic
    else
      let line := line.updateLastChangeSeqno seqno
      .ok (line.setCells ((line.vec graphemes).mapIdx fun x cell =>
        if margins.start ≤ x ∧ x < margins.stop then .blankWithAttrs blankAttr else cell))

def scrollUpWithinMargins (graphemes : Graphemes) (s : Screen) (region : Span Int)
    (margins : Span Nat) (numRows seqno : Nat) (blankAttr : CellAttributes) (bidiMode : BidiMode) :
    Except Panic Screen :=
  if margins.start = 0 ∧ margins.stop = s.physicalCols then
    s.scrollUp region numRows seqno blankAttr bidiMode
  else
    let phys := s.physRange region
    if phys.stop < phys.start then .error .arithmetic
    else do
      let height := phys.stop - phys.start
      let numRows := min numRows height
      let rowsToCopy := height - numRows
      let s ← rowsFrom phys.start rowsToCopy
        (fun dest => copyRow graphemes margins seqno blankAttr (dest + numRows) dest) s
      rowsFrom (phys.start + rowsToCopy) (phys.stop - (phys.start + rowsToCopy))
        (blankRow graphemes margins seqno blankAttr) s

/-- `Screen::scroll_down_within_margins`; the rows are copied from the bottom up. -/
def scrollDownWithinMargins (graphemes : Graphemes) (s : Screen) (region : Span Int)
    (margins : Span Nat) (numRows seqno : Nat) (blankAttr : CellAttributes) (bidiMode : BidiMode) :
    Except Panic Screen :=
  if margins.start = 0 ∧ margins.stop = s.physicalCols then
    s.scrollDown region numRows seqno blankAttr bidiMode
  else
    let phys := s.physRange region
    if phys.stop < phys.start then .error .arithmetic
    else do
      let height := phys.stop - phys.start
      let numRows := min numRows height
      let rowsToCopy := height - numRows
      let s ← rowsFrom 0 rowsToCopy
        (fun i =>
          let src := phys.start + (rowsToCopy - 1 - i)
          copyRow graphemes margins seqno blankAttr src (src + numRows)) s
      rowsFrom phys.start numRows (blankRow graphemes margins seqno blankAttr) s

end Screen

end Wakterm.Term
