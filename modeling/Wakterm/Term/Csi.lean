import Wakterm.Term.State

/-!
# Control sequences

The handlers `perform_csi_edit`, `perform_csi_cursor`, `perform_csi_mode`, `perform_device` and
`perform_csi_window`, with what they change of the state.
-/

namespace Wakterm.Term

open Wakterm.Machine

inductive EraseInLine where
  | toEndOfLine | toStartOfLine | line
  deriving DecidableEq

inductive EraseInDisplay where
  | toEndOfDisplay | toStartOfDisplay | display | scrollback
  deriving DecidableEq

inductive Edit where
  | deleteCharacter (n : Nat)
  | deleteLine (n : Nat)
  | eraseCharacter (n : Nat)
  | eraseInLine (erase : EraseInLine)
  | insertCharacter (n : Nat)
  | insertLine (n : Nat)
  | scrollDown (n : Nat)
  | scrollUp (n : Nat)
  | eraseInDisplay (erase : EraseInDisplay)
  | repeatCell (n : Nat)
  deriving DecidableEq

/-- `Cursor`. Columns and lines that count from one are given as those that count from zero. -/
inductive Cursor where
  | setTopAndBottomMargins (top bottom : Nat)
  | setLeftAndRightMargins (left right : Nat)
  | forwardTabulation (n : Nat)
  | backwardTabulation (n : Nat)
  | tabulationClear (toClear : TabulationClear)
  | right (n : Nat)
  | up (n : Nat)
  | down (n : Nat)
  | position (line col : Nat)
  | characterAbsolute (col : Nat)
  | characterPositionAbsolute (col : Nat)
  | characterPositionBackward (n : Nat)
  | characterPositionForward (n : Nat)
  | linePositionAbsolute (line : Nat)
  | linePositionBackward (n : Nat)
  | linePositionForward (n : Nat)
  | nextLine (n : Nat)
  | precedingLine (n : Nat)
  | saveCursor
  | restoreCursor
  | unmodelled
  deriving DecidableEq

/-- The modes that are set and reset. -/
inductive ModeCode where
  | reverseWraparound | leftRightMarginMode | saveCursor | autoWrap | originMode
  | select132Columns | biDirectionalSupportMode | insert | automaticNewline
  | enableAlternateScreen | optEnableAlternateScreen | clearAndEnableAlternateScreen
  | sixelDisplayMode | sixelScrollsRight | unmodelled
  deriving DecidableEq

namespace TerminalState

variable (graphemes : Graphemes)

/-! ## Edits -/

def eraseInLine (t : TerminalState) (erase : EraseInLine) : Except Panic TerminalState :=
  let range : Span Nat := match erase with
    -- with a wrap pending the cursor is one column further to the right
    | .toEndOfLine => ⟨t.cursor.x + if t.wrapNext then 1 else 0, t.active.physicalCols⟩
    | .toStartOfLine => ⟨0, t.cursor.x + 1⟩
    | .line => ⟨0, t.active.physicalCols⟩
  t.onScreen fun s =>
    s.clearLine graphemes t.cursor.y range t.pen.cloneSgrOnly t.seqno t.getBidiMode

/-- One row of `erase_in_display`. -/
def eraseRow (t : TerminalState) (y : Nat) (s : Screen) : Except Panic Screen := do
  let s ← s.clearLine graphemes y ⟨0, t.active.physicalCols⟩ t.pen.cloneSgrOnly t.seqno
    t.getBidiMode
  s.modifyLine (s.physRow y) fun line => .ok (line.setSingleWidth t.seqno)

/-- The rows of the viewport from `start` to `stop` are erased. -/
def eraseRows (t : TerminalState) (start stop : Int) : Except Panic TerminalState :=
  t.onScreen fun s => rowsFrom start.toNat (stop - start).toNat (t.eraseRow graphemes) s

def eraseInDisplay (t : TerminalState) (erase : EraseInDisplay) : Except Panic TerminalState :=
  match erase with
  | .toEndOfDisplay => do
      let t' ← t.eraseInLine graphemes .toEndOfLine
      t'.eraseRows graphemes (t.cursor.y + 1) t.active.physicalRows
  | .toStartOfDisplay => do
      let t' ← t.eraseInLine graphemes .toStartOfLine
      t'.eraseRows graphemes 0 t.cursor.y
  | .display => t.eraseRows graphemes 0 t.active.physicalRows
  | .scrollback => t.onScreen Screen.eraseScrollback

/-- The cell that `Edit::Repeat` repeats: the one before the cursor, or the wide one that covers
it. -/
def cellToRepeat (cells : List Cell) (toCopy : Nat) : Cell :=
  match cells[toCopy]? with
  | none => .blank
  | some candidate =>
    if candidate.text = space ∧ 0 < toCopy then
      match cells[toCopy - 1]? with
      | some prior => if prior.wide then prior else candidate
      | none => candidate
    else candidate

/-- One round of `Edit::Repeat`, at a column and a row. -/
def repeatOnce (cell : Cell) : TerminalState × Nat × Int → Except Panic (TerminalState × Nat × Int)
  | (t, x, y) => do
      let t ← t.onScreen fun s => s.setCell graphemes x y cell t.seqno
      if t.leftAndRightMargins.stop = 0 then .error .arithmetic
      else if t.leftAndRightMargins.stop - 1 < x + 1 then
        let x := t.leftAndRightMargins.start
        if y = t.topAndBottomMargins.stop - 1 then
          let t ← t.scrollUp graphemes 1
          return (t, x, y)
        else
          let y := y + 1
          return (t, x, if t.topAndBottomMargins.stop - 1 < y then t.topAndBottomMargins.stop else y)
      else return (t, x + 1, y)

/-- `Edit::Repeat`. -/
def repeatCell (t : TerminalState) (n : Nat) : Except Panic TerminalState := do
  let x := t.cursor.x
  let y := t.cursor.y
  match t.active.lines[t.active.physRow y]? with
  | none => .error .row
  | some line =>
    let cell := cellToRepeat (line.vec graphemes) (x - 1)
    let t ← t.onScreen fun s =>
      s.modifyLine (s.physRow y) fun line => .ok (line.setCells (line.vec graphemes))
    let (t, x, y) ← rounds n (repeatOnce graphemes cell) (t, x, y)
    return { t with cursor := ⟨x, y⟩ }

def performCsiEdit (t : TerminalState) : Edit → Except Panic TerminalState
  | .deleteCharacter n =>
    let x := t.cursor.x
    let rightMargin := t.leftAndRightMargins.stop
    if t.betweenMargins then
      t.onScreen fun s => rounds (min (x + n) rightMargin - x)
        (fun s => s.eraseCell graphemes x t.cursor.y rightMargin t.seqno t.pen.cloneSgrOnly) s
    else .ok t
  | .deleteLine n =>
    if t.withinRegion && t.betweenMargins then
      t.onScreen fun s => s.scrollUpWithinMargins graphemes
        ⟨t.cursor.y, t.topAndBottomMargins.stop⟩ t.leftAndRightMargins n t.seqno
        t.pen.cloneSgrOnly t.getBidiMode
    else .ok t
  | .eraseCharacter n =>
    let x := t.cursor.x
    let limit := min (x + n) t.active.physicalCols
    t.onScreen fun s => rowsFrom x (limit - x) (fun x s =>
      s.setCell graphemes x t.cursor.y (.blankWithAttrs t.pen.cloneSgrOnly) t.seqno) s
  | .eraseInLine erase => t.eraseInLine graphemes erase
  | .insertCharacter n =>
    if t.withinRegion && t.betweenMargins then
      t.onScreen fun s => rounds n (fun s =>
        s.insertCell graphemes t.cursor.x t.cursor.y t.leftAndRightMargins.stop t.seqno) s
    else .ok t
  | .insertLine n =>
    if t.withinRegion && t.betweenMargins then
      t.onScreen fun s => s.scrollDownWithinMargins graphemes
        ⟨t.cursor.y, t.topAndBottomMargins.stop⟩ t.leftAndRightMargins n t.seqno
        t.pen.cloneSgrOnly t.getBidiMode
    else .ok t
  | .scrollDown n => t.scrollDown graphemes n
  | .scrollUp n => t.scrollUp graphemes n
  | .eraseInDisplay erase => t.eraseInDisplay graphemes erase
  | .repeatCell n => t.repeatCell graphemes n

/-! ## The cursor -/

def setLeftAndRightMargins (t : TerminalState) (left right : Nat) : TerminalState :=
  if t.leftAndRightMarginMode then
    let cols := t.active.physicalCols
    let left := min left (cols - 1)
    let right := min right (cols - 1)
    if right ≤ left then t
    else { t with leftAndRightMargins := ⟨left, right + 1⟩ }.setCursorPos (.absolute 0) (.absolute 0)
  else t

def decSaveCursor (t : TerminalState) : TerminalState :=
  { t with screen := t.screen.setSavedCursor (some
      ⟨t.cursor, t.wrapNext, t.pen, t.decOriginMode, t.g0Charset, t.g1Charset⟩) }

def decRestoreCursor (t : TerminalState) : TerminalState :=
  let saved := t.screen.activeSavedCursor.getD ⟨.origin, false, .blank, false, .ascii, .ascii⟩
  let t := { t with decOriginMode := false }
  let t := t.setCursorPos (.absolute saved.position.x) (.absolute saved.position.y)
  { t with
    wrapNext := saved.wrapNext
    pen := saved.pen
    decOriginMode := saved.decOriginMode
    g0Charset := saved.g0Charset
    g1Charset := saved.g1Charset
    shiftOut := false
    newlineMode := false }

/-- The row that `Cursor::Up` and `Cursor::PrecedingLine` go to. -/
def rowAbove (t : TerminalState) (n : Nat) : Int :=
  let candidate := t.cursor.y - n
  max (if t.cursor.y < t.topAndBottomMargins.start then candidate
    else max candidate t.topAndBottomMargins.start) 0

/-- The row that `Cursor::Down` and `Cursor::NextLine` go to. -/
def rowBelow (t : TerminalState) (n : Nat) : Int :=
  if t.topAndBottomMargins.stop ≤ t.cursor.y then min (t.cursor.y + n) (t.active.physicalRows - 1)
  else min (t.cursor.y + n) (t.topAndBottomMargins.stop - 1)

def performCsiCursor (t : TerminalState) : Cursor → Except Panic TerminalState
  | .setTopAndBottomMargins top bottom =>
    let last := (t.active.physicalRows : Int) - 1
    let top := max (min (top : Int) last) 0
    let bottom := max (min (bottom : Int) last) 0
    if bottom ≤ top then .ok t
    else .ok ({ t with topAndBottomMargins := ⟨top, bottom + 1⟩ }.setCursorPos
      (.absolute 0) (.absolute 0))
  | .setLeftAndRightMargins left right => .ok (t.setLeftAndRightMargins left right)
  | .forwardTabulation n => rounds n c0HorizontalTab t
  | .backwardTabulation n =>
    rounds n (fun t =>
      let x := (t.tabs.findPrevTabStop t.cursor.x).getD 0
      .ok (t.setCursorPos (.absolute x) (.relative 0))) t
  | .tabulationClear toClear => .ok { t with tabs := t.tabs.clear toClear t.cursor.x }
  | .right n =>
    let x := t.cursor.x + n
    let x := if t.leftAndRightMargins.stop ≤ t.cursor.x then min x (t.active.physicalCols - 1)
      else min x (t.leftAndRightMargins.stop - 1)
    .ok { t with cursor := { t.cursor with x := x }, wrapNext := false }
  | .up n => .ok { t with cursor := { t.cursor with y := t.rowAbove n }, wrapNext := false }
  | .down n => .ok { t with cursor := { t.cursor with y := t.rowBelow n }, wrapNext := false }
  | .position line col => .ok (t.setCursorPos (.absolute col) (.absolute line))
  | .characterAbsolute col => .ok (t.setCursorPos (.absolute col) (.relative 0))
  | .characterPositionAbsolute col =>
    let col := if t.decOriginMode then col + t.leftAndRightMargins.start else col
    .ok { t with
      cursor := { t.cursor with x := min col (t.active.physicalCols - 1) }, wrapNext := false }
  | .characterPositionBackward n => .ok (t.setCursorPos (.relative (-n)) (.relative 0))
  | .characterPositionForward n => .ok (t.setCursorPos (.relative n) (.relative 0))
  | .linePositionAbsolute line => .ok (t.setCursorPos (.relative 0) (.absolute line))
  | .linePositionBackward n => .ok (t.setCursorPos (.relative 0) (.relative (-n)))
  | .linePositionForward n => .ok (t.setCursorPos (.relative 0) (.relative n))
  | .nextLine n =>
    .ok { t with cursor := ⟨t.leftAndRightMargins.start, t.rowBelow n⟩, wrapNext := false }
  | .precedingLine n =>
    .ok { t with cursor := ⟨t.leftAndRightMargins.start, t.rowAbove n⟩, wrapNext := false }
  | .saveCursor =>
    -- the sequence is the one that sets the left and the right margin, if these are enabled
    if t.leftAndRightMarginMode then
      .ok (t.setLeftAndRightMargins 0 t.active.physicalCols)
    else .ok t.decSaveCursor
  | .restoreCursor => .ok t.decRestoreCursor
  | .unmodelled => .ok t

/-! ## Modes and resets -/

/-- The margins are those of the screen. -/
def resetMargins (t : TerminalState) : TerminalState :=
  { t with
    topAndBottomMargins := ⟨0, t.active.physicalRows⟩
    leftAndRightMargins := ⟨0, t.active.physicalCols⟩ }

/-- `activate_alt_screen` and `activate_primary_screen`, with the number of the state. -/
def activate (t : TerminalState) (alt : Bool) : Except Panic TerminalState :=
  (if alt then t.screen.activateAltScreen t.seqno
    else t.screen.activatePrimaryScreen t.seqno).map fun screen => { t with screen := screen }

/-- Mode 47. -/
def enableAlternateScreen (t : TerminalState) (set : Bool) : Except Panic TerminalState :=
  if t.screen.altScreenIsActive = set then .ok t
  else (t.activate set).map fun t => { t with pen := .blank }

/-- Mode 1047: the alternate screen is cleared when it is left. -/
def optEnableAlternateScreen (t : TerminalState) (set : Bool) : Except Panic TerminalState :=
  if set then t.enableAlternateScreen true
  else if t.screen.altScreenIsActive then
    { t with pen := .blank }.eraseInDisplay graphemes .display >>= fun t => t.activate false
  else .ok t

/-- Mode 1049: the alternate screen is cleared when it is entered, and the cursor is saved. -/
def clearAndEnableAlternateScreen (t : TerminalState) (set : Bool) : Except Panic TerminalState :=
  if t.screen.altScreenIsActive = set then .ok t
  else if set then
    t.decSaveCursor.activate true >>= fun t =>
      { t.setCursorPos (.absolute 0) (.absolute 0) with pen := .blank }.eraseInDisplay
        graphemes .display
  else (t.activate false).map decRestoreCursor

def performCsiMode (t : TerminalState) (set : Bool) : ModeCode → Except Panic TerminalState
  | .reverseWraparound => .ok { t with reverseWraparoundMode := set }
  | .leftRightMarginMode =>
    if set then .ok { t with leftAndRightMarginMode := true }
    else .ok { t with
      leftAndRightMarginMode := false, leftAndRightMargins := ⟨0, t.active.physicalCols⟩ }
  | .saveCursor => .ok (if set then t.decSaveCursor else t.decRestoreCursor)
  | .autoWrap => .ok { t with decAutoWrap := set }
  | .originMode => .ok ({ t with decOriginMode := set }.setCursorPos (.absolute 0) (.absolute 0))
  | .select132Columns =>
    (t.resetMargins.setCursorPos (.absolute 0) (.absolute 0)).eraseInDisplay graphemes .display
  | .biDirectionalSupportMode => .ok { t with bidiEnabled := some set }
  | .insert => .ok { t with insert := set }
  | .automaticNewline => .ok { t with newlineMode := set }
  | .enableAlternateScreen => t.enableAlternateScreen set
  | .optEnableAlternateScreen => t.optEnableAlternateScreen graphemes set
  | .clearAndEnableAlternateScreen => t.clearAndEnableAlternateScreen graphemes set
  | .sixelDisplayMode => .ok { t with sixelDisplayMode := set }
  | .sixelScrollsRight => .ok { t with sixelScrollsRight := set }
  | .unmodelled => .ok t

/-- `kitty_remove_placement_from_model`: the cells of the rows where the placement is are cleared
of it. -/
def removePlacement (p : Placement) (t : TerminalState) : Except Panic TerminalState :=
  t.onScreen fun s =>
    let range := s.stableRange ⟨p.firstRow, p.firstRow + p.rows⟩
    rowsFrom range.start (range.stop - range.start) (fun idx s =>
      s.modifyLine idx fun line =>
        .ok ((line.setCells ((line.vec graphemes).map fun cell =>
          { cell with attrs := cell.attrs.detachImageWithPlacement p.imageId p.placementId })
          ).updateLastChangeSeqno t.seqno)) s

/-- `kitty_remove_all_placements`. -/
def removeAllPlacements (t : TerminalState) : Except Panic TerminalState :=
  t.placements.foldlM (fun t p => t.removePlacement graphemes p) { t with placements := [] }

/-- What `Device::SoftReset` resets before it goes to the screens. -/
def softResetState (t : TerminalState) : TerminalState :=
  { t.resetMargins with
    pen := .blank, insert := false, decOriginMode := false, decAutoWrap := true
    leftAndRightMarginMode := false }

/-- The saved cursor of the screen that is shown is dropped. -/
def dropSavedCursor (t : TerminalState) : TerminalState :=
  { t with screen := t.screen.setSavedCursor none }

def softReset (t : TerminalState) : Except Panic TerminalState := do
  let t ← t.softResetState.activate true
  let t ← t.dropSavedCursor.activate false
  let t ← t.dropSavedCursor.removeAllPlacements graphemes
  return { t with
    reverseWraparoundMode := false, bidiEnabled := none, bidiHint := none
    g0Charset := .ascii, g1Charset := .ascii }

def makeAllLinesDirty (t : TerminalState) : TerminalState :=
  { t with screen := t.screen.setActive { t.active with
      lines := t.active.lines.map fun line => line.updateLastChangeSeqno t.seqno } }

/-- What `EscCode::FullReset` resets before it goes to the screens. -/
def fullResetState (t : TerminalState) : TerminalState :=
  { t.resetMargins with
    pen := .blank, cursor := .origin, wrapNext := false
    clearSemanticAttributeOnNewline := false, insert := false, decAutoWrap := true
    reverseWraparoundMode := false, decOriginMode := false, sixelDisplayMode := false
    sixelScrollsRight := false, g0Charset := .ascii, g1Charset := .ascii, shiftOut := false
    newlineMode := false, tabs := .new t.active.physicalCols 8
    leftAndRightMarginMode := false, bidiEnabled := none, bidiHint := none
    unicodeVersion := t.config.unicodeVersion, unicodeVersionStack := []
    suppressInitialTitleChange := false, accumulatingTitle := none }

def fullReset (t : TerminalState) : Except Panic TerminalState := do
  let t ← t.fullResetState.activate true
  let t ← t.eraseInDisplay graphemes .display
  let t ← t.activate false
  let t ← t.eraseInDisplay graphemes .scrollback
  let t ← t.eraseInDisplay graphemes .display
  return t.makeAllLinesDirty

/-- `checksum_rectangle`, as far as it can panic: it reads the rows of the rectangle. -/
def checksumRectangle (t : TerminalState) (top bottom : Nat) : Except Panic TerminalState :=
  let yOrigin := if t.decOriginMode then t.topAndBottomMargins.start.toNat else 0
  rowsFrom top (bottom + 1 - top) (fun y t =>
    match t.active.lines[t.active.physRow (yOrigin + y : Nat)]? with
    | none => .error .row
    | some _ => .ok t) t

end TerminalState

end Wakterm.Term
