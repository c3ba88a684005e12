import Wakterm.Machine.Removal
import Wakterm.Term.Screen

/-!
# The state of the terminal

`TerminalState` of `term/src/terminalstate`, with the handlers of the cursor, of the margins and tab
stops, of edits and of the two screens.
-/

namespace Wakterm.Term

open Wakterm.Machine

inductive CharSet where
  | ascii | uk | decLineDrawing
  deriving DecidableEq

inductive Position where
  | absolute (n : Int)
  | relative (n : Int)

/-- What is asked of Unicode: how text falls into graphemes, how many columns one of them takes by
the latest version and by the one that is in effect, which of them are white space, and the normal
form of text, where the configuration asks for it. -/
structure Unicode where
  graphemes : Graphemes
  columnWidth : Nat → Text → Fin 3
  isWhiteSpaceGrapheme : Text → Bool
  normalize : Text → Text

structure SavedCursor where
  position : CursorPosition
  wrapNext : Bool
  pen : CellAttributes
  decOriginMode : Bool
  g0Charset : CharSet
  g1Charset : CharSet
  deriving DecidableEq

structure TabStop where
  tabs : List Bool
  tabWidth : Nat
  deriving DecidableEq

/-- `TabulationClear`; the kinds that are not handled are one. -/
inductive TabulationClear where
  | characterTabStopAtActivePosition | allCharacterTabStops | unhandled
  deriving DecidableEq

namespace TabStop

def new (screenWidth tabWidth : Nat) : TabStop :=
  ⟨(List.range screenWidth).map fun i => decide (i % tabWidth = 0), tabWidth⟩

def setTabStop (t : TabStop) (col : Nat) : Except Panic TabStop :=
  if col < t.tabs.length then .ok { t with tabs := t.tabs.set col true } else .error .tabStop

def findPrevTabStop (t : TabStop) (col : Nat) : Option Nat :=
  (List.range (min col t.tabs.length)).reverse.find? fun i => t.tabs[i]?.getD false

def findNextTabStop (t : TabStop) (col : Nat) : Option Nat :=
  (List.range' (col + 1) (t.tabs.length - (col + 1))).find? fun i => t.tabs[i]?.getD false

def resize (t : TabStop) (screenWidth : Nat) : TabStop :=
  { t with tabs := t.tabs ++
      (List.range' t.tabs.length (screenWidth - t.tabs.length)).map fun i =>
        decide (i % t.tabWidth = 0) }

def clear (t : TabStop) (toClear : TabulationClear) (col : Nat) : TabStop :=
  match toClear with
  | .characterTabStopAtActivePosition => { t with tabs := t.tabs.set col false }
  | .allCharacterTabStops => { t with tabs := t.tabs.map fun _ => false }
  | .unhandled => t

end TabStop

/-- `ScreenOrAlt`, with the cursor that each screen has saved. -/
structure ScreenOrAlt where
  screen : Screen
  altScreen : Screen
  savedCursor : Option SavedCursor
  altSavedCursor : Option SavedCursor
  altScreenIsActive : Bool
  deriving DecidableEq

namespace ScreenOrAlt

def new (size : TerminalSize) (configuredScrollback seqno : Nat) (bidiMode : BidiMode) :
    ScreenOrAlt where
  screen := .new size configuredScrollback true seqno bidiMode
  altScreen := .new size configuredScrollback false seqno bidiMode
  savedCursor := none
  altSavedCursor := none
  altScreenIsActive := false

/-- The screen that is shown. -/
def active (s : ScreenOrAlt) : Screen := if s.altScreenIsActive then s.altScreen else s.screen

/-- The screen that is shown, changed. -/
def setActive (s : ScreenOrAlt) (screen : Screen) : ScreenOrAlt :=
  if s.altScreenIsActive then { s with altScreen := screen } else { s with screen := screen }

/-- `dirty_top_phys_rows`: the first rows of the primary screen, whichever is shown. -/
def dirtyTopPhysRows (s : ScreenOrAlt) (seqno : Nat) : Except Panic ScreenOrAlt :=
  (rowsFrom 0 s.screen.physicalRows (Screen.touch seqno) s.screen).map fun screen =>
    { s with screen := screen }

def activateAltScreen (s : ScreenOrAlt) (seqno : Nat) : Except Panic ScreenOrAlt :=
  dirtyTopPhysRows { s with altScreenIsActive := true } seqno

def activatePrimaryScreen (s : ScreenOrAlt) (seqno : Nat) : Except Panic ScreenOrAlt :=
  dirtyTopPhysRows { s with altScreenIsActive := false } seqno

/-- `saved_cursor`. -/
def activeSavedCursor (s : ScreenOrAlt) : Option SavedCursor :=
  if s.altScreenIsActive then s.altSavedCursor else s.savedCursor

/-- `*saved_cursor() = saved`. -/
def setSavedCursor (s : ScreenOrAlt) (saved : Option SavedCursor) : ScreenOrAlt :=
  if s.altScreenIsActive then { s with altSavedCursor := saved }
  else { s with savedCursor := saved }

end ScreenOrAlt

/-- Where a placement of an image is: `PlacementInfo` and its key. -/
structure Placement where
  imageId : Nat
  placementId : Option Nat
  firstRow : Int
  rows : Nat
  deriving DecidableEq

structure TerminalConfig where
  bidiMode : BidiMode
  enableChecksumRectangularArea : Bool
  unicodeVersion : Nat
  deriving DecidableEq

structure TerminalState where
  config : TerminalConfig
  screen : ScreenOrAlt
  pen : CellAttributes
  cursor : CursorPosition
  wrapNext : Bool
  clearSemanticAttributeOnNewline : Bool
  insert : Bool
  decAutoWrap : Bool
  reverseWraparoundMode : Bool
  decOriginMode : Bool
  topAndBottomMargins : Span Int
  leftAndRightMargins : Span Nat
  leftAndRightMarginMode : Bool
  sixelDisplayMode : Bool
  sixelScrollsRight : Bool
  g0Charset : CharSet
  g1Charset : CharSet
  shiftOut : Bool
  newlineMode : Bool
  tabs : TabStop
  placements : List Placement
  seqno : Nat
  unicodeVersion : Nat
  unicodeVersionStack : List (Nat × Option String)
  enableConptyQuirks : Bool
  suppressInitialTitleChange : Bool
  accumulatingTitle : Option Text
  bidiEnabled : Option Bool
  bidiHint : Option ParagraphDirectionHint
  deriving DecidableEq

/-- `CursorPosition::default`. -/
def CursorPosition.origin : CursorPosition := ⟨0, 0⟩

namespace TerminalState

/-- `TerminalState::new`. The margins and the tab stops take the size as it is given, the screens
have at least one row and one column. -/
def new (size : TerminalSize) (config : TerminalConfig) (configuredScrollback : Nat) :
    TerminalState where
  config := config
  screen := .new size configuredScrollback 1 config.bidiMode
  pen := .blank
  cursor := .origin
  wrapNext := false
  clearSemanticAttributeOnNewline := false
  insert := false
  decAutoWrap := true
  reverseWraparoundMode := false
  decOriginMode := false
  topAndBottomMargins := ⟨0, size.rows⟩
  leftAndRightMargins := ⟨0, size.cols⟩
  leftAndRightMarginMode := false
  sixelDisplayMode := false
  sixelScrollsRight := false
  g0Charset := .ascii
  g1Charset := .ascii
  shiftOut := false
  newlineMode := false
  tabs := .new size.cols 8
  placements := []
  seqno := 1
  unicodeVersion := config.unicodeVersion
  unicodeVersionStack := []
  enableConptyQuirks := false
  suppressInitialTitleChange := false
  accumulatingTitle := none
  bidiEnabled := none
  bidiHint := none

/-- `screen()`: the screen that is shown. -/
def active (t : TerminalState) : Screen := t.screen.active

/-- `screen_mut()`: the screen that is shown is changed. -/
def onScreen (t : TerminalState) (f : Screen → Except Panic Screen) :
    Except Panic TerminalState :=
  (f t.active).map fun screen => { t with screen := t.screen.setActive screen }

def getBidiMode (t : TerminalState) : BidiMode :=
  ⟨t.bidiEnabled.getD t.config.bidiMode.enabled, t.bidiHint.getD t.config.bidiMode.hint⟩

def clearSemanticAttributeDueToMovement (t : TerminalState) : TerminalState :=
  if t.clearSemanticAttributeOnNewline then
    { t with
      clearSemanticAttributeOnNewline := false
      pen := { t.pen with semanticType := .output } }
  else t

def setCursorPositionAbsolute (t : TerminalState) (x : Nat) (y : Int) : TerminalState :=
  let t := if t.cursor.y ≠ y then t.clearSemanticAttributeDueToMovement else t
  { t with cursor := ⟨x, y⟩, wrapNext := false }

/-- The column of `set_cursor_pos`. An absolute one may be one behind the last. -/
def cursorColumn (t : TerminalState) : Position → Int
  | .relative x =>
    max (min (t.cursor.x + x)
      ((if t.decOriginMode then t.leftAndRightMargins.stop else t.active.physicalCols : Nat) - 1)) 0
  | .absolute x =>
    max (min (x + (if t.decOriginMode then t.leftAndRightMargins.start else 0 : Nat))
      ((if t.decOriginMode then t.leftAndRightMargins.stop
        else t.active.physicalCols + 1 : Nat) - 1)) 0

/-- The row of `set_cursor_pos`. -/
def cursorRow (t : TerminalState) : Position → Int
  | .relative y =>
    max (min (t.cursor.y + y)
      ((if t.decOriginMode then t.topAndBottomMargins.stop else t.active.physicalRows) - 1)) 0
  | .absolute y =>
    max (min (y + if t.decOriginMode then t.topAndBottomMargins.start else 0)
      ((if t.decOriginMode then t.topAndBottomMargins.stop else t.active.physicalRows) - 1)) 0

def setCursorPos (t : TerminalState) (x y : Position) : TerminalState :=
  t.setCursorPositionAbsolute (t.cursorColumn x).toNat (t.cursorRow y)

def scrollUp (graphemes : Graphemes) (t : TerminalState) (numRows : Nat) :
    Except Panic TerminalState :=
  t.onScreen fun s => s.scrollUpWithinMargins graphemes t.topAndBottomMargins t.leftAndRightMargins
    numRows t.seqno t.pen.cloneSgrOnly t.getBidiMode

def scrollDown (graphemes : Graphemes) (t : TerminalState) (numRows : Nat) :
    Except Panic TerminalState :=
  t.onScreen fun s => s.scrollDownWithinMargins graphemes t.topAndBottomMargins
    t.leftAndRightMargins numRows t.seqno t.pen.cloneSgrOnly t.getBidiMode

/-- Is the cursor between the left and the right margin? -/
def betweenMargins (t : TerminalState) : Bool :=
  t.leftAndRightMargins.start ≤ t.cursor.x && t.cursor.x < t.leftAndRightMargins.stop

/-- Is the cursor between the top and the bottom margin? -/
def withinRegion (t : TerminalState) : Bool :=
  t.topAndBottomMargins.start ≤ t.cursor.y && t.cursor.y < t.topAndBottomMargins.stop

def newLine (graphemes : Graphemes) (t : TerminalState) (moveToFirstColumn : Bool) :
    Except Panic TerminalState := do
  let x := if moveToFirstColumn then t.leftAndRightMargins.start else t.cursor.x
  let y := t.cursor.y
  if y = t.topAndBottomMargins.stop - 1 then
    let t ← t.scrollUp graphemes 1
    return t.setCursorPos (.absolute x) (.absolute y)
  else
    return t.setCursorPos (.absolute x) (.absolute (y + 1))

def freshLine (graphemes : Graphemes) (t : TerminalState) : Except Panic TerminalState :=
  if t.cursor.x = t.leftAndRightMargins.start then .ok t else t.newLine graphemes true

def c1Index (graphemes : Graphemes) (t : TerminalState) : Except Panic TerminalState :=
  if t.betweenMargins then
    if t.cursor.y = t.topAndBottomMargins.stop - 1 then t.scrollUp graphemes 1
    else .ok (t.setCursorPos (.relative 0) (.relative 1))
  else .ok t

def c1Nel (graphemes : Graphemes) (t : TerminalState) : Except Panic TerminalState :=
  let yClamp := if t.withinRegion then t.topAndBottomMargins.stop - 1
    else (t.active.physicalRows : Int) - 1
  let left := t.leftAndRightMargins.start
  if t.betweenMargins then
    if t.cursor.y = t.topAndBottomMargins.stop - 1 then
      (t.scrollUp graphemes 1).map fun t => t.setCursorPositionAbsolute left t.cursor.y
    else .ok (t.setCursorPositionAbsolute left (min (t.cursor.y + 1) yClamp))
  else
    -- outside the margins it moves, but does not scroll
    .ok (t.setCursorPositionAbsolute (if t.cursor.x < left then t.cursor.x else left)
      (min (t.cursor.y + 1) yClamp))

def c1Hts (t : TerminalState) : Except Panic TerminalState :=
  (t.tabs.setTabStop t.cursor.x).map fun tabs => { t with tabs := tabs }

def c0HorizontalTab (t : TerminalState) : Except Panic TerminalState :=
  if t.leftAndRightMargins.stop = 0 then .error .arithmetic
  else
    let last := t.leftAndRightMargins.stop - 1
    let x := (t.tabs.findNextTabStop t.cursor.x).getD last
    .ok { t with cursor := { t.cursor with x := min x last } }

def c1ReverseIndex (graphemes : Graphemes) (t : TerminalState) :
    Except Panic TerminalState :=
  if t.betweenMargins then
    if t.cursor.y = t.topAndBottomMargins.start then t.scrollDown graphemes 1
    else .ok (t.setCursorPos (.relative 0) (.relative (-1)))
  else .ok t

end TerminalState

/-! ## Pasting -/

inductive NewlineCanon where
  | none | lineFeed | carriageReturn | carriageReturnAndLineFeed

namespace NewlineCanon

def target : NewlineCanon → Option (List UInt8)
  | none => .none
  | lineFeed => some [10]
  | carriageReturn => some [13]
  | carriageReturnAndLineFeed => some [13, 10]

/-- The loop of `canonicalize`; a line feed may belong to the carriage return before it. -/
def canonicalizeTo (canon : List UInt8) : Bool → List UInt8 → List UInt8
  | _, [] => []
  | afterReturn, c :: text =>
    if c = 10 then
      (if afterReturn then [] else canon) ++ canonicalizeTo canon false text
    else if c = 13 then canon ++ canonicalizeTo canon true text
    else c :: canonicalizeTo canon false text

def canonicalize (canon : NewlineCanon) (text : List UInt8) : List UInt8 :=
  match canon.target with
  | .none => text
  | some canon => canonicalizeTo canon false text

end NewlineCanon

/-- The escape character. -/
def esc : UInt8 := 0x1b

/-- `[200~`. -/
def pasteStartTail : List UInt8 := [0x5b, 0x32, 0x30, 0x30, 0x7e]

/-- `[201~`. -/
def pasteEndTail : List UInt8 := [0x5b, 0x32, 0x30, 0x31, 0x7e]

/-- The marker in front of a paste. -/
def pasteStart : List UInt8 := esc :: pasteStartTail

/-- The marker behind a paste. -/
def pasteEnd : List UInt8 := esc :: pasteEndTail

def pasteBytes (bracketedPaste : Bool) (newlines : NewlineCanon) (text : List UInt8) :
    List UInt8 :=
  let canon := (if bracketedPaste then NewlineCanon.none else newlines).canonicalize text
  let deFanged := remove pasteEnd (remove pasteStart canon)
  (if bracketedPaste then pasteStart else []) ++ deFanged ++
    (if bracketedPaste then pasteEnd else [])

end Wakterm.Term
