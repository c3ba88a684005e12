import Wakterm.Term.Csi

/-!
# Performing actions

`Performer` of `term/src/terminalstate/performer.rs`: the actions that the parser makes of the bytes
are performed one by one.
-/

namespace Wakterm.Term

open Wakterm.Machine

/-! ## Images -/

inductive ImageAttachStyle where
  | sixel | iterm | kitty
  deriving DecidableEq

/-- `ImageAttachParams`, with the number of cells that the image takes, and whether its padding
makes it reach into one more column or row. -/
structure ImageAttachParams where
  widthInCells : Nat
  heightInCells : Nat
  xPaddingShift : Bool
  yPaddingShift : Bool
  zIndex : Int
  imageId : Option Nat
  placementId : Option Nat
  style : ImageAttachStyle
  doNotMoveCursor : Bool
  deriving DecidableEq

namespace TerminalState

variable (graphemes : Graphemes)

/-- One cell of an image; its parts are numbered row by row. -/
def assignImageCell (params : ImageAttachParams) (x0 : Nat) (cursorY : Int) (y x : Nat)
    (t : TerminalState) : Except Panic TerminalState := do
  let col := x0 + x
  let cell := ((t.active.lines[t.active.physRow cursorY]?.map (Line.vec graphemes)).bind
    fun cells => cells[col]?).getD .blank
  let image : ImageCell :=
    ⟨y * params.widthInCells + x, params.zIndex, params.imageId, params.placementId⟩
  let attrs := match params.style with
    | .kitty => cell.attrs.attachImage image
    | .sixel | .iterm => cell.attrs.setImage image
  -- looking the cell up has made the line one of cells
  let t ← t.onScreen fun s => match s.lines[s.physRow cursorY]? with
    | none => .ok s
    | some line => .ok { s with
        lines := s.lines.set (s.physRow cursorY) (line.setCells (line.vec graphemes)) }
  t.onScreen fun s => s.setCell graphemes col cursorY { cell with attrs := attrs } t.seqno

def assignImageRow (params : ImageAttachParams) (x0 height y : Nat) (t : TerminalState) :
    Except Panic TerminalState := do
  let cursorY := if params.doNotMoveCursor then t.cursor.y + y else t.cursor.y
  let t ← rowsFrom 0 params.widthInCells (assignImageCell graphemes params x0 cursorY y) t
  if !params.doNotMoveCursor && y < height - 1 then t.newLine graphemes false else return t

/-- `assign_image_to_cells`: the state, and the rows of the placement. -/
def assignImageToCells (t : TerminalState) (params : ImageAttachParams) :
    Except Panic (TerminalState × Int × Nat) := do
  let firstRow := t.active.physToStableRowIndex (t.active.physRow t.cursor.y)
  let height := if params.doNotMoveCursor
    then min params.heightInCells (t.active.physicalRows - t.cursor.y.toNat)
    else params.heightInCells
  if params.doNotMoveCursor ∧ t.active.physicalRows < t.cursor.y.toNat then .error .arithmetic
  else
    let t ← rowsFrom 0 height (assignImageRow graphemes params t.cursor.x height) t
    let bottomRight := match params.style with
      | .kitty | .iterm => true
      | .sixel => t.sixelScrollsRight
    let t := if !params.doNotMoveCursor && bottomRight then
        t.setCursorPos (.relative (params.widthInCells + if params.xPaddingShift then 1 else 0))
          (.relative (if params.yPaddingShift then 1 else 0))
      else t
    return (t, firstRow, height)

def sixel (t : TerminalState) (params : ImageAttachParams) : Except Panic TerminalState := do
  let oldCursor := t.cursor
  let t := if t.sixelDisplayMode then { t with cursor := .origin } else t
  let params := { params with
    style := .sixel, imageId := none, placementId := none, doNotMoveCursor := t.sixelDisplayMode }
  let (t, _, _) ← t.assignImageToCells graphemes params
  return if t.sixelDisplayMode then { t with cursor := oldCursor } else t

def kittyRemovePlacement (t : TerminalState) (imageId : Nat) (placementId : Option Nat) :
    Except Panic TerminalState :=
  let selected := fun p : Placement =>
    p.imageId = imageId && (placementId.isNone || p.placementId = placementId)
  (t.placements.filter selected).foldlM (fun t p => t.removePlacement graphemes p)
    { t with placements := t.placements.filter fun p => !selected p }

/-- `kitty_img_place`, for an image that is there and that can be shown. -/
def kittyImgPlace (t : TerminalState) (imageId : Nat) (placementId : Option Nat)
    (params : ImageAttachParams) : Except Panic TerminalState := do
  let t ← if imageId ≠ 0 then t.kittyRemovePlacement graphemes imageId placementId else .ok t
  let params := { params with
    style := .kitty, imageId := some imageId, placementId := placementId }
  let (t, firstRow, rows) ← t.assignImageToCells graphemes params
  return { t with placements := ⟨imageId, placementId, firstRow, rows⟩ ::
    t.placements.filter fun p => !(p.imageId = imageId && p.placementId = placementId) }

end TerminalState

/-! ## Actions -/

inductive ControlCode where
  | lineFeed | carriageReturn | backspace | horizontalTab | hts | ind | nel | ri
  | shiftIn | shiftOut | unmodelled
  deriving DecidableEq

inductive EscCode where
  | stringTerminator | tmuxTitle | reverseIndex | index | nextLine | horizontalTabSet
  | setCharacterSetG0 (charset : CharSet) | setCharacterSetG1 (charset : CharSet)
  | decSaveCursorPosition | decRestoreCursorPosition
  | decDoubleHeightTopHalfLine | decDoubleHeightBottomHalfLine | decDoubleWidthLine
  | decSingleWidthLine | decScreenAlignmentDisplay | fullReset | unmodelled
  deriving DecidableEq

inductive Sgr where
  | reset
  | decoration (n : Nat)
  | style (n : Nat)
  deriving DecidableEq

inductive Csi where
  | sgr (sgr : Sgr)
  | cursorLeft (n : Nat)
  | cursor (cursor : Cursor)
  | edit (edit : Edit)
  | mode (set : Bool) (code : ModeCode)
  | softReset
  | checksumRectangularArea (top bottom : Nat)
  | selectCharacterPath (hint : Option ParagraphDirectionHint)
  | unmodelled
  deriving DecidableEq

/-- `ITermUnicodeVersionOp`. -/
inductive UnicodeVersionOp where
  | set (n : Nat)
  | push (label : Option String)
  | pop (label : Option String)
  deriving DecidableEq

/-- `OperatingSystemCommand`. The prompts of `FinalTermSemanticPrompt` are what they do: go to a
fresh line, set the semantic type of the pen, and keep it until the next line only. -/
inductive OperatingSystemCommand where
  | setIconNameAndWindowTitle
  | setHyperlink (link : Option Hyperlink)
  | itermFile (params : ImageAttachParams)
  | unicodeVersion (op : UnicodeVersionOp)
  | semanticPrompt (freshLine : Bool) (type : Option SemanticType) (untilEndOfLine : Bool)
  | changeColors
  | unmodelled
  deriving DecidableEq

inductive KittyImage where
  | display (imageId : Nat) (placementId : Option Nat) (params : ImageAttachParams)
  | deleteByImageId (imageId : Nat) (placementId : Option Nat)
  | deleteAll
  | unmodelled
  deriving DecidableEq

inductive Action where
  | print (c : Char)
  | printString (s : Text)
  | control (code : ControlCode)
  | deviceControl
  | operatingSystemCommand (osc : OperatingSystemCommand)
  | esc (esc : EscCode)
  | csi (csi : Csi)
  | sixel (params : ImageAttachParams)
  | xtGetTcap
  | kittyImage (img : KittyImage)
  deriving DecidableEq

/-- `Performer`: the state, and what is collected to be printed. -/
structure Performer where
  state : TerminalState
  print : Text

/-! ## Printing -/

def lineDrawing : List (Char × Char) :=
  [('\x60', '◆'), ('a', '▒'), ('b', '␉'), ('c', '␌'), ('d', '␍'), ('e', '␊'), ('f', '°'),
    ('g', '±'), ('h', '␤'), ('i', '␋'), ('j', '┘'), ('k', '┐'), ('l', '┌'), ('m', '└'),
    ('n', '┼'), ('o', '⎺'), ('p', '⎻'), ('q', '─'), ('r', '⎼'), ('s', '⎽'), ('t', '├'),
    ('u', '┤'), ('v', '┴'), ('w', '┬'), ('x', '│'), ('y', '≤'), ('z', '≥'), ('\x7b', 'π'),
    ('|', '≠'), ('\x7d', '£'), ('~', '·')]

def makesSenseToWrap (text : Text) : Bool :=
  match text with
  | [c] => if c.toNat < 0x80 then (0x21 ≤ c.toNat && c.toNat ≤ 0x7e : Bool) else true
  | _ => true

namespace TerminalState

def remapGrapheme (t : TerminalState) (g : Text) : Text :=
  match (if t.shiftOut then t.g1Charset else t.g0Charset), g with
  | .decLineDrawing, [c] => ((lineDrawing.lookup c).map fun c => [c]).getD g
  | .uk, ['#'] => ['£']
  | _, _ => g

variable (unicode : Unicode)

/-- The line that is left by a pending wrap is marked as one that goes on. -/
def markWrapped (t : TerminalState) : Except Panic TerminalState :=
  t.onScreen fun s =>
    s.modifyLine (s.physRow t.cursor.y) fun line =>
      let shouldMarkWrapped := !t.enableConptyQuirks ||
        (((line.visibleCells unicode.graphemes).getLast?.map fun c =>
          makesSenseToWrap c.text).getD false)
      .ok (if shouldMarkWrapped then line.setLastCellWasWrapped unicode.graphemes true t.seqno
        else line)

def wrapPending (t : TerminalState) : Except Panic TerminalState :=
  if t.wrapNext then t.markWrapped unicode >>= fun t => t.newLine unicode.graphemes true
  else .ok t

/-- A grapheme of some width is put where the cursor is. -/
def placeGrapheme (t : TerminalState) (g : Text) (width : Nat) : Except Panic TerminalState := do
  let x := t.cursor.x
  let y := t.cursor.y
  let margin := t.leftAndRightMargins.stop
  let t ← (if t.insert then
      t.onScreen fun s => rounds width (fun s =>
        s.insertCell unicode.graphemes x y margin t.seqno) s
    else .ok t)
  let t ← t.onScreen fun s =>
    s.setCellGrapheme unicode.graphemes x y g (width = 2) t.pen t.seqno
  if margin ≤ x + width then return { t with wrapNext := t.decAutoWrap }
  else return { t with cursor := { t.cursor with x := x + width }, wrapNext := false }

/-- The columns that a grapheme is printed with; those of no width that are not white space are
left out. -/
def printWidth (t : TerminalState) (g : Text) : Option Nat :=
  let width := (unicode.columnWidth t.unicodeVersion g).val
  if width = 0 then (if unicode.isWhiteSpaceGrapheme g then some 1 else none) else some width

/-- One grapheme of `flush_print`. -/
def printGrapheme (t : TerminalState) (g : Text) : Except Panic TerminalState :=
  let g := t.remapGrapheme g
  match t.printWidth unicode g with
  | none => .ok t
  | some width => t.wrapPending unicode >>= fun t => t.placeGrapheme unicode g width

end TerminalState

namespace Performer

variable (unicode : Unicode)

def flushPrint (p : Performer) : Except Panic Performer :=
  if p.print = [] then .ok p
  else
    ((unicode.graphemes (unicode.normalize p.print)).foldlM
      (fun (t : TerminalState) g => t.printGrapheme unicode g) p.state).map fun t => ⟨t, []⟩

def popTmuxTitleState (p : Performer) : Performer :=
  { p with state := { p.state with accumulatingTitle := none } }

/-- `Performer::print`. -/
def printChar (p : Performer) (c : Char) : Performer :=
  match p.state.accumulatingTitle with
  | some title => { p with state := { p.state with accumulatingTitle := some (title ++ [c]) } }
  | none => { p with print := p.print ++ [c] }

/-- What has been collected is printed, then the state changes. -/
def flushThen (p : Performer) (f : TerminalState → Except Panic TerminalState) :
    Except Panic Performer := do
  let p ← p.flushPrint unicode
  let t ← f p.state
  return { p with state := t }

end Performer

namespace TerminalState

variable (graphemes : Graphemes)

def dirtyLine (t : TerminalState) (y : Int) : TerminalState :=
  { t with screen := t.screen.setActive { t.active with
      lines := t.active.lines.modify (t.active.physRow y) fun line =>
        line.updateLastChangeSeqno t.seqno } }

def lineFeed (t : TerminalState) : Except Panic TerminalState := do
  let t ← (if t.betweenMargins then t.newLine graphemes false
    else
      -- outside the margins it moves down, but does not scroll
      let oldY := t.cursor.y
      let y := if oldY = t.topAndBottomMargins.stop - 1 then oldY
        else min (oldY + 1) (t.active.physicalRows - 1)
      let t := (t.dirtyLine oldY).dirtyLine y
      .ok { t with cursor := { t.cursor with y := y }, wrapNext := false })
  if t.newlineMode then
    return { t with cursor := { t.cursor with x := 0 } }.clearSemanticAttributeDueToMovement
  else return t

def carriageReturn (t : TerminalState) : TerminalState :=
  let x := if t.leftAndRightMargins.start ≤ t.cursor.x then t.leftAndRightMargins.start else 0
  let t := { t with cursor := { t.cursor with x := x }, wrapNext := false }
  t.clearSemanticAttributeDueToMovement.dirtyLine t.cursor.y

def backspace (t : TerminalState) : Except Panic TerminalState :=
  let reverse := t.reverseWraparoundMode && t.decAutoWrap
  let left := t.leftAndRightMargins.start
  let last := (t.leftAndRightMargins.stop : Int) - 1
  if reverse ∧ t.cursor.x = left ∧ t.cursor.y = t.topAndBottomMargins.start then
    .ok (t.setCursorPos (.absolute last) (.absolute (t.topAndBottomMargins.stop - 1)))
  else if reverse ∧ t.cursor.x ≤ left then
    .ok (t.setCursorPos (.absolute last) (.relative (-1)))
  else if reverse ∧ t.leftAndRightMargins.stop = 0 then .error .arithmetic
  else if reverse ∧ t.cursor.x = last ∧ t.wrapNext then .ok { t with wrapNext := false }
  else if t.cursor.x = left then .ok t
  else .ok (t.setCursorPos (.relative (-1)) (.relative 0))

def control (t : TerminalState) : ControlCode → Except Panic TerminalState
  | .lineFeed => t.lineFeed graphemes
  | .carriageReturn => .ok t.carriageReturn
  | .backspace => t.backspace
  | .horizontalTab => t.c0HorizontalTab
  | .hts => t.c1Hts
  | .ind => t.c1Index graphemes
  | .nel => t.c1Nel graphemes
  | .ri => t.c1ReverseIndex graphemes
  | .shiftIn => .ok { t with shiftOut := false }
  | .shiftOut => .ok { t with shiftOut := true }
  | .unmodelled => .ok t

def performCsiSgr (t : TerminalState) : Sgr → TerminalState
  | .reset => { t with pen := { CellAttributes.blank with
      hyperlink := t.pen.hyperlink, semanticType := t.pen.semanticType } }
  | .decoration n => { t with pen := { t.pen with decoration := n } }
  | .style n => { t with pen := { t.pen with style := n } }

def csiDispatch (t : TerminalState) : Csi → Except Panic TerminalState
  | .sgr sgr => .ok (t.performCsiSgr sgr)
  | .cursorLeft n => rounds n backspace t
  | .cursor cursor => t.performCsiCursor cursor
  | .edit edit => t.performCsiEdit graphemes edit
  | .mode set code => t.performCsiMode graphemes set code
  | .softReset => t.softReset graphemes
  | .checksumRectangularArea top bottom =>
    if t.config.enableChecksumRectangularArea then t.checksumRectangle top bottom else .ok t
  | .selectCharacterPath hint => .ok { t with bidiHint := hint }
  | .unmodelled => .ok t

def setLineBits (t : TerminalState) (f : LineBits → LineBits) : Except Panic TerminalState :=
  t.onScreen fun s => s.modifyLine (s.physRow t.cursor.y) fun line =>
    .ok ({ line with bits := f line.bits }.updateLastChangeSeqno t.seqno)

def decScreenAlignmentDisplay (t : TerminalState) : Except Panic TerminalState := do
  let cols := t.active.physicalCols
  let t ← t.onScreen fun s => rowsFrom 0 s.physicalRows (fun y s =>
    s.modifyLine (s.physRow y) fun line =>
      .ok ((line.resize graphemes cols t.seqno).fillRange graphemes 0 cols
        (.newGraphemeWithWidth ['E'] false .blank) t.seqno)) s
  return { t.resetMargins with cursor := .origin }

def escDispatch (t : TerminalState) : EscCode → Except Panic TerminalState
  | .stringTerminator => .ok { t with accumulatingTitle := none }
  | .tmuxTitle => .ok { t with accumulatingTitle := some [] }
  | .reverseIndex => t.c1ReverseIndex graphemes
  | .index => t.c1Index graphemes
  | .nextLine => t.c1Nel graphemes
  | .horizontalTabSet => t.c1Hts
  | .setCharacterSetG0 charset => .ok { t with g0Charset := charset }
  | .setCharacterSetG1 charset => .ok { t with g1Charset := charset }
  | .decSaveCursorPosition => .ok t.decSaveCursor
  | .decRestoreCursorPosition => .ok t.decRestoreCursor
  | .decDoubleHeightTopHalfLine => t.setLineBits fun bits =>
    { bits with doubleHeightBottom := false, doubleWidth := true, doubleHeightTop := true }
  | .decDoubleHeightBottomHalfLine => t.setLineBits fun bits =>
    { bits with doubleHeightTop := false, doubleWidth := true, doubleHeightBottom := true }
  | .decDoubleWidthLine => t.setLineBits fun bits =>
    { bits with doubleHeightTop := false, doubleHeightBottom := false, doubleWidth := true }
  | .decSingleWidthLine => t.setLineBits fun bits =>
    { bits with doubleWidth := false, doubleHeightTop := false, doubleHeightBottom := false }
  | .decScreenAlignmentDisplay => t.decScreenAlignmentDisplay graphemes
  | .fullReset => t.fullReset graphemes
  | .unmodelled => .ok t

/-- Versions are popped until the one with the label. -/
def popUnicodeVersion (label : String) (version : Nat) :
    List (Nat × Option String) → Nat × List (Nat × Option String)
  | [] => (version, [])
  | (v, l) :: stack => if l = some label then (v, stack) else popUnicodeVersion label v stack

def oscDispatch (t : TerminalState) : OperatingSystemCommand → Except Panic TerminalState
  | .setIconNameAndWindowTitle => .ok t
  | .setHyperlink link => .ok { t with pen := { t.pen with hyperlink := link } }
  | .itermFile params => do
      let params := { params with style := .iterm, imageId := none, placementId := none }
      let (t, _, _) ← t.assignImageToCells graphemes params
      return t
  | .unicodeVersion (.set n) => .ok { t with unicodeVersion := n }
  | .unicodeVersion (.push label) => .ok { t with
      unicodeVersionStack := (t.unicodeVersion, label) :: t.unicodeVersionStack }
  | .unicodeVersion (.pop none) => .ok (match t.unicodeVersionStack with
      | [] => t
      | (v, _) :: stack => { t with unicodeVersion := v, unicodeVersionStack := stack })
  | .unicodeVersion (.pop (some label)) =>
    let (v, stack) := popUnicodeVersion label t.unicodeVersion t.unicodeVersionStack
    .ok { t with unicodeVersion := v, unicodeVersionStack := stack }
  | .semanticPrompt fresh type untilEndOfLine => do
      let t ← (if fresh then t.freshLine graphemes else .ok t)
      return { t with
        pen := { t.pen with semanticType := type.getD t.pen.semanticType }
        clearSemanticAttributeOnNewline := t.clearSemanticAttributeOnNewline || untilEndOfLine }
  | .changeColors => .ok t.makeAllLinesDirty
  | .unmodelled => .ok t

def kittyImg (t : TerminalState) : KittyImage → Except Panic TerminalState
  | .display imageId placementId params => t.kittyImgPlace graphemes imageId placementId params
  | .deleteByImageId imageId placementId => t.kittyRemovePlacement graphemes imageId placementId
  | .deleteAll => t.removeAllPlacements graphemes
  | .unmodelled => .ok t

end TerminalState

namespace Performer

variable (unicode : Unicode)

def perform (p : Performer) (action : Action) : Except Panic Performer :=
  let suppressed : Bool := p.state.suppressInitialTitleChange &&
    action = .operatingSystemCommand .setIconNameAndWindowTitle
  if suppressed then
    .ok { p with state := { p.state with suppressInitialTitleChange := false } }
  else
    match action with
    | .print c => .ok (p.printChar c)
    | .printString s => .ok (s.foldl printChar p)
    | .control code =>
      p.popTmuxTitleState.flushThen unicode fun t => t.control unicode.graphemes code
    | .deviceControl => .ok p.popTmuxTitleState
    | .operatingSystemCommand osc =>
      p.popTmuxTitleState.flushThen unicode fun t => t.oscDispatch unicode.graphemes osc
    | .esc esc => p.flushThen unicode fun t =>
      -- the terminator of a title does not drop it
      (if esc = .stringTerminator then t else { t with accumulatingTitle := none }).escDispatch
        unicode.graphemes esc
    | .csi csi => p.popTmuxTitleState.flushThen unicode fun t =>
      t.csiDispatch unicode.graphemes csi
    | .sixel params => (p.state.sixel unicode.graphemes params).map fun t => { p with state := t }
    | .xtGetTcap => .ok p
    | .kittyImage img => p.flushThen unicode fun t => t.kittyImg unicode.graphemes img

end Performer

namespace TerminalState

variable (unicode : Unicode)

def performActions (t : TerminalState) (actions : List Action) : Except Panic TerminalState := do
  let p ← actions.foldlM (fun (p : Performer) action => p.perform unicode action)
    ⟨{ t with seqno := t.seqno + 1 }, []⟩
  let p ← p.flushPrint unicode
  return p.state

/-- `ScreenOrAlt::resize` and the cursors of both screens. -/
def resize (t : TerminalState) (size : TerminalSize) : TerminalState :=
  let t := { t with seqno := t.seqno + 1 }
  let saved := fun s : Option SavedCursor => (s.map SavedCursor.position).getD .origin
  let cursorMain := if t.screen.altScreenIsActive then saved t.screen.savedCursor else t.cursor
  let cursorAlt := if t.screen.altScreenIsActive then t.cursor else saved t.screen.altSavedCursor
  let (screen, adjustedMain) := t.screen.screen.resize unicode.graphemes size cursorMain t.seqno
    t.enableConptyQuirks
  let (altScreen, adjustedAlt) := t.screen.altScreen.resize unicode.graphemes size cursorAlt
    t.seqno t.enableConptyQuirks
  let t := { t with
    screen := { t.screen with screen := screen, altScreen := altScreen }
    topAndBottomMargins := ⟨0, size.rows⟩
    leftAndRightMargins := ⟨0, size.cols⟩
    tabs := t.tabs.resize size.cols }
  let adjust := fun (adjusted : CursorPosition) (s : SavedCursor) =>
    { s with position := adjusted, wrapNext := false }
  if t.screen.altScreenIsActive then
    let t := t.setCursorPos (.absolute adjustedAlt.x) (.absolute adjustedAlt.y)
    { t with screen := { t.screen with
        savedCursor := t.screen.savedCursor.map (adjust adjustedMain) } }
  else
    let t := t.setCursorPos (.absolute adjustedMain.x) (.absolute adjustedMain.y)
    { t with screen := { t.screen with
        altSavedCursor := t.screen.altSavedCursor.map (adjust adjustedAlt) } }

end TerminalState

end Wakterm.Term
