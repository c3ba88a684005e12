import Wakterm.Term.Logic.Twin
import Wakterm.Term.Performer

/-!
# Terminals that differ in their numbers only

Two terminals are twins if they differ in the numbers of the changes, in the rows that were counted
off, and in the placements of images.
-/

namespace Wakterm.Term

open Wakterm.Machine

def SavedCursor.home : SavedCursor := ⟨.origin, false, .blank, false, .ascii, .ascii⟩

/-- Both screens are the same but for the numbers, and so is what a saved cursor restores. -/
structure ScreenOrAlt.Twin (s s' : ScreenOrAlt) : Prop where
  screen : s.screen.Twin s'.screen
  altScreen : s.altScreen.Twin s'.altScreen
  saved : s'.savedCursor.getD .home = s.savedCursor.getD .home
  altSaved : s'.altSavedCursor.getD .home = s.altSavedCursor.getD .home
  shown : s'.altScreenIsActive = s.altScreenIsActive

inductive TerminalState.Twin (t : TerminalState) : TerminalState → Prop
  | mk {screen' : ScreenOrAlt} {seqno' : Nat} {placements' : List Placement}
      (h : t.screen.Twin screen') :
      Twin t { t with screen := screen', seqno := seqno', placements := placements' }

namespace ScreenOrAlt

variable {s s' : ScreenOrAlt}

theorem Twin.active (h : s.Twin s') : s.active.Twin s'.active := by
  unfold ScreenOrAlt.active
  rw [h.shown]
  split
  · exact h.altScreen
  · exact h.screen

theorem Twin.setActive (h : s.Twin s') {screen screen' : Screen} (hs : screen.Twin screen') :
    (s.setActive screen).Twin (s'.setActive screen') := by
  unfold ScreenOrAlt.setActive
  rw [h.shown]
  split
  · exact ⟨h.screen, hs, h.saved, h.altSaved, rfl⟩
  · exact ⟨hs, h.altScreen, h.saved, h.altSaved, rfl⟩

theorem Twin.dirtyTopPhysRows (h : s.Twin s') (seqno seqno' : Nat) :
    Both Twin (s.dirtyTopPhysRows seqno) (s'.dirtyTopPhysRows seqno') := by
  unfold ScreenOrAlt.dirtyTopPhysRows
  rw [h.screen.rows]
  refine (h.screen.touchRows _ _).map fun screen screen' hs => ?_
  exact ⟨hs, h.altScreen, h.saved, h.altSaved, h.shown⟩

theorem Twin.show (h : s.Twin s') (alt : Bool) :
    Twin { s with altScreenIsActive := alt } { s' with altScreenIsActive := alt } :=
  ⟨h.screen, h.altScreen, h.saved, h.altSaved, rfl⟩

theorem Twin.activeSaved (h : s.Twin s') :
    s'.activeSavedCursor.getD .home = s.activeSavedCursor.getD .home := by
  unfold ScreenOrAlt.activeSavedCursor
  rw [h.shown]
  split
  · exact h.altSaved
  · exact h.saved

theorem Twin.setSavedCursor (h : s.Twin s') (saved : Option SavedCursor) :
    (s.setSavedCursor saved).Twin (s'.setSavedCursor saved) := by
  unfold ScreenOrAlt.setSavedCursor
  rw [h.shown]
  split
  · exact ⟨h.screen, h.altScreen, h.saved, rfl, rfl⟩
  · exact ⟨h.screen, h.altScreen, rfl, h.altSaved, rfl⟩

end ScreenOrAlt

namespace TerminalState

variable {graphemes : Graphemes} {unicode : Unicode} {t t' : TerminalState}
  (h : t.Twin t')

include h

theorem Twin.update {f : TerminalState → TerminalState}
    (hf : ∀ (t : TerminalState) screen seqno placements,
      f { t with screen := screen, seqno := seqno, placements := placements } =
        { f t with screen := screen, seqno := seqno, placements := placements })
    (hscreen : (f t).screen = t.screen) : (f t).Twin (f t') := by
  obtain @⟨screen', seqno', placements', hs⟩ := h
  rw [hf t screen' seqno' placements']
  refine .mk ?_
  rw [hscreen]
  exact hs

/-! ## The screen that is shown -/

theorem Twin.screen : t.screen.Twin t'.screen := by
  obtain ⟨hs⟩ := h
  exact hs

theorem Twin.active : t.active.Twin t'.active := h.screen.active

theorem Twin.cols : t'.active.physicalCols = t.active.physicalCols := h.active.cols

theorem Twin.rows : t'.active.physicalRows = t.active.physicalRows := h.active.rows

theorem Twin.onScreen {f g : Screen → Except Panic Screen}
    (hfg : Both Screen.Twin (f t.active) (g t'.active)) :
    Both Twin (t.onScreen f) (t'.onScreen g) := by
  refine hfg.map fun screen screen' hs => ?_
  obtain ⟨hscreen⟩ := h
  exact .mk (hscreen.setActive hs)

/-! ## The cursor -/

theorem Twin.cursor : t'.cursor = t.cursor := by
  obtain ⟨hs⟩ := h
  rfl

theorem Twin.clearSemantic :
    t.clearSemanticAttributeDueToMovement.Twin t'.clearSemanticAttributeDueToMovement := by
  obtain ⟨hs⟩ := h
  unfold clearSemanticAttributeDueToMovement
  dsimp only
  split
  · exact .mk hs
  · exact .mk hs

theorem Twin.setCursorPositionAbsolute (x : Nat) (y : Int) :
    (t.setCursorPositionAbsolute x y).Twin (t'.setCursorPositionAbsolute x y) := by
  have hclear : (if t.cursor.y ≠ y then t.clearSemanticAttributeDueToMovement else t).Twin
      (if t'.cursor.y ≠ y then t'.clearSemanticAttributeDueToMovement else t') := by
    rw [h.cursor]
    split
    · exact h.clearSemantic
    · exact h
  exact hclear.update (f := fun t => { t with cursor := ⟨x, y⟩, wrapNext := false })
    (fun _ _ _ _ => rfl) rfl

theorem Twin.cursorColumn (x : Position) : t'.cursorColumn x = t.cursorColumn x := by
  have hcols := h.cols
  obtain ⟨hs⟩ := h
  cases x with
  | absolute x =>
    unfold TerminalState.cursorColumn
    dsimp only
    rw [hcols]
  | relative x =>
    unfold TerminalState.cursorColumn
    dsimp only
    rw [hcols]

theorem Twin.cursorRow (y : Position) : t'.cursorRow y = t.cursorRow y := by
  have hrows := h.rows
  obtain ⟨hs⟩ := h
  cases y with
  | absolute y =>
    unfold TerminalState.cursorRow
    dsimp only
    rw [hrows]
  | relative y =>
    unfold TerminalState.cursorRow
    dsimp only
    rw [hrows]

theorem Twin.setCursorPos (x y : Position) : (t.setCursorPos x y).Twin (t'.setCursorPos x y) := by
  unfold TerminalState.setCursorPos
  rw [h.cursorColumn, h.cursorRow]
  exact h.setCursorPositionAbsolute _ _

theorem Twin.bidi : t'.getBidiMode = t.getBidiMode := by
  obtain ⟨hs⟩ := h
  rfl

theorem Twin.scrollUp (numRows : Nat) :
    Both Twin (t.scrollUp graphemes numRows) (t'.scrollUp graphemes numRows) := by
  have hactive := h.active
  refine h.onScreen ?_
  obtain ⟨hs⟩ := h
  exact hactive.scrollUpWithinMargins _ _ _ _ _

theorem Twin.scrollDown (numRows : Nat) :
    Both Twin (t.scrollDown graphemes numRows) (t'.scrollDown graphemes numRows) := by
  have hactive := h.active
  refine h.onScreen ?_
  obtain ⟨hs⟩ := h
  exact hactive.scrollDownWithinMargins _ _ _ _ _

theorem Twin.columns : t'.leftAndRightMargins = t.leftAndRightMargins := by
  obtain ⟨hs⟩ := h
  rfl

theorem Twin.region : t'.topAndBottomMargins = t.topAndBottomMargins := by
  obtain ⟨hs⟩ := h
  rfl

theorem Twin.withRegion (margins : Span Int) :
    Twin { t with topAndBottomMargins := margins } { t' with topAndBottomMargins := margins } :=
  h.update (f := fun t => { t with topAndBottomMargins := margins }) (fun _ _ _ _ => rfl) rfl

theorem Twin.betweenMargins : t'.betweenMargins = t.betweenMargins := by
  obtain ⟨hs⟩ := h
  rfl

theorem Twin.withinRegion : t'.withinRegion = t.withinRegion := by
  obtain ⟨hs⟩ := h
  rfl

theorem Twin.newLine (moveToFirstColumn : Bool) :
    Both Twin (t.newLine graphemes moveToFirstColumn) (t'.newLine graphemes moveToFirstColumn) := by
  unfold TerminalState.newLine
  dsimp only
  rw [h.cursor, h.columns, h.region]
  split
  · exact (h.scrollUp 1).bind fun _ _ hs => .ok (hs.setCursorPos _ _)
  · exact .ok (h.setCursorPos _ _)

theorem Twin.freshLine : Both Twin (t.freshLine graphemes) (t'.freshLine graphemes) := by
  unfold TerminalState.freshLine
  rw [h.cursor, h.columns]
  split
  · exact .ok h
  · exact h.newLine true

theorem Twin.c1Index : Both Twin (t.c1Index graphemes) (t'.c1Index graphemes) := by
  unfold TerminalState.c1Index
  rw [h.betweenMargins, h.cursor, h.region]
  split
  · split
    · exact h.scrollUp 1
    · exact .ok (h.setCursorPos _ _)
  · exact .ok h

theorem Twin.c1Nel : Both Twin (t.c1Nel graphemes) (t'.c1Nel graphemes) := by
  unfold TerminalState.c1Nel
  dsimp only
  rw [h.betweenMargins, h.cursor, h.region, h.columns, h.withinRegion, h.rows]
  split
  · split
    · refine (h.scrollUp 1).map fun s s' hs => ?_
      rw [hs.cursor]
      exact hs.setCursorPositionAbsolute _ _
    · exact .ok (h.setCursorPositionAbsolute _ _)
  · exact .ok (h.setCursorPositionAbsolute _ _)

theorem Twin.c1Hts : Both Twin t.c1Hts t'.c1Hts := by
  obtain ⟨hs⟩ := h
  unfold TerminalState.c1Hts
  dsimp only
  generalize t.tabs.setTabStop t.cursor.x = tabs
  cases tabs with
  | error e => exact .error e
  | ok tabs => exact .ok (.mk hs)

theorem Twin.c0HorizontalTab : Both Twin t.c0HorizontalTab t'.c0HorizontalTab := by
  obtain ⟨hs⟩ := h
  unfold TerminalState.c0HorizontalTab
  dsimp only
  split
  · exact .error _
  · exact .ok (.mk hs)

theorem Twin.c1ReverseIndex :
    Both Twin (t.c1ReverseIndex graphemes) (t'.c1ReverseIndex graphemes) := by
  unfold TerminalState.c1ReverseIndex
  rw [h.betweenMargins, h.cursor, h.region]
  split
  · split
    · exact h.scrollDown 1
    · exact .ok (h.setCursorPos _ _)
  · exact .ok h

/-! ## Edits -/

theorem Twin.pen : t'.pen = t.pen := by
  obtain ⟨hs⟩ := h
  rfl

theorem Twin.wrapNext : t'.wrapNext = t.wrapNext := by
  obtain ⟨hs⟩ := h
  rfl

theorem Twin.eraseInLine (erase : EraseInLine) :
    Both Twin (t.eraseInLine graphemes erase) (t'.eraseInLine graphemes erase) := by
  have hactive := h.active
  unfold TerminalState.eraseInLine
  cases erase with
  | toEndOfLine =>
    dsimp only
    rw [h.cursor, h.wrapNext, h.cols, h.pen, h.bidi]
    exact h.onScreen (hactive.clearLine _ _ _ _)
  | toStartOfLine =>
    dsimp only
    rw [h.cursor, h.pen, h.bidi]
    exact h.onScreen (hactive.clearLine _ _ _ _)
  | line =>
    dsimp only
    rw [h.cursor, h.cols, h.pen, h.bidi]
    exact h.onScreen (hactive.clearLine _ _ _ _)

theorem Twin.eraseRow (y : Nat) {s s' : Screen} (hs : s.Twin s') :
    Both Screen.Twin (t.eraseRow graphemes y s) (t'.eraseRow graphemes y s') := by
  unfold TerminalState.eraseRow
  rw [h.cols, h.pen, h.bidi]
  refine (hs.clearLine _ _ _ _).bind fun s1 s1' h1 => ?_
  rw [h1.physRow]
  exact h1.modifyLine _ fun line line' hline => .ok (hline.setSingleWidth _ _)

theorem Twin.eraseRows (start stop : Int) :
    Both Twin (t.eraseRows graphemes start stop) (t'.eraseRows graphemes start stop) :=
  h.onScreen (both_rowsFrom (fun y _ _ hs => h.eraseRow y hs) h.active)

theorem Twin.eraseInDisplay (erase : EraseInDisplay) :
    Both Twin (t.eraseInDisplay graphemes erase) (t'.eraseInDisplay graphemes erase) := by
  unfold TerminalState.eraseInDisplay
  rw [h.cursor, h.rows]
  cases erase with
  | toEndOfDisplay => exact (h.eraseInLine _).bind fun _ _ h1 => h1.eraseRows _ _
  | toStartOfDisplay => exact (h.eraseInLine _).bind fun _ _ h1 => h1.eraseRows _ _
  | display => exact h.eraseRows _ _
  | scrollback => exact h.onScreen h.active.eraseScrollback

/-- Twins, with a column and a row. -/
def Placed (p p' : TerminalState × Nat × Int) : Prop := p.1.Twin p'.1 ∧ p'.2 = p.2

theorem Twin.repeatOnce (cell : Cell) (x : Nat) (y : Int) :
    Both Placed (repeatOnce graphemes cell (t, x, y)) (repeatOnce graphemes cell (t', x, y)) := by
  unfold TerminalState.repeatOnce
  refine (h.onScreen (h.active.setCell _ _ _)).bind fun t1 t1' h1 => ?_
  rw [h1.columns, h1.region]
  split
  · exact .error _
  · split
    · dsimp only
      split
      · exact (h1.scrollUp 1).bind fun _ _ h2 => .ok ⟨h2, rfl⟩
      · exact .ok ⟨h1, rfl⟩
    · exact .ok ⟨h1, rfl⟩

theorem Twin.repeatCell (n : Nat) :
    Both Twin (t.repeatCell graphemes n) (t'.repeatCell graphemes n) := by
  unfold TerminalState.repeatCell
  have hline := forall₂_getElem? h.active.lines (t.active.physRow t.cursor.y)
  rw [h.cursor]
  dsimp only
  rw [h.active.physRow]
  generalize t.active.lines[t.active.physRow t.cursor.y]? = line at hline ⊢
  generalize t'.active.lines[t.active.physRow t.cursor.y]? = line' at hline ⊢
  cases hline with
  | none => exact .error _
  | some htwin =>
    dsimp only
    rw [htwin.vec]
    refine Both.bind (R := Twin) ?_ fun t1 t1' h1 => ?_
    · refine h.onScreen ?_
      rw [h.active.physRow]
      exact h.active.vecLine _
    · refine Both.bind (R := Placed) ?_ fun p p' hp => ?_
      · refine both_rounds ?_ ⟨h1, rfl⟩
        rintro ⟨t2, x, y⟩ ⟨t2', x', y'⟩ ⟨h2, hxy⟩
        obtain ⟨rfl, rfl⟩ := Prod.mk.inj hxy
        exact h2.repeatOnce _ _ _
      · obtain ⟨t2, x, y⟩ := p
        obtain ⟨t2', x', y'⟩ := p'
        obtain ⟨h2, hxy⟩ := hp
        obtain ⟨rfl, rfl⟩ := Prod.mk.inj hxy
        exact .ok (h2.update (f := fun t => { t with cursor := ⟨x', y'⟩ }) (fun _ _ _ _ => rfl) rfl)

theorem Twin.performCsiEdit (edit : Edit) :
    Both Twin (t.performCsiEdit graphemes edit) (t'.performCsiEdit graphemes edit) := by
  cases edit with
  | deleteCharacter n =>
    unfold TerminalState.performCsiEdit
    dsimp only
    rw [h.betweenMargins, h.cursor, h.columns, h.pen]
    split
    · exact h.onScreen (both_rounds (fun _ _ hs => hs.eraseCell _ _ _ _) h.active)
    · exact .ok h
  | deleteLine n =>
    unfold TerminalState.performCsiEdit
    dsimp only
    rw [h.betweenMargins, h.withinRegion, h.cursor, h.columns, h.region, h.pen, h.bidi]
    split
    · exact h.onScreen (h.active.scrollUpWithinMargins _ _ _ _ _)
    · exact .ok h
  | eraseCharacter n =>
    unfold TerminalState.performCsiEdit
    dsimp only
    rw [h.cursor, h.cols, h.pen]
    exact h.onScreen (both_rowsFrom (fun _ _ _ hs => hs.setCell _ _ _) h.active)
  | eraseInLine erase => exact h.eraseInLine erase
  | insertCharacter n =>
    unfold TerminalState.performCsiEdit
    dsimp only
    rw [h.betweenMargins, h.withinRegion, h.cursor, h.columns]
    split
    · exact h.onScreen (both_rounds (fun _ _ hs => hs.insertCell _ _ _) h.active)
    · exact .ok h
  | insertLine n =>
    unfold TerminalState.performCsiEdit
    dsimp only
    rw [h.betweenMargins, h.withinRegion, h.cursor, h.columns, h.region, h.pen, h.bidi]
    split
    · exact h.onScreen (h.active.scrollDownWithinMargins _ _ _ _ _)
    · exact .ok h
  | scrollDown n => exact h.scrollDown n
  | scrollUp n => exact h.scrollUp n
  | eraseInDisplay erase => exact h.eraseInDisplay erase
  | repeatCell n => exact h.repeatCell n

/-! ## Cursor sequences -/

theorem Twin.setLeftAndRightMargins (left right : Nat) :
    (t.setLeftAndRightMargins left right).Twin (t'.setLeftAndRightMargins left right) := by
  have hcols := h.cols
  obtain ⟨hs⟩ := h
  unfold TerminalState.setLeftAndRightMargins
  dsimp only
  rw [hcols]
  split
  · split
    · exact .mk hs
    · refine Twin.setCursorPos ?_ _ _
      exact .mk hs
  · exact .mk hs

theorem Twin.decSaveCursor : t.decSaveCursor.Twin t'.decSaveCursor := by
  obtain ⟨hs⟩ := h
  exact .mk (hs.setSavedCursor _)

theorem Twin.decRestoreCursor : t.decRestoreCursor.Twin t'.decRestoreCursor := by
  have hsaved := h.screen.activeSaved
  unfold TerminalState.decRestoreCursor
  dsimp only
  rw [show (⟨.origin, false, .blank, false, .ascii, .ascii⟩ : SavedCursor) = .home from rfl, hsaved]
  generalize t.screen.activeSavedCursor.getD .home = saved
  have hmoved := (h.update (f := fun t => { t with decOriginMode := false })
    (fun _ _ _ _ => rfl) rfl).setCursorPos (.absolute saved.position.x) (.absolute saved.position.y)
  exact hmoved.update (f := fun t => { t with
    wrapNext := saved.wrapNext, pen := saved.pen, decOriginMode := saved.decOriginMode
    g0Charset := saved.g0Charset, g1Charset := saved.g1Charset, shiftOut := false
    newlineMode := false }) (fun _ _ _ _ => rfl) rfl

theorem Twin.rowBelow (n : Nat) : t'.rowBelow n = t.rowBelow n := by
  unfold TerminalState.rowBelow
  rw [h.region, h.cursor, h.rows]

theorem Twin.performCsiCursor (cursor : Cursor) :
    Both Twin (t.performCsiCursor cursor) (t'.performCsiCursor cursor) := by
  unfold TerminalState.performCsiCursor
  cases cursor with
  | setTopAndBottomMargins top bottom =>
    dsimp only
    rw [h.rows]
    split
    · exact .ok h
    · exact .ok ((h.withRegion _).setCursorPos _ _)
  | setLeftAndRightMargins left right => exact .ok (h.setLeftAndRightMargins left right)
  | forwardTabulation n => exact both_rounds (fun _ _ ht => ht.c0HorizontalTab) h
  | backwardTabulation n =>
    refine both_rounds (fun s s' ht => .ok ?_) h
    have htabs : s'.tabs = s.tabs := by
      obtain ⟨hs⟩ := ht
      rfl
    rw [ht.cursor, htabs]
    exact ht.setCursorPos _ _
  | tabulationClear toClear =>
    exact .ok (h.update (f := fun t => { t with tabs := t.tabs.clear toClear t.cursor.x })
      (fun _ _ _ _ => rfl) rfl)
  | right n =>
    have hcols := h.cols
    obtain ⟨hs⟩ := h
    dsimp only
    rw [hcols]
    exact .ok (.mk hs)
  | up n =>
    obtain ⟨hs⟩ := h
    exact .ok (.mk hs)
  | down n =>
    have hrow := h.rowBelow n
    obtain ⟨hs⟩ := h
    dsimp only
    rw [hrow]
    exact .ok (.mk hs)
  | position line col => exact .ok (h.setCursorPos _ _)
  | characterAbsolute col => exact .ok (h.setCursorPos _ _)
  | characterPositionAbsolute col =>
    have hcols := h.cols
    obtain ⟨hs⟩ := h
    dsimp only
    rw [hcols]
    exact .ok (.mk hs)
  | characterPositionBackward n => exact .ok (h.setCursorPos _ _)
  | characterPositionForward n => exact .ok (h.setCursorPos _ _)
  | linePositionAbsolute line => exact .ok (h.setCursorPos _ _)
  | linePositionBackward n => exact .ok (h.setCursorPos _ _)
  | linePositionForward n => exact .ok (h.setCursorPos _ _)
  | nextLine n =>
    have hrow := h.rowBelow n
    obtain ⟨hs⟩ := h
    dsimp only
    rw [hrow]
    exact .ok (.mk hs)
  | precedingLine n =>
    obtain ⟨hs⟩ := h
    exact .ok (.mk hs)
  | saveCursor =>
    have hmode : t'.leftAndRightMarginMode = t.leftAndRightMarginMode := by
      obtain ⟨hs⟩ := h
      rfl
    dsimp only
    rw [hmode, h.cols]
    split
    · exact .ok (h.setLeftAndRightMargins _ _)
    · exact .ok h.decSaveCursor
  | restoreCursor => exact .ok h.decRestoreCursor
  | unmodelled => exact .ok h

/-! ## Modes and the reset -/

theorem Twin.resetMargins : t.resetMargins.Twin t'.resetMargins := by
  have hrows := h.rows
  have hcols := h.cols
  obtain ⟨hs⟩ := h
  unfold TerminalState.resetMargins
  rw [hrows, hcols]
  exact .mk hs

theorem Twin.activate (alt : Bool) : Both Twin (t.activate alt) (t'.activate alt) := by
  have hscreens : Both ScreenOrAlt.Twin
      (if alt then t.screen.activateAltScreen t.seqno else t.screen.activatePrimaryScreen t.seqno)
      (if alt then t'.screen.activateAltScreen t'.seqno
        else t'.screen.activatePrimaryScreen t'.seqno) := by
    split
    · exact (h.screen.show true).dirtyTopPhysRows _ _
    · exact (h.screen.show false).dirtyTopPhysRows _ _
  refine hscreens.map fun s s' hs => ?_
  obtain ⟨hold⟩ := h
  exact .mk hs

theorem Twin.shown :
    t'.screen.altScreenIsActive = t.screen.altScreenIsActive := h.screen.shown

theorem Twin.blankPen : Twin { t with pen := .blank } { t' with pen := .blank } :=
  h.update (f := fun t => { t with pen := .blank }) (fun _ _ _ _ => rfl) rfl

theorem Twin.enableAlternateScreen (set : Bool) :
    Both Twin (t.enableAlternateScreen set) (t'.enableAlternateScreen set) := by
  unfold TerminalState.enableAlternateScreen
  rw [h.shown]
  split
  · exact .ok h
  · exact (h.activate set).map fun _ _ ht => ht.blankPen

theorem Twin.optEnableAlternateScreen (set : Bool) :
    Both Twin (t.optEnableAlternateScreen graphemes set)
      (t'.optEnableAlternateScreen graphemes set) := by
  unfold TerminalState.optEnableAlternateScreen
  rw [h.shown]
  split
  · exact h.enableAlternateScreen true
  · split
    · exact (h.blankPen.eraseInDisplay _).bind fun _ _ ht => ht.activate false
    · exact .ok h

theorem Twin.clearAndEnableAlternateScreen (set : Bool) :
    Both Twin (t.clearAndEnableAlternateScreen graphemes set)
      (t'.clearAndEnableAlternateScreen graphemes set) := by
  unfold TerminalState.clearAndEnableAlternateScreen
  rw [h.shown]
  split
  · exact .ok h
  · split
    · refine (h.decSaveCursor.activate true).bind fun _ _ ht => ?_
      exact (ht.setCursorPos _ _).blankPen.eraseInDisplay _
    · exact (h.activate false).map fun _ _ ht => ht.decRestoreCursor

theorem Twin.performCsiMode (set : Bool) (code : ModeCode) :
    Both Twin (t.performCsiMode graphemes set code) (t'.performCsiMode graphemes set code) := by
  unfold TerminalState.performCsiMode
  cases code with
  | reverseWraparound =>
    exact .ok (h.update (f := fun t => { t with reverseWraparoundMode := set })
      (fun _ _ _ _ => rfl) rfl)
  | leftRightMarginMode =>
    dsimp only
    split
    · exact .ok (h.update (f := fun t => { t with leftAndRightMarginMode := true })
        (fun _ _ _ _ => rfl) rfl)
    · have hcols := h.cols
      obtain ⟨hs⟩ := h
      rw [hcols]
      exact .ok (.mk hs)
  | saveCursor =>
    dsimp only
    split
    · exact .ok h.decSaveCursor
    · exact .ok h.decRestoreCursor
  | autoWrap =>
    exact .ok (h.update (f := fun t => { t with decAutoWrap := set }) (fun _ _ _ _ => rfl) rfl)
  | originMode =>
    exact .ok ((h.update (f := fun t => { t with decOriginMode := set })
      (fun _ _ _ _ => rfl) rfl).setCursorPos _ _)
  | select132Columns => exact (h.resetMargins.setCursorPos _ _).eraseInDisplay _
  | biDirectionalSupportMode =>
    exact .ok (h.update (f := fun t => { t with bidiEnabled := some set })
      (fun _ _ _ _ => rfl) rfl)
  | insert =>
    exact .ok (h.update (f := fun t => { t with insert := set }) (fun _ _ _ _ => rfl) rfl)
  | automaticNewline =>
    exact .ok (h.update (f := fun t => { t with newlineMode := set }) (fun _ _ _ _ => rfl) rfl)
  | enableAlternateScreen => exact h.enableAlternateScreen set
  | optEnableAlternateScreen => exact h.optEnableAlternateScreen set
  | clearAndEnableAlternateScreen => exact h.clearAndEnableAlternateScreen set
  | sixelDisplayMode =>
    exact .ok (h.update (f := fun t => { t with sixelDisplayMode := set })
      (fun _ _ _ _ => rfl) rfl)
  | sixelScrollsRight =>
    exact .ok (h.update (f := fun t => { t with sixelScrollsRight := set })
      (fun _ _ _ _ => rfl) rfl)
  | unmodelled => exact .ok h

theorem Twin.makeAllLinesDirty : t.makeAllLinesDirty.Twin t'.makeAllLinesDirty := by
  have hactive := h.active
  obtain ⟨hs⟩ := h
  refine .mk (hs.setActive (hactive.withLines _ _ ?_))
  refine List.rel_map ?_ hactive.lines
  intro line line' hline
  exact hline.update _ _

theorem Twin.fullResetState : t.fullResetState.Twin t'.fullResetState := by
  have hrows := h.rows
  have hcols := h.cols
  obtain ⟨hs⟩ := h
  unfold TerminalState.fullResetState TerminalState.resetMargins
  dsimp only
  rw [hrows, hcols]
  exact .mk hs

theorem Twin.fullReset : Both Twin (t.fullReset graphemes) (t'.fullReset graphemes) := by
  unfold TerminalState.fullReset
  refine (h.fullResetState.activate true).bind fun _ _ h1 => ?_
  refine (h1.eraseInDisplay _).bind fun _ _ h2 => ?_
  refine (h2.activate false).bind fun _ _ h3 => ?_
  refine (h3.eraseInDisplay _).bind fun _ _ h4 => ?_
  exact (h4.eraseInDisplay _).bind fun _ _ h5 => .ok h5.makeAllLinesDirty

theorem Twin.checksumRectangle (top bottom : Nat) :
    Both Twin (t.checksumRectangle top bottom) (t'.checksumRectangle top bottom) := by
  have horigin : t'.decOriginMode = t.decOriginMode := by
    obtain ⟨hs⟩ := h
    rfl
  unfold TerminalState.checksumRectangle
  dsimp only
  rw [horigin, h.region]
  refine both_rowsFrom (fun y s s' hs => ?_) h
  rw [hs.active.physRow]
  generalize s.active.physRow _ = idx
  have hline := forall₂_getElem? hs.active.lines idx
  generalize s.active.lines[idx]? = line at hline ⊢
  generalize s'.active.lines[idx]? = line' at hline ⊢
  cases hline with
  | none => exact .error _
  | some htwin => exact .ok hs

/-! ## Printing -/

theorem Twin.remapGrapheme (g : Text) : t'.remapGrapheme g = t.remapGrapheme g := by
  obtain ⟨hs⟩ := h
  rfl

theorem Twin.printWidth (g : Text) : t'.printWidth unicode g = t.printWidth unicode g := by
  obtain ⟨hs⟩ := h
  rfl

theorem Twin.markWrapped : Both Twin (t.markWrapped unicode) (t'.markWrapped unicode) := by
  have hquirks : t'.enableConptyQuirks = t.enableConptyQuirks := by
    obtain ⟨hs⟩ := h
    rfl
  refine h.onScreen ?_
  rw [h.cursor, hquirks, h.active.physRow]
  refine h.active.modifyLine _ fun line line' hline => .ok ?_
  rw [hline.visibleCells]
  split
  · exact hline.setLastCellWasWrapped true _ _
  · exact hline

theorem Twin.wrapPending : Both Twin (t.wrapPending unicode) (t'.wrapPending unicode) := by
  unfold TerminalState.wrapPending
  rw [h.wrapNext]
  split
  · exact (h.markWrapped).bind fun _ _ ht => ht.newLine true
  · exact .ok h

theorem Twin.placeGrapheme (g : Text) (width : Nat) :
    Both Twin (t.placeGrapheme unicode g width) (t'.placeGrapheme unicode g width) := by
  have hinsert : t'.insert = t.insert := by
    obtain ⟨hs⟩ := h
    rfl
  unfold TerminalState.placeGrapheme
  rw [h.cursor, h.columns, hinsert]
  refine Both.bind (R := Twin) ?_ fun t1 t1' h1 => ?_
  · split
    · exact h.onScreen (both_rounds (fun _ _ hs => hs.insertCell _ _ _) h.active)
    · exact .ok h
  · refine Both.bind (R := Twin) ?_ fun t2 t2' h2 => ?_
    · rw [h1.pen]
      exact h1.onScreen (h1.active.setCellGrapheme _ _ _ _ _)
    · obtain ⟨hs⟩ := h2
      split
      · exact .ok (.mk hs)
      · exact .ok (.mk hs)

theorem Twin.printGrapheme (g : Text) :
    Both Twin (t.printGrapheme unicode g) (t'.printGrapheme unicode g) := by
  unfold TerminalState.printGrapheme
  dsimp only
  rw [h.remapGrapheme, h.printWidth]
  split
  · exact .ok h
  · exact h.wrapPending.bind fun _ _ ht => ht.placeGrapheme _ _

/-! ## Actions -/

theorem Twin.dirtyLine (y : Int) : (t.dirtyLine y).Twin (t'.dirtyLine y) := by
  have hactive := h.active
  have hrow := hactive.physRow y
  unfold TerminalState.dirtyLine
  obtain ⟨hs⟩ := h
  refine .mk (hs.setActive (hactive.withLines _ _ ?_))
  rw [hrow]
  exact forall₂_modify hactive.lines (fun _ _ hline => hline.update _ _) _

theorem Twin.lineFeed : Both Twin (t.lineFeed graphemes) (t'.lineFeed graphemes) := by
  unfold TerminalState.lineFeed
  refine Both.bind (R := Twin) ?_ fun t1 t1' h1 => ?_
  · rw [h.betweenMargins]
    split
    · exact h.newLine false
    · dsimp only
      rw [h.cursor, h.region, h.rows]
      generalize (if t.cursor.y = t.topAndBottomMargins.stop - 1 then t.cursor.y
        else min (t.cursor.y + 1) ((t.active.physicalRows : Int) - 1)) = y
      have hdirty := (h.dirtyLine t.cursor.y).dirtyLine y
      exact .ok (hdirty.update
        (f := fun t => { t with cursor := { t.cursor with y := y }, wrapNext := false })
        (fun _ _ _ _ => rfl) rfl)
  · obtain ⟨hs⟩ := h1
    split
    · refine .ok (Twin.clearSemantic ?_)
      exact .mk hs
    · exact .ok (.mk hs)

theorem Twin.carriageReturn : t.carriageReturn.Twin t'.carriageReturn := by
  have hmoved := (h.update (f := fun t => { t with
    cursor := { t.cursor with
      x := if t.leftAndRightMargins.start ≤ t.cursor.x then t.leftAndRightMargins.start else 0 }
    wrapNext := false }) (fun _ _ _ _ => rfl) rfl).clearSemantic
  unfold TerminalState.carriageReturn
  dsimp only
  rw [h.cursor]
  have hdirty := hmoved.dirtyLine t.cursor.y
  rw [h.cursor] at hdirty
  exact hdirty

theorem Twin.backspace : Both Twin t.backspace t'.backspace := by
  have hmoved := h.setCursorPos
  obtain ⟨hs⟩ := h
  unfold TerminalState.backspace
  dsimp only
  split
  · exact .ok (hmoved _ _)
  · split
    · exact .ok (hmoved _ _)
    · split
      · exact .error _
      · split
        · exact .ok (.mk hs)
        · split
          · exact .ok (.mk hs)
          · exact .ok (hmoved _ _)

theorem Twin.control (code : ControlCode) :
    Both Twin (t.control graphemes code) (t'.control graphemes code) := by
  cases code with
  | lineFeed => exact h.lineFeed
  | carriageReturn => exact .ok h.carriageReturn
  | backspace => exact h.backspace
  | horizontalTab => exact h.c0HorizontalTab
  | hts => exact h.c1Hts
  | ind => exact h.c1Index
  | nel => exact h.c1Nel
  | ri => exact h.c1ReverseIndex
  | shiftIn =>
    exact .ok (h.update (f := fun t => { t with shiftOut := false }) (fun _ _ _ _ => rfl) rfl)
  | shiftOut =>
    exact .ok (h.update (f := fun t => { t with shiftOut := true }) (fun _ _ _ _ => rfl) rfl)
  | unmodelled => exact .ok h

theorem Twin.performCsiSgr (sgr : Sgr) : (t.performCsiSgr sgr).Twin (t'.performCsiSgr sgr) := by
  obtain ⟨hs⟩ := h
  cases sgr with
  | reset => exact .mk hs
  | decoration n => exact .mk hs
  | style n => exact .mk hs

theorem Twin.csiDispatch {csi : Csi} (hcsi : csi ≠ .softReset) :
    Both Twin (t.csiDispatch graphemes csi) (t'.csiDispatch graphemes csi) := by
  cases csi with
  | sgr sgr => exact .ok (h.performCsiSgr sgr)
  | cursorLeft n => exact both_rounds (fun _ _ ht => ht.backspace) h
  | cursor cursor => exact h.performCsiCursor cursor
  | edit edit => exact h.performCsiEdit edit
  | mode set code => exact h.performCsiMode set code
  | softReset => exact absurd rfl hcsi
  | checksumRectangularArea top bottom =>
    have hconfig : t'.config = t.config := by
      obtain ⟨hs⟩ := h
      rfl
    unfold TerminalState.csiDispatch
    dsimp only
    rw [hconfig]
    split
    · exact h.checksumRectangle top bottom
    · exact .ok h
  | selectCharacterPath hint =>
    exact .ok (h.update (f := fun t => { t with bidiHint := hint }) (fun _ _ _ _ => rfl) rfl)
  | unmodelled => exact .ok h

theorem Twin.setLineBits {f : LineBits → LineBits}
    (hf : ∀ bits, (f bits).plain = (f bits.plain).plain) :
    Both Twin (t.setLineBits f) (t'.setLineBits f) := by
  refine h.onScreen ?_
  rw [h.cursor, h.active.physRow]
  exact h.active.modifyLine _ fun line line' hline => .ok ((hline.withBits hf).update _ _)

theorem Twin.decScreenAlignmentDisplay :
    Both Twin (t.decScreenAlignmentDisplay graphemes) (t'.decScreenAlignmentDisplay graphemes) := by
  unfold TerminalState.decScreenAlignmentDisplay
  dsimp only
  rw [h.cols]
  refine Both.bind (R := Twin) ?_ fun t1 t1' h1 => ?_
  · refine h.onScreen ?_
    rw [h.rows]
    refine both_rowsFrom (fun y s s' hs => ?_) h.active
    rw [hs.physRow]
    exact hs.modifyLine _ fun line line' hline =>
      .ok ((hline.resize _ _ _).fillRange _ _ _ _ _)
  · exact .ok (h1.resetMargins.update (f := fun t => { t with cursor := .origin })
      (fun _ _ _ _ => rfl) rfl)

theorem Twin.escDispatch (esc : EscCode) :
    Both Twin (t.escDispatch graphemes esc) (t'.escDispatch graphemes esc) := by
  cases esc with
  | stringTerminator =>
    exact .ok (h.update (f := fun t => { t with accumulatingTitle := none })
      (fun _ _ _ _ => rfl) rfl)
  | tmuxTitle =>
    exact .ok (h.update (f := fun t => { t with accumulatingTitle := some [] })
      (fun _ _ _ _ => rfl) rfl)
  | reverseIndex => exact h.c1ReverseIndex
  | index => exact h.c1Index
  | nextLine => exact h.c1Nel
  | horizontalTabSet => exact h.c1Hts
  | setCharacterSetG0 charset =>
    exact .ok (h.update (f := fun t => { t with g0Charset := charset }) (fun _ _ _ _ => rfl) rfl)
  | setCharacterSetG1 charset =>
    exact .ok (h.update (f := fun t => { t with g1Charset := charset }) (fun _ _ _ _ => rfl) rfl)
  | decSaveCursorPosition => exact .ok h.decSaveCursor
  | decRestoreCursorPosition => exact .ok h.decRestoreCursor
  | decDoubleHeightTopHalfLine =>
    unfold TerminalState.escDispatch
    refine h.setLineBits ?_
    intro bits
    rfl
  | decDoubleHeightBottomHalfLine =>
    unfold TerminalState.escDispatch
    refine h.setLineBits ?_
    intro bits
    rfl
  | decDoubleWidthLine =>
    unfold TerminalState.escDispatch
    refine h.setLineBits ?_
    intro bits
    rfl
  | decSingleWidthLine =>
    unfold TerminalState.escDispatch
    refine h.setLineBits ?_
    intro bits
    rfl
  | decScreenAlignmentDisplay => exact h.decScreenAlignmentDisplay
  | fullReset => exact h.fullReset
  | unmodelled => exact .ok h

theorem Twin.oscDispatch {osc : OperatingSystemCommand}
    (hosc : ∀ params, osc ≠ .itermFile params) :
    Both Twin (t.oscDispatch graphemes osc) (t'.oscDispatch graphemes osc) := by
  cases osc with
  | setIconNameAndWindowTitle => exact .ok h
  | setHyperlink link =>
    exact .ok (h.update (f := fun t => { t with pen := { t.pen with hyperlink := link } })
      (fun _ _ _ _ => rfl) rfl)
  | itermFile params => exact absurd rfl (hosc params)
  | unicodeVersion op =>
    obtain ⟨hs⟩ := h
    cases op with
    | set n => exact .ok (.mk hs)
    | push label => exact .ok (.mk hs)
    | pop label =>
      cases label with
      | none =>
        unfold TerminalState.oscDispatch
        dsimp only
        cases hstack : t.unicodeVersionStack with
        | nil =>
          dsimp only
          rw [← hstack]
          exact .ok (.mk hs)
        | cons top stack => exact .ok (.mk hs)
      | some label => exact .ok (.mk hs)
  | semanticPrompt fresh type untilEndOfLine =>
    unfold TerminalState.oscDispatch
    refine Both.bind (R := Twin) ?_ fun t1 t1' h1 => ?_
    · split
      · exact h.freshLine
      · exact .ok h
    · obtain ⟨hs⟩ := h1
      exact .ok (.mk hs)
  | changeColors => exact .ok h.makeAllLinesDirty
  | unmodelled => exact .ok h

end TerminalState

/-! ## Performers -/

/-- Sequences other than images, and other than the soft reset, which takes images away. -/
def Action.Plain : Action → Prop
  | .operatingSystemCommand (.itermFile _) => False
  | .csi .softReset => False
  | .sixel _ => False
  | .kittyImage _ => False
  | _ => True

namespace Performer

variable {unicode : Unicode} {p p' : Performer}

/-- Twins, with the same characters to be printed. -/
structure Twin (p p' : Performer) : Prop where
  state : p.state.Twin p'.state
  print : p'.print = p.print

theorem Twin.flushPrint (h : p.Twin p') : Both Twin (p.flushPrint unicode) (p'.flushPrint unicode) := by
  unfold Performer.flushPrint
  rw [h.print]
  split
  · exact .ok h
  · refine Both.map (R := TerminalState.Twin) ?_ fun t t' ht => ⟨ht, rfl⟩
    exact both_foldlM (fun g _ t t' ht => ht.printGrapheme g) h.state

theorem Twin.popTmuxTitleState (h : p.Twin p') : p.popTmuxTitleState.Twin p'.popTmuxTitleState :=
  ⟨h.state.update (f := fun t => { t with accumulatingTitle := none }) (fun _ _ _ _ => rfl) rfl,
    h.print⟩

theorem Twin.printChar (h : p.Twin p') (c : Char) : (p.printChar c).Twin (p'.printChar c) := by
  obtain ⟨t, print⟩ := p
  obtain ⟨t', print'⟩ := p'
  obtain ⟨hstate, hprint⟩ := h
  obtain rfl : print' = print := hprint
  obtain ⟨hs⟩ := hstate
  unfold Performer.printChar
  dsimp only
  cases htitle : t.accumulatingTitle with
  | none =>
    dsimp only
    rw [← htitle]
    exact ⟨.mk hs, rfl⟩
  | some title => exact ⟨.mk hs, rfl⟩

theorem Twin.printString (h : p.Twin p') (s : Text) :
    (s.foldl Performer.printChar p).Twin (s.foldl Performer.printChar p') := by
  induction s generalizing p p' with
  | nil => exact h
  | cons c s ih => exact ih (h.printChar c)

theorem Twin.flushThen (h : p.Twin p') {f : TerminalState → Except Panic TerminalState}
    (hf : ∀ t t', t.Twin t' → Both TerminalState.Twin (f t) (f t')) :
    Both Twin (p.flushThen unicode f) (p'.flushThen unicode f) := by
  unfold Performer.flushThen
  refine h.flushPrint.bind fun p1 p1' h1 => ?_
  exact (hf _ _ h1.state).bind fun _ _ ht => .ok ⟨ht, h1.print⟩

theorem Twin.perform (h : p.Twin p') {action : Action} (haction : action.Plain) :
    Both Twin (p.perform unicode action) (p'.perform unicode action) := by
  have hsuppress : p'.state.suppressInitialTitleChange = p.state.suppressInitialTitleChange := by
    obtain ⟨t, print⟩ := p
    obtain ⟨t', print'⟩ := p'
    obtain ⟨⟨hs⟩, hprint⟩ := h
    rfl
  unfold Performer.perform
  dsimp only
  rw [hsuppress]
  split
  · exact .ok ⟨h.state.update (f := fun t => { t with suppressInitialTitleChange := false })
      (fun _ _ _ _ => rfl) rfl, h.print⟩
  · cases action with
    | print c => exact .ok (h.printChar c)
    | printString s => exact .ok (h.printString s)
    | control code => exact h.popTmuxTitleState.flushThen fun _ _ ht => ht.control code
    | deviceControl => exact .ok h.popTmuxTitleState
    | operatingSystemCommand osc =>
      refine h.popTmuxTitleState.flushThen fun _ _ ht => ht.oscDispatch ?_
      rintro params rfl
      exact haction
    | esc esc =>
      refine h.flushThen fun t t' ht => ?_
      split
      · exact ht.escDispatch esc
      · exact (ht.update (f := fun t => { t with accumulatingTitle := none })
          (fun _ _ _ _ => rfl) rfl).escDispatch esc
    | csi csi =>
      refine h.popTmuxTitleState.flushThen fun _ _ ht => ht.csiDispatch ?_
      rintro rfl
      exact haction
    | sixel params => exact haction.elim
    | xtGetTcap => exact .ok h
    | kittyImage img => exact haction.elim

end Performer

end Wakterm.Term
