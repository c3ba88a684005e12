import Wakterm.Term.Logic.Edits
import Wakterm.Term.Logic.Operations
import Wakterm.Term.Logic.Reset
import Wakterm.Term.Logic.Switch

/-!
# Wide cells stay whole

A wide cell covers the column behind it, which holds a blank.
-/

namespace Wakterm.Theorems.WideCells

open Wakterm.Term

/-- Graphemes of one character each; ideographs are wide. -/
def chars : Graphemes where
  of := fun text => text.map fun c => [c]
  wide := fun text => text.any fun c => 0x2E80 ≤ c.toNat

end Wakterm.Theorems.WideCells

/-!
## Rows that have changed are reported

For every run of operations on a screen.
-/

namespace Wakterm.Theorems.Damage

open Wakterm.Term

/-- **Damage tracking.** After any run of operations with numbers above `seen`, each of which marks
what it changes, a stable row whose line shows something else than before, or that had none, is
among those that are reported as changed since. -/
theorem changed_rows_reported {graphemes : Graphemes} {s s' : Screen} {seen : Nat}
    {ops : List (ScreenOp × Nat)} (hrun : s.run graphemes ops = .ok s')
    (hseqno : ∀ op ∈ ops, seen < op.2) (hmarks : s.RunMarks graphemes ops) {row : Int}
    {line : Line} (hline : s'.lineAt row = some line)
    (hdiffers : ∀ old, s.lineAt row = some old → line.content graphemes ≠ old.content graphemes) :
    row ∈ s'.getChangedStableRows s'.wholeRange seen := by
  have hkept : Kept graphemes (seen + 1) s s' := Screen.run_kept hrun hseqno hmarks
  refine Screen.mem_getChangedStableRows.mpr ⟨line, hline, ?_⟩
  obtain ⟨i, hi, hrow⟩ := Screen.lineAt_iff.mp hline
  rcases hkept i line hi with hnew | ⟨j, old, hold, hsame, halike⟩
  · show (decide (line.seqno = 0) || decide (seen < line.seqno)) = true
    rw [decide_eq_true (show seen < line.seqno from hnew), Bool.or_true]
  · -- it was in the same row, and shows the same
    have hbefore : s.lineAt row = some old := Screen.lineAt_iff.mpr ⟨j, hold, by rw [hrow, hsame]⟩
    exact absurd halike.2 (hdiffers old hbefore)

/-! ### A full scrollback -/

/-- Every character by itself. -/
def eachChar : Graphemes := ⟨fun text => text.map fun c => [c], fun _ => false⟩

def lineOf (c : Char) (seqno : Nat) : Line :=
  ⟨.V [.newGraphemeWithWidth [c] false .blank], seqno, .none⟩

/-- Three rows, and one line of scrollback, which is full. -/
def fullScreen : Screen where
  lines := [lineOf 'w' 5, lineOf 'x' 5, lineOf 'y' 5, lineOf 'z' 5]
  stableRowIndexOffset := 0
  configuredScrollback := 1
  allowScrollback := true
  physicalRows := 3
  physicalCols := 4
  dpi := 96

/-- Plain left-to-right text. -/
def plainBidi : BidiMode := ⟨false, .leftToRight⟩

/-- The region that ends at the bottom scrolls by one row, and the row above the new one is
cleared. -/
def scrollAll : List (ScreenOp × Nat) :=
  [(.scrollUp ⟨0, 3⟩ 1 .blank plainBidi, 6), (.clearLine 1 ⟨0, 4⟩ .blank plainBidi, 7)]

/-- The first two rows scroll by one. -/
def scrollPart : List (ScreenOp × Nat) := [(.scrollUp ⟨0, 2⟩ 1 .blank plainBidi, 6)]

/-- The screen after a run. -/
def after (ops : List (ScreenOp × Nat)) : Screen := ((fullScreen.run eachChar ops).toOption).getD fullScreen

theorem runMarks_scrollAll : fullScreen.RunMarks eachChar scrollAll := by
  refine ⟨⟨?_, ?_, ?_⟩, fun s _ => ⟨trivial, fun _ _ => trivial⟩⟩
  · intro _ h
    cases h
  · intro _ _ _ _
    decide
  · intro _ _ i line hline hi hi'
    have hlow : 1 ≤ i := hi
    have hhigh : i < 2 := hi'
    obtain rfl : i = 1 := by omega
    cases hline
    exact ⟨by decide, by decide⟩

/-- With a region down to the bottom the row that comes in and the one that is cleared are
reported. -/
theorem changed_rows_reported_all : fullScreen.run eachChar scrollAll = .ok (after scrollAll) ∧
      (3 : Int) ∈ (after scrollAll).getChangedStableRows (after scrollAll).wholeRange 5 ∧
      (4 : Int) ∈ (after scrollAll).getChangedStableRows (after scrollAll).wholeRange 5 := by
  have hrun : fullScreen.run eachChar scrollAll = .ok (after scrollAll) := by decide
  have hseqno : ∀ op ∈ scrollAll, 5 < op.2 := by decide
  have hcleared : (after scrollAll).lineAt 3 = some ⟨.V (List.replicate 4 .blank), 7, .none⟩ := by
    decide
  have hadded : (after scrollAll).lineAt 4 = some (.new 6) := by decide
  refine ⟨hrun, ?_, ?_⟩
  · refine changed_rows_reported hrun hseqno runMarks_scrollAll hcleared ?_
    intro old hold
    have hbefore : fullScreen.lineAt 3 = some (lineOf 'z' 5) := by decide
    rw [hbefore] at hold
    cases hold
    decide
  · refine changed_rows_reported hrun hseqno runMarks_scrollAll hadded ?_
    intro old hold
    have hbefore : fullScreen.lineAt 4 = none := by decide
    rw [hbefore] at hold
    cases hold

/-- On a full scrollback, with a region above the bottom, the last line is in a stable row that
had none before, and is not reported. -/
theorem lines_below_unreported : (∀ line ∈ fullScreen.lines, 1 ≤ line.seqno ∧ line.seqno ≤ 5) ∧
      (∀ op ∈ scrollPart, 5 < op.2) ∧ fullScreen.run eachChar scrollPart = .ok (after scrollPart) ∧
      fullScreen.lineAt 4 = none ∧ (after scrollPart).lineAt 4 = some (lineOf 'z' 5) ∧
      (4 : Int) ∉ (after scrollPart).getChangedStableRows (after scrollPart).wholeRange 5 := by
  decide

end Wakterm.Theorems.Damage

/-!
## What is shown after a switch of screens

The rows of both screens have the same numbers, so whoever keeps the lines of the rows has to be
told which of them are others after a switch.
-/

namespace Wakterm.Theorems.Switching

open Wakterm.Term Wakterm.Machine

/-- What is known of the line in the row still holds: it is reported as changed, or shows what the
line of the other screen has shown there. -/
def Known (graphemes : Graphemes) (seen : Nat) (before : Screen) (row : Int) (line : Line) :
    Prop :=
  line.changedSince seen = true ∨
    ∃ old, before.lineAt row = some old ∧ line.content graphemes = old.content graphemes

/-- Each row of the viewport that is shown now, and whose line shows something else than the line
shown there before, or that had none, is reported as changed since. -/
def Invalidated (graphemes : Graphemes) (seen : Nat) (t t' : TerminalState) : Prop :=
  ∀ i line, t'.active.physRow 0 ≤ i → At t'.active.lines i line →
    (∀ old, t.active.lineAt (t'.active.physToStableRowIndex i) = some old →
      line.content graphemes ≠ old.content graphemes) →
    line.changedSince seen = true

/-- Nothing has to be reported that the actions do not mark. They end on the screen they began on;
or they end on the alternate screen, and clear it, or what is known of its viewport still holds; or
they end on the primary screen, and there is a full reset among them, or what is known of its
viewport still holds below the first rows, except where a soft reset takes images away. -/
def Covered (graphemes : Graphemes) (seen : Nat) (t : TerminalState)
    (actions : List (Switch × Nat)) : Prop :=
  if Switch.endsOnAlt t.screen.altScreenIsActive actions = t.screen.altScreenIsActive then True
  else if t.screen.altScreenIsActive = false then
    Switch.clearsAlt false actions = true ∨
      ∀ i line, t.screen.altScreen.physRow 0 ≤ i → At t.screen.altScreen.lines i line →
        Known graphemes seen t.screen.screen (t.screen.altScreen.physToStableRowIndex i) line
  else
    Switch.fullReset.isIn actions ∨
      ∀ i line, t.screen.screen.physRow 0 ≤ i → t.screen.screen.physicalRows ≤ i →
        ¬ (Switch.softReset.isIn actions ∧
          ∃ p ∈ t.placements, t.screen.screen.HasPlacement p i) →
        At t.screen.screen.lines i line →
        Known graphemes seen t.screen.altScreen (t.screen.screen.physToStableRowIndex i) line

section

variable {graphemes : Graphemes} {seen : Nat} {t t' : TerminalState}

theorem changedSince_of_lt {line : Line} (h : seen < line.seqno) :
    line.changedSince seen = true := by
  show (decide (line.seqno = 0) || decide (seen < line.seqno)) = true
  rw [decide_eq_true h, Bool.or_true]

theorem invalidated_iff : Invalidated graphemes seen t t' ↔
    ∀ i line, t'.active.physRow 0 ≤ i → At t'.active.lines i line →
      Known graphemes seen t.active (t'.active.physToStableRowIndex i) line := by
  constructor
  · intro h i line hi hline
    by_cases hknown : ∃ old, t.active.lineAt (t'.active.physToStableRowIndex i) = some old ∧
        line.content graphemes = old.content graphemes
    · exact .inr hknown
    · refine .inl (h i line hi hline fun old hold hsame => hknown ⟨old, hold, hsame⟩)
  · intro h i line hi hline hdiffers
    rcases h i line hi hline with hchanged | ⟨old, hold, hsame⟩
    · exact hchanged
    · exact absurd hsame (hdiffers old hold)

variable {s' s before : Screen}

theorem known_of_marked {rows : Nat → Prop} (h : Marked seen rows s s') :
    (∀ i line, s'.physRow 0 ≤ i → At s'.lines i line →
      Known graphemes seen before (s'.physToStableRowIndex i) line) ↔
    ∀ i line, s.physRow 0 ≤ i → ¬ rows i → At s.lines i line →
      Known graphemes seen before (s.physToStableRowIndex i) line := by
  have hstable : ∀ i, s'.physToStableRowIndex i = s.physToStableRowIndex i := by
    intro i
    unfold Screen.physToStableRowIndex
    rw [h.frame]
  constructor
  · intro hknown i line hi hrow hline
    rw [← hstable]
    refine hknown i line (by rw [h.physRow]; exact hi) ?_
    unfold At
    rw [h.same i hrow]
    exact hline
  · intro hknown i line hi hline
    by_cases hrow : rows i
    · exact .inl (changedSince_of_lt (h.new i line hrow hline))
    · rw [hstable]
      refine hknown i line (by rw [← h.physRow]; exact hi) hrow ?_
      unfold At at hline ⊢
      rw [← h.same i hrow]
      exact hline

theorem known_of_stays {rows : Nat → Prop} (h : Marked seen rows s s') (i : Nat) (line : Line)
    (hi : s'.physRow 0 ≤ i) (hline : At s'.lines i line) :
    Known graphemes seen s (s'.physToStableRowIndex i) line := by
  refine (known_of_marked h).mpr ?_ i line hi hline
  intro j old _ _ hold
  exact .inr ⟨old, Screen.lineAt_iff.mpr ⟨j, hold, rfl⟩, rfl⟩

theorem known_of_new (h : ∀ i line, At s.lines i line → seen < line.seqno) (i : Nat) (line : Line)
    (_ : s.physRow 0 ≤ i) (hline : At s.lines i line) :
    Known graphemes seen before (s.physToStableRowIndex i) line :=
  .inl (changedSince_of_lt (h i line hline))

end

/-- **A switch of screens.** After any run of actions that switch between the screens, with numbers
above `seen`, the rows of the viewport that show something else than the rows shown before are
reported as changed, if and only if the actions mark them or they had been. -/
theorem switch_invalidates_iff {graphemes : Graphemes} {t t' : TerminalState} {seen : Nat}
    {actions : List (Switch × Nat)} (hrun : t.switches graphemes actions = .ok t')
    (hseen : ∀ action ∈ actions, seen < action.2) :
    Invalidated graphemes seen t t' ↔ Covered graphemes seen t actions := by
  have hall := switches_switched hrun hseen
  have hactive : ∀ u : TerminalState, u.active =
      if u.screen.altScreenIsActive then u.screen.altScreen else u.screen.screen := fun _ => rfl
  rw [invalidated_iff, hactive t', hactive t, hall.shown]
  unfold Covered
  by_cases hstays : Switch.endsOnAlt t.screen.altScreenIsActive actions =
      t.screen.altScreenIsActive
  · rw [if_pos hstays, hstays]
    refine iff_true_intro ?_
    cases halt : t.screen.altScreenIsActive with
    | true => exact known_of_stays hall.alt
    | false =>
      by_cases hreset : Switch.fullReset.isIn actions
      · exact known_of_new (hall.reset hreset)
      · exact known_of_stays (hall.primary hreset)
  · rw [if_neg hstays]
    have hmarks := Switch.marksPrimary_of_endsOnAlt hstays
    cases halt : t.screen.altScreenIsActive with
    | false =>
      rw [halt] at hstays
      rw [eq_true_of_ne_false hstays, if_pos rfl, if_pos rfl, if_neg Bool.false_ne_true,
        known_of_marked hall.alt, halt]
      constructor
      · intro h
        by_cases hclears : Switch.clearsAlt false actions = true
        · exact .inl hclears
        · exact .inr fun i line hi hline => h i line hi (fun hrow => hclears hrow.1) hline
      · rintro (hclears | h) i line hi hrow hline
        · exact absurd ⟨hclears, hi⟩ hrow
        · exact h i line hi hline
    | true =>
      rw [halt] at hstays hmarks
      rw [Bool.eq_false_iff.mpr hstays, if_neg Bool.false_ne_true, if_pos rfl,
        if_neg (by decide)]
      by_cases hreset : Switch.fullReset.isIn actions
      · exact iff_of_true (known_of_new (hall.reset hreset)) (.inl hreset)
      · rw [known_of_marked (hall.primary hreset), halt]
        constructor
        · intro h
          refine .inr fun i line hi hbelow hplaced hline => h i line hi ?_ hline
          rintro (⟨-, hrow⟩ | hrow)
          · omega
          · exact hplaced hrow
        · rintro (hin | h) i line hi hrow hline
          · exact absurd hin hreset
          · refine h i line hi (Nat.le_of_not_lt fun hlt => hrow (.inl ⟨hmarks, hlt⟩)) ?_ hline
            exact fun hplaced => hrow (.inr hplaced)

/-! ### A letter on the primary screen -/

/-- Every character is a grapheme of one column. -/
def narrow : Unicode where
  graphemes := ⟨fun text => text.map fun c => [c], fun _ => false⟩
  columnWidth := fun _ _ => 1
  isWhiteSpaceGrapheme := fun text => text = [' ']
  normalize := id

/-- A terminal of two rows. -/
def fresh : TerminalState := .new ⟨2, 3, 96⟩ ⟨⟨false, .leftToRight⟩, false, 9⟩ 10

def printed : TerminalState := ((fresh.performActions narrow [.print 'x']).toOption).getD fresh

/-- The state after actions. -/
def switched (actions : List (Switch × Nat)) : TerminalState :=
  ((printed.switches narrow.graphemes actions).toOption).getD printed

/-- Mode 1049 clears the alternate screen, so its rows are reported. -/
theorem switch_invalidates_iff_clear :
    printed.switches narrow.graphemes [(.clearAndEnableAlternateScreen true, 3)] =
        .ok (switched [(.clearAndEnableAlternateScreen true, 3)]) ∧
      Invalidated narrow.graphemes 2 printed
        (switched [(.clearAndEnableAlternateScreen true, 3)]) := by
  have hrun : printed.switches narrow.graphemes [(.clearAndEnableAlternateScreen true, 3)] =
      .ok (switched [(.clearAndEnableAlternateScreen true, 3)]) := by decide
  refine ⟨hrun, (switch_invalidates_iff hrun (by decide)).mpr ?_⟩
  have hcovered : Switch.clearsAlt false [(.clearAndEnableAlternateScreen true, 3)] = true := rfl
  have hshown : printed.screen.altScreenIsActive = false := by decide
  unfold Covered
  rw [hshown, if_neg (by decide), if_pos rfl]
  exact .inl hcovered

/-- Mode 47 shows the alternate screen as it is: its first row is empty where the primary screen
has a letter, and is not reported. -/
theorem alternate_screen_unreported : printed.seqno = 2 ∧
      printed.switches narrow.graphemes [(.enableAlternateScreen true, 3)] =
        .ok (switched [(.enableAlternateScreen true, 3)]) ∧
      ¬ Invalidated narrow.graphemes 2 printed (switched [(.enableAlternateScreen true, 3)]) := by
  refine ⟨by decide, by decide, ?_⟩
  intro h
  have hfirst : At (switched [(.enableAlternateScreen true, 3)]).active.lines 0 (.new 1) := by
    unfold At
    decide
  have hchanged := h 0 (.new 1) (by decide) hfirst ?_
  · exact absurd hchanged (by decide)
  · intro old hold
    have hbefore : ∀ old ∈ printed.active.lineAt 0,
        (Line.new 1).content narrow.graphemes ≠ old.content narrow.graphemes := by decide
    exact hbefore old hold

end Wakterm.Theorems.Switching

/-!
## What a full reset does not forget

`EscCode::FullReset` puts the terminal into its initial state.
-/

namespace Wakterm.Theorems.FullReset

open Wakterm.Term Wakterm.Machine

/-- What is seen of a terminal: the cells of the rows that are shown, the cursor, and the modes. -/
structure View where
  rows : List (List CellRef × LineBits)
  altScreenIsActive : Bool
  cursor : CursorPosition
  wrapNext : Bool
  pen : CellAttributes
  insert : Bool
  decAutoWrap : Bool
  reverseWraparoundMode : Bool
  decOriginMode : Bool
  topAndBottomMargins : Span Int
  leftAndRightMargins : Span Nat
  leftAndRightMarginMode : Bool
  sixelDisplayMode : Bool
  sixelScrollsRight : Bool
  charsets : CharSet × CharSet × Bool
  newlineMode : Bool
  tabs : TabStop
  bidiMode : BidiMode
  modes : Modes
  deriving DecidableEq

/-- What is seen of the terminal. -/
def view (host : Host) (t : Terminal) : View where
  rows := (t.state.active.lines.drop
    (t.state.active.lines.length - t.state.active.physicalRows)).map fun line =>
      (line.visibleCells host.unicode.graphemes, line.bits.plain)
  altScreenIsActive := t.state.screen.altScreenIsActive
  cursor := t.state.cursor
  wrapNext := t.state.wrapNext
  pen := t.state.pen
  insert := t.state.insert
  decAutoWrap := t.state.decAutoWrap
  reverseWraparoundMode := t.state.reverseWraparoundMode
  decOriginMode := t.state.decOriginMode
  topAndBottomMargins := t.state.topAndBottomMargins
  leftAndRightMargins := t.state.leftAndRightMargins
  leftAndRightMarginMode := t.state.leftAndRightMarginMode
  sixelDisplayMode := t.state.sixelDisplayMode
  sixelScrollsRight := t.state.sixelScrollsRight
  charsets := (t.state.g0Charset, t.state.g1Charset, t.state.shiftOut)
  newlineMode := t.state.newlineMode
  tabs := t.state.tabs
  bidiMode := t.state.getBidiMode
  modes := t.modes

theorem view_eq_of_twin {host : Host} {t t' : Terminal} (h : t.Twin t') :
    view host t = view host t' := by
  have hrows : (view host t).rows = (view host t').rows := by
    have hactive := h.state.active
    show List.map _ _ = List.map _ _
    rw [hactive.length, hactive.rows]
    refine List.forall₂_eq_eq_eq ▸ List.rel_map ?_ (List.forall₂_drop _ hactive.lines)
    intro line line' hline
    exact Prod.ext hline.visibleCells hline.bits
  obtain ⟨state, modes⟩ := t
  obtain ⟨state', modes'⟩ := t'
  obtain ⟨⟨hs⟩, hmodes⟩ := h
  obtain rfl : modes' = modes := hmodes
  have hshown := hs.shown
  unfold view at hrows ⊢
  dsimp only at hrows ⊢
  rw [hrows, hshown]
  rfl

/-- **The full reset forgets what came before it**, if both terminals are reset alike: each of the
screens restores the same cursor, and erasing its rows leaves the same of them. -/
theorem full_reset_forgets {host : Host} {size : TerminalSize} {config : TerminalConfig}
    {configuredScrollback : Nat} {quirks : Bool} {t t' : Terminal}
    {bs bs' later : List (List Input)} {before before' after : List Input}
    (h : (Terminal.new size config configuredScrollback quirks).run host (bs ++ [before]) = .ok t)
    (h' : (Terminal.new size config configuredScrollback quirks).run host (bs' ++ [before']) =
      .ok t') (halike : t.state.ResetsAlike host.unicode.graphemes t'.state)
    (hafter : ∀ input ∈ after, input.Plain)
    (hlater : ∀ inputs ∈ later, ∀ input ∈ inputs, input.Plain) :
    ((Terminal.new size config configuredScrollback quirks).run host
        (bs ++ (before ++ .action (.esc .fullReset) :: after) :: later)).map (view host) =
      ((Terminal.new size config configuredScrollback quirks).run host
        (bs' ++ (before' ++ .action (.esc .fullReset) :: after) :: later)).map (view host) := by
  have hboth := Terminal.run_fullReset (TerminalState.begins_new _ _ _ _) h h' halike hafter hlater
  exact hboth.map_eq fun _ _ htwin => view_eq_of_twin htwin

/-! ### A terminal of two rows -/

/-- Every character is a grapheme of one column. -/
def letters : Host := ⟨Switching.narrow, false⟩

/-- A terminal of two rows and three columns. -/
def small : Terminal := .new ⟨2, 3, 96⟩ ⟨⟨false, .leftToRight⟩, false, 9⟩ 10 false

/-- The terminal after one batch. -/
def smallAfter (inputs : List Input) : Terminal :=
  ((small.run letters [inputs]).toOption).getD small

/-- Whatever was printed in the first column is forgotten. -/
theorem full_reset_forgets_letter :
    (small.run letters [[.action (.print 'x'), .action (.esc .fullReset),
        .action (.esc .decRestoreCursorPosition), .action (.print 'z')]]).map (view letters) =
      (small.run letters [[.action (.print 'y'), .action (.esc .fullReset),
        .action (.esc .decRestoreCursorPosition), .action (.print 'z')]]).map (view letters) := by
  have hx : small.run letters ([] ++ [[.action (.print 'x')]]) =
      .ok (smallAfter [.action (.print 'x')]) := by decide
  have hy : small.run letters ([] ++ [[.action (.print 'y')]]) =
      .ok (smallAfter [.action (.print 'y')]) := by decide
  have hwritten : (smallAfter [.action (.print 'x')]).state.ResetsAlike letters.unicode.graphemes
      (smallAfter [.action (.print 'y')]).state :=
    ⟨by decide, by decide, by decide, by decide⟩
  have hplain : ∀ input ∈ [Input.action (.esc .decRestoreCursorPosition), .action (.print 'z')],
      input.Plain :=
    List.forall_mem_cons.mpr ⟨trivial, List.forall_mem_singleton.mpr trivial⟩
  exact full_reset_forgets hx hy hwritten hplain (List.forall_mem_nil _)

/-- What the reset is said to do: nothing that may follow tells what has been before. -/
def Forgets (host : Host) (start : Terminal) : Prop :=
  ∀ (bs bs' later : List (List Input)) (before before' after : List Input) (t t' : Terminal),
    start.run host (bs ++ [before]) = .ok t → start.run host (bs' ++ [before']) = .ok t' →
    (∀ input ∈ after, input.Plain) → (∀ inputs ∈ later, ∀ input ∈ inputs, input.Plain) →
    (start.run host (bs ++ (before ++ .action (.esc .fullReset) :: after) :: later)).map
        (view host) =
      (start.run host (bs' ++ (before' ++ .action (.esc .fullReset) :: after) :: later)).map
        (view host)

/-- The cursor that was saved before the reset is restored after it. -/
theorem saved_cursor_survives :
    ¬ ∀ (host : Host) (size : TerminalSize) (config : TerminalConfig) (configuredScrollback : Nat)
      (quirks : Bool), Forgets host (.new size config configuredScrollback quirks) := by
  intro hall
  have hsame := hall letters ⟨2, 3, 96⟩ ⟨⟨false, .leftToRight⟩, false, 9⟩ 10 false [] [] []
    [.action (.csi (.cursor (.position 0 1))), .action (.esc .decSaveCursorPosition)] []
    [.action (.esc .decRestoreCursorPosition)] _ _ (show small.run letters _ =
      .ok (smallAfter [.action (.csi (.cursor (.position 0 1))),
        .action (.esc .decSaveCursorPosition)]) by decide)
    (show small.run letters _ = .ok (smallAfter []) by decide)
    (List.forall_mem_singleton.mpr trivial) (List.forall_mem_nil _)
  have hcursor := congrArg (fun x : Except Panic View => x.toOption.map View.cursor) hsame
  exact absurd hcursor (by decide)

/-- A letter is printed, and deleted with other colours. -/
def deleteLetter : List Input :=
  [.action (.print 'a'), .action (.csi (.sgr (.style 1))),
    .action (.csi (.cursor (.position 0 0))), .action (.csi (.edit (.deleteCharacter 1)))]

/-- A row that was written to is told from one that was not: what is deleted from it draws a blank
in the colours of the pen into its last column. -/
example :
    (small.run letters [.action (.print 'x') :: .action (.esc .fullReset) :: deleteLetter]).map
        (view letters) ≠
      (small.run letters [.action (.esc .fullReset) :: deleteLetter]).map (view letters) := by
  decide

end Wakterm.Theorems.FullReset
