import Wakterm.Term.Logic.Frame
import Wakterm.Term.Logic.Margins
import Wakterm.Term.Logic.ScrollRows

/-!
# What a scroll up is for

The rows of the region move up, and blank ones come in at its end; on a screen with a scrollback
what goes at the top of the viewport becomes its newest rows.
-/

namespace Wakterm.Theorems.Scroll

open Wakterm.Term Wakterm.Term.Screen

/-! ## The viewport and the scrollback -/

/-- The rows above the viewport, the oldest first. -/
def scrollback (s : Screen) : List Line :=
  (s.lines.map Line.unstamped).take (s.lines.length - s.physicalRows)

/-- The rows of the viewport. -/
def visible (s : Screen) : List Line :=
  (s.lines.map Line.unstamped).drop (s.lines.length - s.physicalRows)

/-- The last of the rows, at most so many. -/
def newest (n : Nat) (rows : List Line) : List Line := rows.drop (rows.length - n)

/-- What a scroll up of the visible rows from `top` to `bottom` is to do. The rows of the viewport
are what they were outside the region; in the region they have moved up, and blank rows with the
attributes and the bidi mode follow. They do not depend on the scrollback. On a screen with a
scrollback, what moves out of the viewport is the newest of it, as far as there is room. -/
structure ScrollsUp (s s' : Screen) (top bottom numRows : Nat) (blankAttr : CellAttributes)
    (bidiMode : BidiMode) : Prop where
  size : s'.physicalRows = s.physicalRows ∧ s'.physicalCols = s.physicalCols
  rows : visible s' =
    (visible s).take top ++
    ((visible s).take bottom).drop (top + min numRows (bottom - top)) ++
    List.replicate (min numRows (bottom - top)) (freshRow s.physicalCols blankAttr bidiMode) ++
    (visible s).drop bottom
  history : top = 0 → s.allowScrollback = true →
    scrollback s' = newest s.scrollbackSize
      (scrollback s ++ ((visible s).take (min numRows bottom)).map Line.compressForScrollback)
  room : top = 0 → s.allowScrollback = true →
    s'.lines.length ≤ s.physicalRows + s.scrollbackSize

/-- No line is used again, or the bidi mode is the one that a blank line has of itself. -/
def Fresh (s : Screen) (top bottom numRows : Nat) (bidiMode : BidiMode) : Prop :=
  numRows = 0 ∨
    (top = 0 ∧ s.allowScrollback = true ∧
      s.lines.length + min numRows bottom ≤ s.physicalRows + s.scrollbackSize) ∨
    (bidiMode.enabled = false ∧ bidiMode.hint = .leftToRight)

theorem scrollback_append_visible (s : Screen) :
    scrollback s ++ visible s = s.lines.map Line.unstamped := List.take_append_drop _ _

theorem length_scrollback (s : Screen) :
    (scrollback s).length = s.lines.length - s.physicalRows := by
  unfold scrollback
  rw [List.length_take, List.length_map]
  omega

theorem length_visible {s : Screen} (h : s.physicalRows ≤ s.lines.length) :
    (visible s).length = s.physicalRows := by
  unfold visible
  rw [List.length_drop, List.length_map]
  omega

theorem rows_of_append {s : Screen} {front back : List Line}
    (h : s.lines.map Line.unstamped = front ++ back) (hback : back.length = s.physicalRows) :
    scrollback s = front ∧ visible s = back := by
  have hlen := congrArg List.length h
  rw [List.length_map, List.length_append] at hlen
  have hfront : s.lines.length - s.physicalRows = front.length := by omega
  unfold scrollback visible
  rw [hfront, h]
  exact ⟨List.take_left, List.drop_left⟩

theorem exists_parts {rows : List Line} {a n m : Nat} (h : a + n + m ≤ rows.length) :
    ∃ upper scrolled kept below, rows = upper ++ (scrolled ++ kept) ++ below ∧
      upper.length = a ∧ scrolled.length = n ∧ kept.length = m := by
  refine ⟨rows.take a, (rows.drop a).take n, ((rows.drop a).drop n).take m,
    ((rows.drop a).drop n).drop m, ?_, ?_, ?_, ?_⟩
  · simp only [List.append_assoc, List.take_append_drop]
  all_goals
    simp only [List.length_take, List.length_drop]
    omega

/-! ## The bidi mode of a line that is used again -/

theorem recycled_eq_fresh_iff (physicalCols : Nat) (blankAttr : CellAttributes)
    (bidiMode : BidiMode) :
    recycledRow physicalCols blankAttr = freshRow physicalCols blankAttr bidiMode ↔
      bidiMode.enabled = false ∧ bidiMode.hint = .leftToRight := by
  obtain ⟨enabled, hint⟩ := bidiMode
  have hbits : ∀ line : Line, line.bits = .none →
      (line.unstamped = ((BidiMode.mk enabled hint).applyToLine line 0).unstamped ↔
        enabled = false ∧ hint = .leftToRight) := by
    rintro ⟨cells, seqno, bits⟩ rfl
    cases enabled <;> cases hint <;>
      simp [Line.unstamped, BidiMode.applyToLine, Line.setBidiInfo, LineBits.none,
        Line.updateLastChangeSeqno]
  unfold recycledRow freshRow blankLine
  split
  · exact hbits _ rfl
  · exact hbits _ rfl

theorem replicate_append_eq_iff {α : Type} {a b : α} {k n : Nat} (h : k ≤ n) :
    List.replicate k a ++ List.replicate (n - k) b = List.replicate n b ↔ k = 0 ∨ a = b := by
  obtain ⟨m, rfl⟩ := Nat.exists_eq_add_of_le h
  rw [Nat.add_sub_cancel_left, List.replicate_add, List.append_left_inj]
  cases k with
  | zero => simp
  | succ k => simp

/-! ## The scroll up -/

theorem scrollUp_rows {s : Screen} (hfull : s.physicalRows ≤ s.lines.length)
    {top bottom numRows n : Nat} (hregion : top < bottom) (hbottom : bottom ≤ s.physicalRows)
    (hn : n = min numRows (bottom - top)) (seqno : Nat) (blankAttr : CellAttributes)
    (bidiMode : BidiMode) :
    ∃ s', s.scrollUp ⟨top, bottom⟩ numRows seqno blankAttr bidiMode = .ok s' ∧
      s'.physicalRows = s.physicalRows ∧ s'.physicalCols = s.physicalCols ∧ visible s' =
        (visible s).take top ++ ((visible s).take bottom).drop (top + n) ++
        (List.replicate (min (s.droppedRows top n) n) (recycledRow s.physicalCols blankAttr) ++
          List.replicate (n - min (s.droppedRows top n) n)
            (freshRow s.physicalCols blankAttr bidiMode)) ++ (visible s).drop bottom ∧
      scrollback s' = if top = 0 then
          (scrollback s ++ ((visible s).take n).map Line.compressForScrollback).drop
            (s.droppedRows top n) else scrollback s := by
  have hvisible := length_visible hfull
  have hscrollback := length_scrollback s
  have hfit : top + n + (bottom - top - n) ≤ (visible s).length := by omega
  obtain ⟨upper, scrolled, kept, below, hparts, hupper, hscrolled, hkept⟩ := exists_parts hfit
  have hlen := congrArg List.length hparts
  simp only [List.length_append] at hlen
  have hrows : s.lines.map Line.unstamped =
      (scrollback s ++ upper) ++ (scrolled ++ kept) ++ below := by
    rw [← scrollback_append_visible, hparts]
    simp only [List.append_assoc]
  obtain ⟨s', hrun, hshows⟩ : Reaches s
      (s.scrollUp ⟨top, bottom⟩ numRows seqno blankAttr bidiMode)
      (s.scrolledUp top blankAttr bidiMode (scrollback s ++ upper) scrolled kept below) :=
    reaches_scrollUp hfull hregion hbottom hrows (by rw [List.length_append]; omega)
      (hscrolled.trans hn) (by omega)
  have habove : (visible s).take top = upper := by
    rw [hparts, List.append_assoc, List.take_left' hupper]
  have hregionRows : (upper ++ (scrolled ++ kept)).length = bottom := by
    simp only [List.length_append]
    omega
  have hstay : ((visible s).take bottom).drop (top + n) = kept := by
    have hfront : (upper ++ scrolled).length = top + n := by
      rw [List.length_append]
      omega
    rw [hparts, List.take_left' hregionRows, ← List.append_assoc, List.drop_left' hfront]
  have hrest : (visible s).drop bottom = below := by
    rw [hparts, List.drop_left' hregionRows]
  let blanks :=
    List.replicate (min (s.droppedRows top n) n) (recycledRow s.physicalCols blankAttr) ++
      List.replicate (n - min (s.droppedRows top n) n) (freshRow s.physicalCols blankAttr bidiMode)
  have hblanks : blanks.length = n := by
    simp only [blanks, List.length_append, List.length_replicate]
    omega
  refine ⟨s', hrun, hshows.physicalRows, hshows.physicalCols, ?_⟩
  rw [habove, hstay, hrest]
  have hback : (upper ++ kept ++ blanks ++ below).length = s'.physicalRows := by
    rw [hshows.physicalRows]
    simp only [List.length_append, hblanks]
    omega
  by_cases htop : top = 0
  · obtain rfl : upper = [] := List.eq_nil_of_length_eq_zero (hupper.trans htop)
    have hgone : (visible s).take n = scrolled := by
      rw [hparts, List.nil_append, List.append_assoc, List.take_left' hscrolled]
    have hdropped : s.droppedRows top n ≤
        (scrollback s ++ scrolled.map Line.compressForScrollback).length := by
      rw [List.length_append, List.length_map, droppedRows, linesRemoved]
      split
      · omega
      · omega
    have hshape : s'.lines.map Line.unstamped =
        (scrollback s ++ scrolled.map Line.compressForScrollback).drop (s.droppedRows top n) ++
          ([] ++ kept ++ blanks ++ below) := by
      rw [hshows.rows]
      simp only [scrolledUp, if_pos htop, hscrolled, List.append_nil, List.nil_append, blanks]
      rw [List.drop_append_of_le_length hdropped]
      simp only [List.append_assoc]
    obtain ⟨hhistory, hview⟩ := rows_of_append hshape hback
    rw [if_pos htop, hgone]
    exact ⟨hview, hhistory⟩
  · have hshape : s'.lines.map Line.unstamped =
        scrollback s ++ (upper ++ kept ++ blanks ++ below) := by
      rw [hshows.rows]
      simp only [scrolledUp, if_neg htop, hscrolled, List.append_assoc, blanks]
    obtain ⟨hhistory, hview⟩ := rows_of_append hshape hback
    rw [if_neg htop]
    exact ⟨hview, hhistory⟩

/-- **When a scroll up does what it is for.** It always ends, and all is as it is to be, whatever
the scrollback held, exactly when no line is used again or the bidi mode is the default one. -/
theorem scrollUp_meets_iff (s : Screen) (hfull : s.physicalRows ≤ s.lines.length)
    (top bottom numRows : Nat) (hregion : top < bottom) (hbottom : bottom ≤ s.physicalRows)
    (seqno : Nat) (blankAttr : CellAttributes) (bidiMode : BidiMode) :
    ∃ s', s.scrollUp ⟨top, bottom⟩ numRows seqno blankAttr bidiMode = .ok s' ∧
      (ScrollsUp s s' top bottom numRows blankAttr bidiMode ↔
        Fresh s top bottom numRows bidiMode) := by
  obtain ⟨s', hrun, hsize, hcols, hview, hhistory⟩ :=
    scrollUp_rows hfull hregion hbottom rfl seqno blankAttr bidiMode
  generalize hn : min numRows (bottom - top) = n at hview hhistory
  refine ⟨s', hrun, ?_⟩
  -- with a scrollback, as many lines are dropped as it has too many
  have hdropped : top = 0 → s.allowScrollback = true →
      s.droppedRows top n = s.lines.length + n - (s.physicalRows + s.scrollbackSize) := by
    intro htop hscroll
    simp [droppedRows, linesRemoved, htop, hscroll]
  have hkeeps : top = 0 → s.allowScrollback = true →
      scrollback s' = newest s.scrollbackSize
        (scrollback s ++ ((visible s).take (min numRows bottom)).map
          Line.compressForScrollback) := by
    intro htop hscroll
    have hsame : min numRows bottom = n := by rw [← hn, htop, Nat.sub_zero]
    have hgone : ((visible s).take n).length = n := by
      rw [List.length_take, length_visible hfull]
      omega
    rw [hhistory, if_pos htop, hsame, newest]
    congr 1
    rw [List.length_append, List.length_map, hgone, length_scrollback, hdropped htop hscroll]
    omega
  have hmade : visible s' =
      (visible s).take top ++ ((visible s).take bottom).drop (top + n) ++
        List.replicate n (freshRow s.physicalCols blankAttr bidiMode) ++ (visible s).drop bottom ↔
      Fresh s top bottom numRows bidiMode := by
    rw [hview, List.append_left_inj, List.append_right_inj,
      replicate_append_eq_iff (Nat.min_le_right _ _), recycled_eq_fresh_iff]
    have hnone : min (s.droppedRows top n) n = 0 ↔ numRows = 0 ∨
        (top = 0 ∧ s.allowScrollback = true ∧
          s.lines.length + min numRows bottom ≤ s.physicalRows + s.scrollbackSize) := by
      by_cases hscroll : top = 0 ∧ s.allowScrollback = true
      · obtain ⟨htop, hscroll⟩ := hscroll
        have hsame : min numRows bottom = n := by rw [← hn, htop, Nat.sub_zero]
        rw [hdropped htop hscroll, hsame]
        simp only [htop, hscroll, true_and]
        omega
      · have hall : s.droppedRows top n = n := by
          have hfalse : (decide (top = 0) && s.allowScrollback) = false := by
            simpa using hscroll
          rw [droppedRows, hfalse]
          rfl
        rw [hall]
        have hone : ¬ (top = 0 ∧ s.allowScrollback = true ∧
            s.lines.length + min numRows bottom ≤ s.physicalRows + s.scrollbackSize) :=
          fun h => hscroll ⟨h.1, h.2.1⟩
        simp only [hone, or_false]
        omega
    rw [hnone, or_assoc]
    rfl
  rw [← hmade]
  constructor
  · intro h
    have hrows := h.rows
    rw [hn] at hrows
    exact hrows
  · intro hrows
    refine ⟨⟨hsize, hcols⟩, ?_, hkeeps, ?_⟩
    · rw [hn]
      exact hrows
    · intro htop hscroll
      have hlen := length_scrollback s'
      rw [hkeeps htop hscroll, newest, List.length_drop] at hlen
      omega

/-! ## A full scrollback -/

/-- A screen of two rows and no more, with a scrollback of one row that is full or not. -/
def twoRows (history : Nat) : Screen where
  lines := List.replicate (history + 2) (.new 0)
  stableRowIndexOffset := 0
  configuredScrollback := 1
  allowScrollback := true
  physicalRows := 2
  physicalCols := 3
  dpi := 96

/-- With room in the scrollback the row that comes in is one of a new line. -/
theorem scrollUp_meets_iff_room :
    ∃ s', (twoRows 0).scrollUp ⟨0, 2⟩ 1 7 .blank ⟨true, .autoRightToLeft⟩ = .ok s' ∧
      ScrollsUp (twoRows 0) s' 0 2 1 .blank ⟨true, .autoRightToLeft⟩ := by
  obtain ⟨s', hrun, hmeets⟩ := scrollUp_meets_iff (twoRows 0) (by decide) 0 2 1 (by decide)
    (by decide) 7 .blank ⟨true, .autoRightToLeft⟩
  exact ⟨s', hrun, hmeets.mpr (.inr (.inl (by decide)))⟩

/-- With a full scrollback it has not got the bidi mode. -/
theorem full_scrollback_loses_bidi :
    ((twoRows 0).scrollUp ⟨0, 2⟩ 1 7 .blank ⟨true, .autoRightToLeft⟩).map
        (fun s => (visible s).map fun line => line.bits.bidiEnabled) = .ok [false, true] ∧
      ((twoRows 1).scrollUp ⟨0, 2⟩ 1 7 .blank ⟨true, .autoRightToLeft⟩).map
        (fun s => (visible s).map fun line => line.bits.bidiEnabled) = .ok [false, false] ∧
      ∀ s', (twoRows 1).scrollUp ⟨0, 2⟩ 1 7 .blank ⟨true, .autoRightToLeft⟩ = .ok s' →
        ¬ ScrollsUp (twoRows 1) s' 0 2 1 .blank ⟨true, .autoRightToLeft⟩ := by
  refine ⟨by decide, by decide, ?_⟩
  intro s' hrun hmeets
  have hbits := congrArg (List.map fun line => line.bits.bidiEnabled) hmeets.rows
  have hshown : ((twoRows 1).scrollUp ⟨0, 2⟩ 1 7 .blank ⟨true, .autoRightToLeft⟩).map
      (fun s => (visible s).map fun line => line.bits.bidiEnabled) = .ok [false, false] := by
    decide
  rw [hrun] at hshown
  have hbare : ((visible s').map fun line => line.bits.bidiEnabled) = [false, false] :=
    Except.ok.inj hshown
  rw [hbare] at hbits
  revert hbits
  decide

end Wakterm.Theorems.Scroll

/-!
## One line down

A line feed, an index, a next line and the wrap of a full row take the cursor one row down, or, on
the last row of the region, scroll the region up.
-/

namespace Wakterm.Theorems.LineMovement

open Wakterm.Machine Wakterm.Term Wakterm.Term.TerminalState Wakterm.Theorems.Scroll

/-- The cursor is between the margins. -/
structure Inside (t : TerminalState) : Prop where
  top : t.topAndBottomMargins.start ≤ t.cursor.y
  bottom : t.cursor.y < t.topAndBottomMargins.stop
  left : t.leftAndRightMargins.start ≤ t.cursor.x
  right : t.cursor.x < t.leftAndRightMargins.stop

/-- The screens, the cursor and the margins. -/
structure Shown where
  screen : ScreenOrAlt
  cursor : CursorPosition
  topAndBottomMargins : Span Int
  leftAndRightMargins : Span Nat
  deriving DecidableEq

def shown (t : TerminalState) : Shown :=
  ⟨t.screen, t.cursor, t.topAndBottomMargins, t.leftAndRightMargins⟩

/-- A row of blanks; where these have no attributes, it has no cells. -/
def Blank (physicalCols : Nat) (attr : CellAttributes) (line : Line) : Prop :=
  line.cells = if attr = .blank then .C .new
    else .V (List.replicate physicalCols (.blankWithAttrs attr))

/-- Are the margins those of the screen? -/
def AllColumns (margins : Span Nat) (s : Screen) : Prop :=
  margins.start = 0 ∧ margins.stop = s.physicalCols

instance (margins : Span Nat) (s : Screen) : Decidable (AllColumns margins s) :=
  inferInstanceAs (Decidable (_ ∧ _))

/-- The region has scrolled up by one: each row is the one that was below it and the last is blank,
or this is so between the margins. The other rows of the viewport are as they were. -/
structure UpByOne (graphemes : Graphemes) (region : Span Int) (margins : Span Nat)
    (attr : CellAttributes) (s s' : Screen) : Prop where
  size : s'.physicalRows = s.physicalRows ∧ s'.physicalCols = s.physicalCols
  rows : ∃ rows, visible s' =
      (visible s).take region.start.toNat ++ rows ++ (visible s).drop region.stop.toNat ∧
    if AllColumns margins s then ∃ blank, Blank s.physicalCols attr blank ∧
      rows = ((visible s).take region.stop.toNat).drop (region.start.toNat + 1) ++ [blank]
    else RowsUp graphemes margins attr
      (((visible s).take region.stop.toNat).drop region.start.toNat) rows

/-- One line down, into column `x`. On the last row of the region, and only there, the row stays and
the region scrolls up by one. That ends well where the margins are those of the screen, or where the
first row of the region reads as many cells as it has columns. -/
structure GoesDown (graphemes : Graphemes) (t : TerminalState) (x : Nat)
    (step : Except Panic TerminalState) : Prop where
  down : t.cursor.y + 1 ≠ t.topAndBottomMargins.stop →
    step.map shown = .ok { shown t with cursor := ⟨x, t.cursor.y + 1⟩ }
  scrolls : t.cursor.y + 1 = t.topAndBottomMargins.stop → ∀ t', step = .ok t' →
    shown t' = { shown t with
      screen := t.screen.setActive t'.active, cursor := ⟨x, t.cursor.y⟩ } ∧
    UpByOne graphemes t.topAndBottomMargins t.leftAndRightMargins t.pen.cloneSgrOnly t.active
      t'.active
  ends : t.cursor.y + 1 = t.topAndBottomMargins.stop →
    (AllColumns t.leftAndRightMargins t.active ∨
      ∀ line, (visible t.active)[t.topAndBottomMargins.start.toNat]? = some line →
        line.len ≤ (line.vec graphemes).length) → ∃ t', step = .ok t'

/-- A step that goes one line down and does not leave the margins. -/
structure MovesDown (graphemes : Graphemes) (t : TerminalState) (x : Nat)
    (step : Except Panic TerminalState) : Prop extends GoesDown graphemes t x step where
  stays : ∀ t', step = .ok t' → Inside t'

/-- Where a step goes that goes down, by the scroll of the terminal. -/
def lineDown (graphemes : Graphemes) (t : TerminalState) (x : Nat) : Except Panic Shown :=
  if t.cursor.y = t.topAndBottomMargins.stop - 1 then
    (t.scrollUp graphemes 1).map fun t' => { shown t with
      screen := t'.screen, cursor := ⟨x, t.cursor.y⟩ }
  else .ok { shown t with cursor := ⟨x, t.cursor.y + 1⟩ }

/-- The place on the screen is the one that origin mode makes of it: the column and the row that
the cursor goes to are the last ones of the region, or the region begins where the screen does. -/
def Unshifted (t : TerminalState) (x : Nat) : Prop :=
  t.decOriginMode = true →
    (t.leftAndRightMargins.start = 0 ∨ x + 1 = t.leftAndRightMargins.stop) ∧
    (t.topAndBottomMargins.start = 0 ∨ t.topAndBottomMargins.stop - 2 ≤ t.cursor.y)

section Steps

variable {graphemes : Graphemes} {unicode : Unicode} {t t' : TerminalState} {x : Nat}

theorem lineDown_ok {s : Shown} (h : lineDown graphemes t x = .ok s) :
    s.topAndBottomMargins = t.topAndBottomMargins ∧
      s.leftAndRightMargins = t.leftAndRightMargins ∧ s.cursor.x = x ∧ s.cursor.y =
        if t.cursor.y = t.topAndBottomMargins.stop - 1 then t.cursor.y else t.cursor.y + 1 := by
  unfold lineDown at h
  split at h
  · next hbottom =>
    obtain ⟨t1, -, rfl⟩ := map_eq_ok.mp h
    exact ⟨rfl, rfl, rfl, (if_pos hbottom).symm⟩
  · next hbottom =>
    cases h
    exact ⟨rfl, rfl, rfl, (if_neg hbottom).symm⟩

/-! ### The scroll, row by row -/

theorem blank_recycled (physicalCols : Nat) (attr : CellAttributes) :
    Blank physicalCols attr (Screen.recycledRow physicalCols attr) := by
  unfold Blank Screen.recycledRow
  split
  · rfl
  · rfl

theorem blank_fresh (physicalCols : Nat) (attr : CellAttributes) (bidi : BidiMode) :
    Blank physicalCols attr (Screen.freshRow physicalCols attr bidi) := by
  unfold Blank Screen.freshRow blankLine
  split
  · rfl
  · rfl

theorem upByOne_allColumns (graphemes : Graphemes) {s : Screen} (hfilled : s.Filled)
    {top bottom : Nat} {margins : Span Nat}
    (hall : AllColumns margins s) (hregion : top < bottom) (hbottom : bottom ≤ s.physicalRows)
    (seqno : Nat) (attr : CellAttributes) (bidi : BidiMode) :
    ∃ s', s.scrollUp ⟨top, bottom⟩ 1 seqno attr bidi = .ok s' ∧
      UpByOne graphemes ⟨top, bottom⟩ margins attr s s' := by
  obtain ⟨s', hrun, hrows, hcols, hview, -⟩ := scrollUp_rows hfilled hregion hbottom
    (show 1 = min 1 (bottom - top) by omega) seqno attr bidi
  -- the blank row is one that was used again, or a new one
  obtain ⟨row, hrow, hblank⟩ : ∃ row,
      List.replicate (min (s.droppedRows top 1) 1) (Screen.recycledRow s.physicalCols attr) ++
        List.replicate (1 - min (s.droppedRows top 1) 1)
          (Screen.freshRow s.physicalCols attr bidi) = [row] ∧ Blank s.physicalCols attr row := by
    rcases Nat.eq_zero_or_pos (s.droppedRows top 1) with hzero | hpos
    · rw [hzero]
      exact ⟨_, rfl, blank_fresh s.physicalCols attr bidi⟩
    · rw [Nat.min_eq_right hpos]
      exact ⟨_, rfl, blank_recycled s.physicalCols attr⟩
  rw [hrow, List.append_assoc ((visible s).take top)] at hview
  refine ⟨s', hrun, ⟨hrows, hcols⟩, _, hview, ?_⟩
  rw [if_pos hall]
  exact ⟨row, hblank, rfl⟩

theorem upByOne_margins (graphemes : Graphemes) {s : Screen} (hfilled : s.Filled)
    {top bottom : Nat} {margins : Span Nat} (hnarrow : ¬ AllColumns margins s)
    (hmargins : margins.start ≤ margins.stop) (hregion : top < bottom)
    (hbottom : bottom ≤ s.physicalRows) (seqno : Nat) (attr : CellAttributes) (bidi : BidiMode) :
    (∀ s', s.scrollUpWithinMargins graphemes ⟨top, bottom⟩ margins 1 seqno attr bidi = .ok s' →
      UpByOne graphemes ⟨top, bottom⟩ margins attr s s') ∧
    ((∀ line, (visible s)[top]? = some line → line.len ≤ (line.vec graphemes).length) →
      ∃ s', s.scrollUpWithinMargins graphemes ⟨top, bottom⟩ margins 1 seqno attr bidi = .ok s') := by
  have hfilled : s.physicalRows ≤ s.lines.length := hfilled
  have hfit : (s.lines.length - s.physicalRows + top) + 1 + (bottom - top - 1) ≤ s.lines.length := by
    omega
  obtain ⟨upper, first, rows, lower, hlines, hupper, hfirst, hrows⟩ := exists_parts hfit
  obtain ⟨line, rfl⟩ := List.length_eq_one_iff.mp hfirst
  have hlines : s.lines = upper ++ line :: rows ++ lower := hlines
  obtain ⟨hup, hends⟩ := scrollUpWithinMargins_rows graphemes seqno attr bidi hnarrow hmargins
    hbottom hlines hupper (by omega)
  -- the rows above the viewport, and the parts of the viewport
  obtain ⟨front, above, rfl, hfront⟩ : ∃ front above, upper = front ++ above ∧
      front.length = s.lines.length - s.physicalRows :=
    ⟨upper.take (s.lines.length - s.physicalRows), upper.drop _,
      (List.take_append_drop _ _).symm, by
        rw [List.length_take]
        omega⟩
  have habove : (above.map Line.unstamped).length = top := by
    rw [List.length_append] at hupper
    rw [List.length_map]
    omega
  have hview : ∀ s' : Screen, s'.physicalRows = s.physicalRows → ∀ mid : List Line,
      mid.length = rows.length + 1 → s'.lines = (front ++ above) ++ mid ++ lower →
      visible s' = above.map Line.unstamped ++ mid.map Line.unstamped ++
        lower.map Line.unstamped := by
    intro s' hphysical mid hmid hlines'
    refine (@rows_of_append s' (front.map Line.unstamped) _ ?_ ?_).2
    · rw [hlines']
      simp only [List.map_append, List.append_assoc]
    · have hlen := congrArg List.length hlines
      simp only [List.length_append, List.length_cons] at hlen
      simp only [List.length_append, List.length_map, hmid, hphysical]
      rw [List.length_map] at habove
      omega
  have hold := hview s rfl (line :: rows) rfl hlines
  have hregionRows : (above.map Line.unstamped ++ (line :: rows).map Line.unstamped).length =
      bottom := by
    rw [List.length_append, habove, List.length_map, List.length_cons]
    omega
  refine ⟨fun s' h => ?_, fun hreads => hends ?_⟩
  · obtain ⟨rows', hmoved, rfl⟩ := hup s' h
    refine ⟨⟨rfl, rfl⟩, rows'.map Line.unstamped, ?_, ?_⟩
    · have hnew := hview { s with lines := front ++ above ++ rows' ++ lower } rfl rows'
        hmoved.length rfl
      rw [hnew, hold]
      show _ = List.take top _ ++ _ ++ List.drop bottom _
      rw [List.drop_left' hregionRows, List.append_assoc (above.map _) ((line :: rows).map _),
        List.take_left' habove]
    · rw [if_neg hnarrow, hold]
      show RowsUp _ _ _ (List.drop top (List.take bottom _)) _
      rw [List.take_left' hregionRows, List.drop_left' habove]
      exact hmoved.unstamped
  · refine hreads line.unstamped ?_
    rw [hold, List.append_assoc, List.getElem?_append_right (Nat.le_of_eq habove), habove,
      Nat.sub_self]
    rfl

theorem active_setActive (s : ScreenOrAlt) (screen : Screen) :
    (s.setActive screen).active = screen := by
  unfold ScreenOrAlt.setActive
  cases halt : s.altScreenIsActive with
  | false => simp [ScreenOrAlt.active]
  | true => simp [ScreenOrAlt.active]

theorem upByOne_screen (graphemes : Graphemes) {s : Screen} (hfilled : s.Filled)
    {region : Span Int} {margins : Span Nat}
    (htop : 0 ≤ region.start) (hregion : region.start < region.stop)
    (hbottom : region.stop ≤ s.physicalRows) (hmargins : margins.start ≤ margins.stop) (seqno : Nat)
    (attr : CellAttributes) (bidi : BidiMode) :
    (∀ s', s.scrollUpWithinMargins graphemes region margins 1 seqno attr bidi = .ok s' →
      UpByOne graphemes region margins attr s s') ∧
    ((AllColumns margins s ∨ ∀ line, (visible s)[region.start.toNat]? = some line →
      line.len ≤ (line.vec graphemes).length) →
        ∃ s', s.scrollUpWithinMargins graphemes region margins 1 seqno attr bidi = .ok s') := by
  obtain ⟨start, stop⟩ := region
  obtain ⟨top, rfl⟩ := Int.eq_ofNat_of_zero_le htop
  obtain ⟨bottom, rfl⟩ := Int.eq_ofNat_of_zero_le (Int.le_of_lt (Int.lt_of_le_of_lt htop hregion))
  have hregion : top < bottom := Int.ofNat_lt.mp hregion
  have hbottom : bottom ≤ s.physicalRows := Int.ofNat_le.mp hbottom
  by_cases hall : AllColumns margins s
  · obtain ⟨s1, hrun, hup⟩ := upByOne_allColumns graphemes hfilled hall hregion
      hbottom seqno attr bidi
    have hsame : s.scrollUpWithinMargins graphemes ⟨(top : Int), (bottom : Int)⟩ margins 1 seqno attr
        bidi = s.scrollUp ⟨(top : Int), (bottom : Int)⟩ 1 seqno attr bidi := if_pos hall
    rw [hsame, hrun]
    refine ⟨?_, fun _ => ⟨s1, rfl⟩⟩
    rintro s' ⟨⟩
    exact hup
  · obtain ⟨hup, hends⟩ := upByOne_margins graphemes hfilled hall hmargins hregion hbottom seqno
      attr bidi
    exact ⟨hup, fun hreads => hends (hreads.resolve_left hall)⟩

/-- The scroll of the terminal is that of the screen that is shown, by rows. -/
theorem upByOne_scrollUp (graphemes : Graphemes) (hframed : t.Framed) (hfilled : t.active.Filled) (hinside : Inside t) :
    (∀ t1, t.scrollUp graphemes 1 = .ok t1 → t1.screen = t.screen.setActive t1.active ∧
      UpByOne graphemes t.topAndBottomMargins t.leftAndRightMargins t.pen.cloneSgrOnly t.active
        t1.active) ∧
    ((AllColumns t.leftAndRightMargins t.active ∨
      ∀ line, (visible t.active)[t.topAndBottomMargins.start.toNat]? = some line →
        line.len ≤ (line.vec graphemes).length) → ∃ t1, t.scrollUp graphemes 1 = .ok t1) := by
  have hfit : t.topAndBottomMargins.stop ≤ t.active.physicalRows := by
    rw [active_rows hframed.rows]
    exact hframed.bottom
  obtain ⟨hup, hends⟩ := upByOne_screen graphemes hfilled hframed.top
    (Int.lt_of_le_of_lt hinside.top hinside.bottom) hfit
    (Nat.le_of_lt (Nat.lt_of_le_of_lt hinside.left hinside.right)) t.seqno t.pen.cloneSgrOnly
    t.getBidiMode
  refine ⟨fun t1 h => ?_, fun hreads => ?_⟩
  · obtain ⟨s', hrun, rfl⟩ := map_eq_ok.mp h
    have hactive := active_setActive t.screen s'
    unfold TerminalState.active at hup ⊢
    dsimp only
    rw [hactive]
    exact ⟨rfl, hup s' hrun⟩
  · obtain ⟨s', hrun⟩ := hends hreads
    exact ⟨_, map_eq_ok.mpr ⟨s', hrun, rfl⟩⟩

theorem goesDown_of_moves {step : Except Panic TerminalState} (hframed : t.Framed)
    (hfilled : t.active.Filled) (hinside : Inside t) (h : step.map shown = lineDown graphemes t x) :
    GoesDown graphemes t x step := by
  obtain ⟨hup, hends⟩ := upByOne_scrollUp graphemes hframed hfilled hinside
  unfold lineDown at h
  refine ⟨fun hrow => ?_, ?_, fun hrow hreads => ?_⟩
  · rw [h, if_neg (by omega)]
  · rintro hrow t' rfl
    rw [if_pos (by omega)] at h
    obtain ⟨t1, hscroll, hshown⟩ := map_eq_ok.mp h.symm
    obtain ⟨hscreen, hrows⟩ := hup t1 hscroll
    have hsame : t'.screen = t1.screen := (congrArg Shown.screen hshown).symm
    have hactive : t'.active = t1.active := congrArg ScreenOrAlt.active hsame
    rw [hactive, ← hscreen]
    exact ⟨hshown.symm, hrows⟩
  · obtain ⟨t1, hscroll⟩ := hends hreads
    rw [if_pos (by omega), hscroll] at h
    obtain ⟨t', hstep, -⟩ := map_eq_ok.mp h
    exact ⟨t', hstep⟩

theorem movesDown_of_moves {step : Except Panic TerminalState} (hframed : t.Framed)
    (hfilled : t.active.Filled) (hinside : Inside t)
    (hleft : t.leftAndRightMargins.start ≤ x) (hright : x < t.leftAndRightMargins.stop)
    (h : step.map shown = lineDown graphemes t x) : MovesDown graphemes t x step := by
  refine ⟨goesDown_of_moves hframed hfilled hinside h, ?_⟩
  rintro t' rfl
  obtain ⟨hregion, hcolumns, hx, hy⟩ := lineDown_ok h.symm
  have htop := hinside.top
  have hbottom := hinside.bottom
  have hregion : t'.topAndBottomMargins = t.topAndBottomMargins := hregion
  have hcolumns : t'.leftAndRightMargins = t.leftAndRightMargins := hcolumns
  have hx : t'.cursor.x = x := hx
  have hy : t'.cursor.y = _ := hy
  constructor
  · rw [hregion, hy]
    split
    · exact htop
    · omega
  · rw [hregion, hy]
    split
    · exact hbottom
    · omega
  · rw [hcolumns, hx]
    exact hleft
  · rw [hcolumns, hx]
    exact hright

/-! ### The cursor -/

theorem shown_clearSemantic (t : TerminalState) :
    shown t.clearSemanticAttributeDueToMovement = shown t := by
  unfold clearSemanticAttributeDueToMovement
  split
  · rfl
  · rfl

theorem shown_setCursorPositionAbsolute (t : TerminalState) (x : Nat) (y : Int) :
    shown (t.setCursorPositionAbsolute x y) = { shown t with cursor := ⟨x, y⟩ } := by
  unfold setCursorPositionAbsolute
  dsimp only
  split
  · show { shown t.clearSemanticAttributeDueToMovement with cursor := ⟨x, y⟩ } = _
    rw [shown_clearSemantic]
  · rfl

theorem newlineMode_setCursorPositionAbsolute (t : TerminalState) (x : Nat) (y : Int) :
    (t.setCursorPositionAbsolute x y).newlineMode = t.newlineMode := by
  unfold setCursorPositionAbsolute clearSemanticAttributeDueToMovement
  dsimp only
  split
  · split
    · rfl
    · rfl
  · rfl

theorem cursorColumn_absolute (hframed : t.Framed) (hright : x < t.leftAndRightMargins.stop)
    (hshift : t.decOriginMode = true →
      t.leftAndRightMargins.start = 0 ∨ x + 1 = t.leftAndRightMargins.stop) :
    (t.cursorColumn (.absolute x)).toNat = x := by
  have hcols := active_cols hframed.cols
  have hfit := hframed.right
  unfold cursorColumn
  cases horigin : t.decOriginMode with
  | false =>
    simp only [Bool.false_eq_true, if_false, hcols]
    omega
  | true =>
    have hshift := hshift horigin
    simp only [if_true]
    omega

theorem cursorRow_absolute (hframed : t.Framed) {y : Int} (htop : t.topAndBottomMargins.start ≤ y)
    (hbottom : y < t.topAndBottomMargins.stop) (hshift : t.decOriginMode = true →
      t.topAndBottomMargins.start = 0 ∨ y + 1 = t.topAndBottomMargins.stop) :
    t.cursorRow (.absolute y) = y := by
  have hrows := active_rows hframed.rows
  have hfit := hframed.bottom
  have hstart := hframed.top
  unfold cursorRow
  cases horigin : t.decOriginMode with
  | false =>
    simp only [Bool.false_eq_true, if_false, hrows]
    omega
  | true =>
    have hshift := hshift horigin
    simp only [if_true]
    omega

/-! ### The steps -/

theorem movesDown_c1Index (hframed : t.Framed) (hfilled : t.active.Filled) (hinside : Inside t) :
    MovesDown graphemes t t.cursor.x (t.c1Index graphemes) := by
  refine movesDown_of_moves hframed hfilled hinside hinside.left hinside.right ?_
  have hbetween : t.betweenMargins = true :=
    Bool.and_eq_true_iff.mpr ⟨decide_eq_true hinside.left, decide_eq_true hinside.right⟩
  unfold c1Index lineDown
  rw [if_pos hbetween]
  split
  · cases hscroll : t.scrollUp graphemes 1 with
    | error panic => rfl
    | ok t1 =>
      obtain ⟨s, -, rfl⟩ := onScreen_eq_ok hscroll
      rfl
  · next hrow =>
    have hcolumn : (t.cursorColumn (.relative 0)).toNat = t.cursor.x := by
      have hcols := active_cols hframed.cols
      have hfit := hframed.right
      have hright := hinside.right
      unfold cursorColumn
      dsimp only
      split
      · omega
      · omega
    have hdown : t.cursorRow (.relative 1) = t.cursor.y + 1 := by
      have hrows := active_rows hframed.rows
      have hfit := hframed.bottom
      have htop := hframed.top
      have habove := hinside.top
      have hbelow := hinside.bottom
      unfold cursorRow
      dsimp only
      split
      · omega
      · omega
    refine congrArg Except.ok ?_
    unfold setCursorPos
    rw [shown_setCursorPositionAbsolute, hcolumn, hdown]

theorem movesDown_c1Nel (hframed : t.Framed) (hfilled : t.active.Filled) (hinside : Inside t) :
    MovesDown graphemes t t.leftAndRightMargins.start (t.c1Nel graphemes) := by
  refine movesDown_of_moves hframed hfilled hinside (Nat.le_refl _)
    (Nat.lt_of_le_of_lt hinside.left hinside.right) ?_
  have hbetween : t.betweenMargins = true :=
    Bool.and_eq_true_iff.mpr ⟨decide_eq_true hinside.left, decide_eq_true hinside.right⟩
  have hwithin : t.withinRegion = true :=
    Bool.and_eq_true_iff.mpr ⟨decide_eq_true hinside.top, decide_eq_true hinside.bottom⟩
  unfold c1Nel lineDown
  dsimp only
  rw [if_pos hbetween, if_pos hwithin]
  split
  · cases hscroll : t.scrollUp graphemes 1 with
    | error panic => rfl
    | ok t1 =>
      obtain ⟨s, -, rfl⟩ := onScreen_eq_ok hscroll
      exact congrArg Except.ok (shown_setCursorPositionAbsolute _ _ _)
  · next hrow =>
    have hbelow := hinside.bottom
    have hdown : min (t.cursor.y + 1) (t.topAndBottomMargins.stop - 1) = t.cursor.y + 1 := by omega
    refine congrArg Except.ok ?_
    rw [shown_setCursorPositionAbsolute, hdown]

theorem moves_newLine (hframed : t.Framed) (hinside : Inside t) {first : Bool}
    (hx : x = if first then t.leftAndRightMargins.start else t.cursor.x) (hshift : Unshifted t x) :
    (t.newLine graphemes first).map shown = lineDown graphemes t x := by
  have hright : x < t.leftAndRightMargins.stop := by
    have hleft := hinside.left
    have hright := hinside.right
    split at hx
    · omega
    · omega
  have htop := hinside.top
  have hbelow := hinside.bottom
  unfold newLine lineDown
  dsimp only
  rw [← hx]
  split
  · next hrow =>
    cases hscroll : t.scrollUp graphemes 1 with
    | error panic => rfl
    | ok t1 =>
      -- the scroll leaves the sizes, the margins and the modes
      have hframed1 := (stays_scrollUp t1 hscroll).framed hframed
      obtain ⟨s, -, rfl⟩ := onScreen_eq_ok hscroll
      have hlast : t.cursor.y + 1 = t.topAndBottomMargins.stop := by omega
      refine congrArg Except.ok ?_
      unfold setCursorPos
      rw [shown_setCursorPositionAbsolute, cursorColumn_absolute hframed1 hright
        fun horigin => (hshift horigin).1, cursorRow_absolute hframed1 htop hbelow
        fun _ => .inr hlast]
      rfl
  · next hrow =>
    refine congrArg Except.ok ?_
    unfold setCursorPos
    rw [shown_setCursorPositionAbsolute, cursorColumn_absolute hframed hright
      fun horigin => (hshift horigin).1, cursorRow_absolute hframed (by omega) (by omega) ?_]
    intro horigin
    exact (hshift horigin).2.imp id fun h => by omega

theorem newLine_newlineMode {first : Bool} (h : t.newLine graphemes first = .ok t') :
    t'.newlineMode = t.newlineMode := by
  unfold newLine at h
  dsimp only at h
  split at h
  · obtain ⟨t1, hscroll, h⟩ := bind_eq_ok.mp h
    cases h
    obtain ⟨s, -, rfl⟩ := onScreen_eq_ok hscroll
    exact newlineMode_setCursorPositionAbsolute _ _ _
  · cases h
    exact newlineMode_setCursorPositionAbsolute _ _ _

/-- In newline mode the cursor goes on to the first column. -/
def returned (newlineMode : Bool) (s : Shown) : Shown :=
  if newlineMode then { s with cursor := ⟨0, s.cursor.y⟩ } else s

theorem moves_lineFeed (hframed : t.Framed) (hinside : Inside t) (hshift : Unshifted t t.cursor.x) :
    (t.lineFeed graphemes).map shown =
      (lineDown graphemes t t.cursor.x).map (returned t.newlineMode) := by
  have hbetween : t.betweenMargins = true :=
    Bool.and_eq_true_iff.mpr ⟨decide_eq_true hinside.left, decide_eq_true hinside.right⟩
  have hline : (t.newLine graphemes false).map shown = lineDown graphemes t t.cursor.x :=
    moves_newLine hframed hinside rfl hshift
  rw [← hline]
  unfold lineFeed
  rw [if_pos hbetween]
  cases hrun : t.newLine graphemes false with
  | error panic => rfl
  | ok t1 =>
    have hmode := newLine_newlineMode hrun
    unfold returned
    rw [← hmode]
    cases hset : t1.newlineMode with
    | false =>
      show (if t1.newlineMode = true then _ else _ : Except Panic TerminalState).map shown = _
      rw [hset]
      rfl
    | true =>
      show (if t1.newlineMode = true then _ else _ : Except Panic TerminalState).map shown = _
      rw [hset]
      exact congrArg Except.ok (shown_clearSemantic _)

theorem lineDown_column : (lineDown graphemes t x).map (fun s => { s with cursor := ⟨0, s.cursor.y⟩ })
      = lineDown graphemes t 0 := by
  unfold lineDown
  split
  · cases t.scrollUp graphemes 1 with
    | error panic => rfl
    | ok t1 => rfl
  · rfl

theorem filled_active (h : t.screen.screen.Filled ∧ t.screen.altScreen.Filled) :
    t.active.Filled := by
  unfold TerminalState.active ScreenOrAlt.active
  split
  · exact h.2
  · exact h.1

theorem shown_markWrapped (h : t.markWrapped unicode = .ok t') :
    t' = { t with screen := t'.screen } := by
  obtain ⟨s, -, rfl⟩ := onScreen_eq_ok h
  rfl

end Steps

/-- **An index and a next line go one line down from every state in which the cursor is between the
margins**, and so do a line feed and the wrap of a full row where origin mode does not shift the
place on the screen; in newline mode a line feed goes on to the first column. The wrap has marked
the row that it leaves before it does so. -/
theorem lines_go_down {unicode : Unicode} {t : TerminalState} (h : t.Reachable unicode)
    (hinside : Inside t) :
    MovesDown unicode.graphemes t t.cursor.x (t.control unicode.graphemes .ind) ∧
    MovesDown unicode.graphemes t t.leftAndRightMargins.start (t.control unicode.graphemes .nel) ∧
    (Unshifted t t.cursor.x → t.newlineMode = false →
      MovesDown unicode.graphemes t t.cursor.x (t.control unicode.graphemes .lineFeed)) ∧
    (Unshifted t t.cursor.x → t.newlineMode = true →
      GoesDown unicode.graphemes t 0 (t.control unicode.graphemes .lineFeed)) ∧
    (Unshifted t t.leftAndRightMargins.start → t.wrapNext = true →
      ∀ t1, t.markWrapped unicode = .ok t1 →
        { shown t1 with screen := t.screen } = shown t ∧
        MovesDown unicode.graphemes t1 t.leftAndRightMargins.start (t.wrapPending unicode)) := by
  have hframed := h.framed
  have hfilled := filled_active h.filled
  refine ⟨movesDown_c1Index hframed hfilled hinside, movesDown_c1Nel hframed hfilled hinside, ?_, ?_,
    ?_⟩
  · intro hshift hmode
    refine movesDown_of_moves hframed hfilled hinside hinside.left hinside.right ?_
    show (t.lineFeed unicode.graphemes).map shown = _
    rw [moves_lineFeed hframed hinside hshift, hmode]
    cases lineDown unicode.graphemes t t.cursor.x with
    | error panic => rfl
    | ok s => rfl
  · intro hshift hmode
    refine goesDown_of_moves hframed hfilled hinside ?_
    show (t.lineFeed unicode.graphemes).map shown = _
    rw [moves_lineFeed hframed hinside hshift, hmode]
    exact lineDown_column
  · intro hshift hwrap t1 hmark
    have hsame := shown_markWrapped hmark
    have hframed1 := (stays_markWrapped t1 hmark).framed hframed
    have hkeeps := (stays_markWrapped t1 hmark).keeps
    have hfilled1 : t1.active.Filled := filled_active
      ⟨(hkeeps.screen.filled h.filled.1).1, (hkeeps.altScreen.filled h.filled.2).1⟩
    have hinside1 : Inside t1 := by
      rw [hsame]
      exact ⟨hinside.top, hinside.bottom, hinside.left, hinside.right⟩
    have hleft : t1.leftAndRightMargins.start = t.leftAndRightMargins.start := by rw [hsame]
    have hshift1 : Unshifted t1 t1.leftAndRightMargins.start := by
      rw [hsame]
      exact hshift
    refine ⟨by rw [hsame]; rfl, ?_⟩
    have hrun : t.wrapPending unicode = t1.newLine unicode.graphemes true := by
      unfold wrapPending
      rw [if_pos hwrap, hmark]
      rfl
    rw [hrun, ← hleft]
    refine movesDown_of_moves hframed1 hfilled1 hinside1 (Nat.le_refl _)
      (Nat.lt_of_le_of_lt hinside1.left hinside1.right) ?_
    exact moves_newLine hframed1 hinside1 rfl hshift1

/-! ### Where the law ends -/

/-- Every character is a grapheme of one column. -/
def singles : Unicode where
  graphemes := ⟨fun text => text.map fun c => [c], fun _ => false⟩
  columnWidth := fun _ _ => ⟨1, by decide⟩
  isWhiteSpaceGrapheme := fun text => text = [' ']
  normalize := id

/-- A terminal of four rows and four columns. -/
def square : TerminalState := .new ⟨4, 4, 96⟩ ⟨⟨false, .leftToRight⟩, false, 9⟩ 10

/-- The state after some actions. -/
def squareAfter (actions : List Action) : TerminalState :=
  ((square.performActions singles actions).toOption).getD square

theorem reachable_squareAfter {actions : List Action}
    (h : square.performActions singles actions = .ok (squareAfter actions)) :
    (squareAfter actions).Reachable singles :=
  Reachable.performActions (.new ⟨4, 4, 96⟩ ⟨⟨false, .leftToRight⟩, false, 9⟩ 10 false) h

/-- A letter in the second row, and the cursor behind it in the last. -/
def lastRow : TerminalState :=
  squareAfter [.control .lineFeed, .print 'a', .control .lineFeed, .control .lineFeed]

/-- The next line is begun on the last row: the letter is in the first row then. -/
theorem lines_go_down_last : lastRow.cursor = ⟨1, 3⟩ ∧
    MovesDown singles.graphemes lastRow 0 (lastRow.control singles.graphemes .nel) ∧
    ∃ t', lastRow.control singles.graphemes .nel = .ok t' ∧ t'.cursor = ⟨0, 3⟩ ∧
      ∃ line, (visible t'.active)[0]? = some line ∧
        (line.vec singles.graphemes).map Cell.text = [['a']] := by
  have hreachable : lastRow.Reachable singles := reachable_squareAfter (by decide)
  have hinside : Inside lastRow := ⟨by decide, by decide, by decide, by decide⟩
  have hmoves : MovesDown singles.graphemes lastRow 0 (lastRow.control singles.graphemes .nel) :=
    (lines_go_down hreachable hinside).2.1
  refine ⟨by decide, hmoves, ?_⟩
  obtain ⟨t', hstep⟩ := hmoves.ends (by decide) (.inl (by decide))
  obtain ⟨hshown, hup⟩ := hmoves.scrolls (by decide) t' hstep
  obtain ⟨rows, hview, hrows⟩ := hup.rows
  rw [if_pos (by decide)] at hrows
  obtain ⟨blank, -, rfl⟩ := hrows
  obtain ⟨line, hline, htext⟩ : ∃ line, (visible lastRow.active)[1]? = some line ∧
      (line.vec singles.graphemes).map Cell.text = [['a']] := ⟨_, rfl, by decide⟩
  refine ⟨t', hstep, congrArg Shown.cursor hshown, line, ?_, htext⟩
  rw [hview, ← hline]
  rfl

/-- The region begins in the second row, and rows are counted from there. -/
def originMode : List Action :=
  [.csi (.cursor (.setTopAndBottomMargins 1 3)), .csi (.mode true .originMode)]

/-- In newline mode a line feed goes to the first column. In origin mode a line feed in the first
row of a region that begins in the second row goes down two rows, and so does the wrap of a full
row. -/
theorem line_feed_leaves_column_and_row : (∃ t : TerminalState, t.Reachable singles ∧ Inside t ∧
      (t.cursor, (t.control singles.graphemes .lineFeed).map TerminalState.cursor) =
        (⟨1, 0⟩, .ok ⟨0, 1⟩) ∧
      ¬ MovesDown singles.graphemes t t.cursor.x (t.control singles.graphemes .lineFeed)) ∧
    (∃ t : TerminalState, t.Reachable singles ∧ Inside t ∧
      (t.cursor, (t.control singles.graphemes .lineFeed).map TerminalState.cursor) =
        (⟨0, 1⟩, .ok ⟨0, 3⟩) ∧
      ¬ MovesDown singles.graphemes t t.cursor.x (t.control singles.graphemes .lineFeed)) ∧
    ∃ t t1 : TerminalState, t.Reachable singles ∧ Inside t ∧ t.wrapNext = true ∧
      t.markWrapped singles = .ok t1 ∧
      (t.cursor, (t.wrapPending singles).map TerminalState.cursor) = (⟨3, 1⟩, .ok ⟨0, 3⟩) ∧
      ¬ MovesDown singles.graphemes t1 t.leftAndRightMargins.start (t.wrapPending singles) := by
  refine ⟨⟨squareAfter [.csi (.mode true .automaticNewline), .print 'a'],
    reachable_squareAfter (by decide), ⟨by decide, by decide, by decide, by decide⟩, by decide, ?_⟩,
    ⟨squareAfter originMode, reachable_squareAfter (by decide),
      ⟨by decide, by decide, by decide, by decide⟩, by decide, ?_⟩, ?_⟩
  · intro h
    exact absurd (h.down (by decide)) (by decide)
  · intro h
    exact absurd (h.down (by decide)) (by decide)
  · refine ⟨squareAfter (originMode ++ [Action.printString ['a', 'b', 'c', 'd']]),
      ((squareAfter (originMode ++ [Action.printString ['a', 'b', 'c', 'd']])).markWrapped singles
        ).toOption.getD square, reachable_squareAfter (by decide),
      ⟨by decide, by decide, by decide, by decide⟩, by decide, by decide, by decide, ?_⟩
    intro h
    exact absurd (h.down (by decide)) (by decide)

end Wakterm.Theorems.LineMovement
