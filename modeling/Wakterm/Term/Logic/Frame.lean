import Wakterm.Term.Logic.Scroll
import Wakterm.Term.Logic.Switch

/-!
# What no action changes

The sizes of the two screens are set when the terminal is made, and only a resize changes them.
-/

namespace Wakterm.Term

open Wakterm.Machine

/-- There is a line for each row. -/
def Screen.Filled (s : Screen) : Prop := s.physicalRows ≤ s.lines.length

/-- Without a scrollback there are no lines but those of the rows. -/
def Screen.Exact (s : Screen) : Prop := s.allowScrollback = false → s.lines.length = s.physicalRows

def Screen.Fits (s : Screen) : Prop := s.Filled ∧ s.Exact

/-- Only lines and the count of the rows above them have changed, and there are enough lines. -/
structure Screen.Keeps (s s' : Screen) : Prop where
  frame : s' = { s with lines := s'.lines, stableRowIndexOffset := s'.stableRowIndexOffset }
  filled : s.Filled → s'.Filled ∧ (s.Exact → s'.Exact)

namespace Screen

variable {graphemes : Graphemes} {s s' s'' : Screen} {seqno : Nat}

theorem Keeps.fits (h : s.Keeps s') (hfits : s.Fits) : s'.Fits :=
  ⟨(h.filled hfits.1).1, (h.filled hfits.1).2 hfits.2⟩

theorem Keeps.refl (s : Screen) : s.Keeps s := ⟨rfl, fun h => ⟨h, id⟩⟩

theorem Keeps.trans (h : s.Keeps s') (h' : s'.Keeps s'') : s.Keeps s'' := by
  refine ⟨by rw [h'.frame, h.frame], fun hfilled => ?_⟩
  obtain ⟨hfilled1, hexact1⟩ := h.filled hfilled
  obtain ⟨hfilled2, hexact2⟩ := h'.filled hfilled1
  exact ⟨hfilled2, fun hexact => hexact2 (hexact1 hexact)⟩

instance : Std.Refl Screen.Keeps := ⟨.refl⟩

instance : IsTrans Screen Screen.Keeps := ⟨fun _ _ _ => .trans⟩

theorem keeps_lines {lines : List Line} (hlen : lines.length = s.lines.length) :
    s.Keeps { s with lines := lines } := by
  refine ⟨rfl, fun hfilled => ?_⟩
  unfold Filled Exact at *
  dsimp only
  rw [hlen]
  exact ⟨hfilled, id⟩

theorem keeps_modifyLine {idx : Nat} {f : Line → Except Panic Line} :
    Ends Keeps s (s.modifyLine idx f) := by
  unfold modifyLine
  split
  · exact ends_error _
  · intro s' h
    obtain ⟨line, -, rfl⟩ := map_eq_ok.mp h
    exact keeps_lines List.length_set

variable {n start removeIdx insertAt numRows : Nat} {attr : CellAttributes} {region : Span Int}
  {bidi : BidiMode} {margins : Span Nat}

theorem keeps_touchRows : Ends Keeps s (rowsFrom start n (touch seqno) s) :=
  ends_rowsFrom fun _ _ => keeps_modifyLine

theorem length_moveLine {insertAtEnd : Bool}
    (h : s.moveLine removeIdx seqno attr insertAtEnd insertAt = .ok s') :
    s' = { s with lines := s'.lines } ∧ s'.lines.length = s.lines.length := by
  unfold moveLine at h
  split at h
  · cases h
  · next line hline =>
    have hlt := (List.getElem?_eq_some_iff.mp hline).1
    dsimp only at h
    split at h
    · cases h
      refine ⟨rfl, ?_⟩
      show (s.lines.eraseIdx removeIdx ++ [_]).length = _
      rw [List.length_append, List.length_eraseIdx_of_lt hlt, List.length_singleton]
      omega
    · split at h
      · cases h
      · next hfit =>
        cases h
        refine ⟨rfl, ?_⟩
        show ((s.lines.eraseIdx removeIdx).insertIdx insertAt _).length = _
        rw [List.length_insertIdx_of_le_length (Nat.le_of_not_lt hfit),
          List.length_eraseIdx_of_lt hlt]
        omega

theorem length_moveLines {insertAtEnd : Bool}
    (h : rounds n (moveLine removeIdx seqno attr insertAtEnd insertAt) s = .ok s') :
    s' = { s with lines := s'.lines } ∧ s'.lines.length = s.lines.length := by
  induction n generalizing s with
  | zero =>
    cases h
    exact ⟨rfl, rfl⟩
  | succ n ih =>
    obtain ⟨s1, h1, h2⟩ := bind_eq_ok.mp h
    obtain ⟨hframe1, hlen1⟩ := length_moveLine h1
    obtain ⟨hframe2, hlen2⟩ := ih h2
    refine ⟨?_, hlen2.trans hlen1⟩
    rw [hframe2, hframe1]

theorem keeps_compressRows : Ends Keeps s
      (rowsFrom start n (fun y s => s.modifyLine y fun line => .ok line.compressForScrollback) s) :=
  ends_rowsFrom fun _ _ => keeps_modifyLine

theorem keeps_scrollUp : Ends Keeps s (s.scrollUp region numRows seqno attr bidi) := by
  intro s' h
  obtain ⟨s1, s2, s3, s4, s5, n, ok, atEnd, removed, at0, hn, hok, hend, hremoved, hat0, h1, h2, h3,
    h4, h5, h6⟩ := scrollUp_stages h
  have hkeeps1 : s.Keeps s1 := by
    split at h1
    · cases h1
      exact .refl s
    · exact keeps_touchRows s1 h1
  have hkeeps2 : s1.Keeps s2 := by
    split at h2
    · exact keeps_compressRows s2 h2
    · cases h2
      exact .refl s1
  have hkeeps6 : s5.Keeps s' := by
    split at h6
    · exact keeps_touchRows s' h6
    · obtain rfl := Except.ok.inj h6
      exact .refl s5
  refine (hkeeps1.trans hkeeps2).trans (Keeps.trans ?_ hkeeps6)
  have hlen2 : s2.lines.length = s1.lines.length := by
    split at h2
    · exact (rowsFrom_modify (f := Line.compressForScrollback) h2).2.1
    · cases h2
      rfl
  obtain ⟨hframe3, hlen3⟩ := length_moveLines h3
  obtain ⟨hframe4, hlen4, -⟩ := rounds_removeLine h4
  obtain ⟨hframe5, hlen5, -⟩ := rounds_addLine h5
  have hdropped : ∃ offset, (if at0 = 0 ∧ ok = true then
      { s4 with stableRowIndexOffset := s4.stableRowIndexOffset + removed } else s4) =
      { s4 with stableRowIndexOffset := offset } := by
    split
    · exact ⟨_, rfl⟩
    · exact ⟨_, rfl⟩
  obtain ⟨offset, hoffset⟩ := hdropped
  rw [hoffset] at hframe5 hlen5
  have hrows : s1.physicalRows = s2.physicalRows := by rw [hkeeps2.frame]
  have hallow : s2.allowScrollback = s.allowScrollback := by
    rw [hkeeps2.frame, hkeeps1.frame]
  refine ⟨?_, ?_⟩
  · rw [hframe5, hframe4, hframe3]
  · intro hfit
    have hrows5 : s5.physicalRows = s2.physicalRows := by rw [hframe5, hframe4, hframe3]
    have hallow5 : s5.allowScrollback = s2.allowScrollback := by rw [hframe5, hframe4, hframe3]
    unfold Filled Exact at *
    rw [hrows5, hallow5]
    have hlen5 : s5.lines.length = s4.lines.length + (n - min removed n) := hlen5
    cases hscroll : ok with
    | false =>
      -- as many lines come in as go
      rw [hscroll] at hremoved
      have hcount : removed = n := hremoved
      have hlen4 := hlen4
      rw [hcount, Nat.min_self, Nat.sub_self] at h4 hlen5
      cases h4
      exact ⟨by omega, fun hexact hno => by have := hexact (hallow ▸ hno); omega⟩
    | true =>
      rw [hscroll] at hremoved hok
      obtain ⟨hstart, hyes⟩ : decide (region.start = 0) = true ∧ s.allowScrollback = true :=
        Bool.and_eq_true_iff.mp hok.symm
      have hzero : at0 = 0 := by rw [hat0, if_pos (of_decide_eq_true hstart)]
      have hcount : removed = s1.lines.length + n - (s1.physicalRows + s1.scrollbackSize) :=
        hremoved
      rw [hzero] at hlen4
      have hlen4 := hlen4 (by omega)
      refine ⟨by omega, fun _ hno => ?_⟩
      rw [hallow, hyes] at hno
      cases hno

theorem keeps_scrollDown : Ends Keeps s (s.scrollDown region numRows seqno attr bidi) := by
  intro s' h
  unfold scrollDown at h
  dsimp only at h
  split at h
  · cases h
  · obtain ⟨s1, h1, h⟩ := bind_eq_ok.mp h
    obtain ⟨s2, h2, h3⟩ := bind_eq_ok.mp h
    have hkeeps1 := keeps_touchRows s1 h1
    obtain ⟨-, hlen1, -⟩ := rowsFrom_modify (f := fun line => line.updateLastChangeSeqno seqno) h1
    obtain ⟨hframe2, hlen2, -⟩ := rounds_removeLine h2
    obtain ⟨hframe3, hlen3, -⟩ := rounds_addLine h3
    refine hkeeps1.trans ⟨by rw [hframe3, hframe2], ?_⟩
    intro hfit
    unfold Filled Exact at *
    have hrows : s1.physicalRows = s.physicalRows := by rw [hkeeps1.frame]
    -- the rows that go are there: the region ends within the lines
    have hstop : (s.physRange region).stop ≤ s1.lines.length := by
      show s.lines.length - s.physicalRows + min region.stop.toNat s.physicalRows ≤ _
      omega
    have hlen2 := hlen2 (by omega)
    have hlen : s'.lines.length = s1.lines.length := by omega
    have hrows3 : s'.physicalRows = s1.physicalRows := by rw [hframe3, hframe2]
    have hallow3 : s'.allowScrollback = s1.allowScrollback := by rw [hframe3, hframe2]
    rw [hlen, hrows3, hallow3]
    exact ⟨hfit, id⟩

theorem keeps_eraseScrollback : Ends Keeps s s.eraseScrollback := by
  unfold eraseScrollback
  split
  · exact ends_error _
  · next hfit =>
    refine ends_ok ⟨rfl, ?_⟩
    intro _
    have hlen : (s.lines.drop (s.lines.length - s.physicalRows)).length = s.physicalRows := by
      rw [List.length_drop]
      omega
    exact ⟨Nat.le_of_eq hlen.symm, fun _ _ => hlen⟩

theorem keeps_copyRow {src dest : Nat} :
    Ends Keeps s (s.copyRow graphemes margins seqno attr src dest) := by
  unfold copyRow
  split
  · exact ends_error _
  · split
    · exact ends_error _
    · exact keeps_modifyLine.bind fun _ => keeps_modifyLine

theorem keeps_scrollUpWithinMargins :
    Ends Keeps s (s.scrollUpWithinMargins graphemes region margins numRows seqno attr bidi) := by
  unfold scrollUpWithinMargins
  split
  · exact keeps_scrollUp
  · dsimp only
    split
    · exact ends_error _
    · refine Ends.bind (ends_rowsFrom fun _ _ => keeps_copyRow) fun _ => ?_
      exact ends_rowsFrom fun _ _ => keeps_modifyLine

theorem keeps_scrollDownWithinMargins :
    Ends Keeps s (s.scrollDownWithinMargins graphemes region margins numRows seqno attr bidi) := by
  unfold scrollDownWithinMargins
  split
  · exact keeps_scrollDown
  · dsimp only
    split
    · exact ends_error _
    · refine Ends.bind (ends_rowsFrom fun _ _ => keeps_copyRow) fun _ => ?_
      exact ends_rowsFrom fun _ _ => keeps_modifyLine

end Screen

/-- The configuration and the sizes of the screens are the same, and there are enough lines. -/
structure TerminalState.Keeps (t t' : TerminalState) : Prop where
  config : t'.config = t.config
  quirks : t'.enableConptyQuirks = t.enableConptyQuirks
  screen : t.screen.screen.Keeps t'.screen.screen
  altScreen : t.screen.altScreen.Keeps t'.screen.altScreen

/-- The screens have one size, and the margins lie within it. -/
structure TerminalState.Framed (t : TerminalState) : Prop where
  rows : t.screen.altScreen.physicalRows = t.screen.screen.physicalRows
  cols : t.screen.altScreen.physicalCols = t.screen.screen.physicalCols
  top : 0 ≤ t.topAndBottomMargins.start
  bottom : t.topAndBottomMargins.stop ≤ t.screen.screen.physicalRows
  right : t.leftAndRightMargins.stop ≤ t.screen.screen.physicalCols

/-- The margins, too, still lie within the screens. -/
structure TerminalState.Stays (t t' : TerminalState) : Prop where
  keeps : t.Keeps t'
  framed : t.Framed → t'.Framed

namespace TerminalState

variable {graphemes : Graphemes} {unicode : Unicode} {t t' t'' : TerminalState}

theorem Keeps.refl (t : TerminalState) : t.Keeps t := ⟨rfl, rfl, .refl _, .refl _⟩

theorem Keeps.trans (h : t.Keeps t') (h' : t'.Keeps t'') : t.Keeps t'' :=
  ⟨h'.config.trans h.config, h'.quirks.trans h.quirks, h.screen.trans h'.screen,
    h.altScreen.trans h'.altScreen⟩

theorem Stays.refl (t : TerminalState) : t.Stays t := ⟨.refl t, id⟩

theorem Stays.trans (h : t.Stays t') (h' : t'.Stays t'') : t.Stays t'' :=
  ⟨h.keeps.trans h'.keeps, fun hframed => h'.framed (h.framed hframed)⟩

instance : Std.Refl TerminalState.Stays := ⟨.refl⟩

instance : IsTrans TerminalState TerminalState.Stays := ⟨fun _ _ _ => .trans⟩

theorem active_rows (hsize : t.screen.altScreen.physicalRows = t.screen.screen.physicalRows) :
    t.active.physicalRows = t.screen.screen.physicalRows := by
  unfold TerminalState.active ScreenOrAlt.active
  split
  · exact hsize
  · rfl

theorem active_cols (hsize : t.screen.altScreen.physicalCols = t.screen.screen.physicalCols) :
    t.active.physicalCols = t.screen.screen.physicalCols := by
  unfold TerminalState.active ScreenOrAlt.active
  split
  · exact hsize
  · rfl

theorem Keeps.stays (h : t.Keeps t') (hmargins : t.Framed → 0 ≤ t'.topAndBottomMargins.start ∧
      t'.topAndBottomMargins.stop ≤ t.screen.screen.physicalRows ∧
      t'.leftAndRightMargins.stop ≤ t.screen.screen.physicalCols) : t.Stays t' := by
  refine ⟨h, fun hframed => ?_⟩
  obtain ⟨htop, hbottom, hright⟩ := hmargins hframed
  have hscreen := h.screen.frame
  have halt := h.altScreen.frame
  refine ⟨?_, ?_, htop, ?_, ?_⟩
  · rw [hscreen, halt]
    exact hframed.rows
  · rw [hscreen, halt]
    exact hframed.cols
  · rw [hscreen]
    exact hbottom
  · rw [hscreen]
    exact hright

theorem Keeps.stays_of_margins (h : t.Keeps t')
    (hregion : t'.topAndBottomMargins = t.topAndBottomMargins)
    (hcolumns : t'.leftAndRightMargins = t.leftAndRightMargins) : t.Stays t' := by
  refine h.stays fun hframed => ?_
  rw [hregion, hcolumns]
  exact ⟨hframed.top, hframed.bottom, hframed.right⟩

theorem stays_of_same (hconfig : t'.config = t.config)
    (hquirks : t'.enableConptyQuirks = t.enableConptyQuirks)
    (hscreen : t'.screen.screen = t.screen.screen) (halt : t'.screen.altScreen = t.screen.altScreen)
    (hregion : t'.topAndBottomMargins = t.topAndBottomMargins)
    (hcolumns : t'.leftAndRightMargins = t.leftAndRightMargins) : t.Stays t' := by
  have hkeeps : t.Keeps t' := ⟨hconfig, hquirks, hscreen ▸ .refl _, halt ▸ .refl _⟩
  exact hkeeps.stays_of_margins hregion hcolumns

theorem stays_of_reset (hconfig : t'.config = t.config)
    (hquirks : t'.enableConptyQuirks = t.enableConptyQuirks)
    (hscreen : t'.screen.screen = t.screen.screen) (halt : t'.screen.altScreen = t.screen.altScreen)
    (hregion : t'.topAndBottomMargins = ⟨0, t.active.physicalRows⟩)
    (hcolumns : t'.leftAndRightMargins = ⟨0, t.active.physicalCols⟩) : t.Stays t' := by
  have hkeeps : t.Keeps t' := ⟨hconfig, hquirks, hscreen ▸ .refl _, halt ▸ .refl _⟩
  refine hkeeps.stays fun hframed => ?_
  rw [hregion, hcolumns, active_rows hframed.rows, active_cols hframed.cols]
  exact ⟨Int.le_refl 0, Int.le_refl _, Nat.le_refl _⟩

theorem stays_setActive {s : Screen} (h : t.active.Keeps s) :
    t.Stays { t with screen := t.screen.setActive s } := by
  have hkeeps : t.Keeps { t with screen := t.screen.setActive s } := by
    unfold TerminalState.active ScreenOrAlt.active at h
    unfold ScreenOrAlt.setActive
    split
    · next hshown =>
      rw [if_pos hshown] at h
      exact ⟨rfl, rfl, .refl _, h⟩
    · next hshown =>
      rw [if_neg hshown] at h
      exact ⟨rfl, rfl, h, .refl _⟩
  exact hkeeps.stays_of_margins rfl rfl

theorem stays_onScreen {f : Screen → Except Panic Screen}
    (hf : Ends Screen.Keeps t.active (f t.active)) : Ends Stays t (t.onScreen f) := by
  intro t' h
  obtain ⟨s, hs, rfl⟩ := onScreen_eq_ok h
  exact stays_setActive (hf s hs)

theorem stays_setCursorPositionAbsolute (x : Nat) (y : Int) :
    t.Stays (t.setCursorPositionAbsolute x y) := by
  unfold setCursorPositionAbsolute clearSemanticAttributeDueToMovement
  split
  · split
    · exact stays_of_same rfl rfl rfl rfl rfl rfl
    · exact stays_of_same rfl rfl rfl rfl rfl rfl
  · exact stays_of_same rfl rfl rfl rfl rfl rfl

theorem stays_setCursorPos (x y : Position) : t.Stays (t.setCursorPos x y) :=
  stays_setCursorPositionAbsolute _ _

variable {n x0 y : Nat} {p p' : TerminalState × Nat × Int} {params : ImageAttachParams}

theorem stays_scrollUp : Ends Stays t (t.scrollUp graphemes n) :=
  stays_onScreen Screen.keeps_scrollUpWithinMargins

theorem stays_scrollDown : Ends Stays t (t.scrollDown graphemes n) :=
  stays_onScreen Screen.keeps_scrollDownWithinMargins

theorem stays_newLine {first : Bool} : Ends Stays t (t.newLine graphemes first) := by
  unfold newLine
  dsimp only
  split
  · exact stays_scrollUp.bind fun _ => ends_ok (stays_setCursorPos _ _)
  · exact ends_ok (stays_setCursorPos _ _)

theorem stays_freshLine : Ends Stays t (t.freshLine graphemes) := by
  unfold freshLine
  split
  · exact ends_ok (.refl t)
  · exact stays_newLine

theorem stays_c1Index : Ends Stays t (t.c1Index graphemes) := by
  unfold c1Index
  split
  · split
    · exact stays_scrollUp
    · exact ends_ok (stays_setCursorPos _ _)
  · exact ends_ok (.refl t)

theorem stays_c1Nel : Ends Stays t (t.c1Nel graphemes) := by
  unfold c1Nel
  dsimp only
  split
  · split
    · exact stays_scrollUp.map fun _ => stays_setCursorPositionAbsolute _ _
    · exact ends_ok (stays_setCursorPositionAbsolute _ _)
  · exact ends_ok (stays_setCursorPositionAbsolute _ _)

theorem stays_c1Hts : Ends Stays t t.c1Hts := by
  intro t' h
  obtain ⟨tabs, -, rfl⟩ := map_eq_ok.mp h
  exact stays_of_same rfl rfl rfl rfl rfl rfl

theorem stays_c0HorizontalTab : Ends Stays t t.c0HorizontalTab := by
  unfold c0HorizontalTab
  split
  · exact ends_error _
  · exact ends_ok (stays_of_same rfl rfl rfl rfl rfl rfl)

theorem stays_c1ReverseIndex : Ends Stays t (t.c1ReverseIndex graphemes) := by
  unfold c1ReverseIndex
  split
  · split
    · exact stays_scrollDown
    · exact ends_ok (stays_setCursorPos _ _)
  · exact ends_ok (.refl t)

theorem stays_eraseInLine (erase : EraseInLine) : Ends Stays t (t.eraseInLine graphemes erase) := by
  unfold eraseInLine
  exact stays_onScreen Screen.keeps_modifyLine

theorem stays_eraseRows (start stop : Int) : Ends Stays t (t.eraseRows graphemes start stop) := by
  refine stays_onScreen (ends_rowsFrom fun y s => ?_)
  exact Ends.bind Screen.keeps_modifyLine fun _ => Screen.keeps_modifyLine

theorem stays_eraseInDisplay (erase : EraseInDisplay) :
    Ends Stays t (t.eraseInDisplay graphemes erase) := by
  cases erase with
  | toEndOfDisplay => exact (stays_eraseInLine _).bind fun _ => stays_eraseRows _ _
  | toStartOfDisplay => exact (stays_eraseInLine _).bind fun _ => stays_eraseRows _ _
  | display => exact stays_eraseRows _ _
  | scrollback => exact stays_onScreen Screen.keeps_eraseScrollback

theorem stays_repeatOnce {cell : Cell} (h : repeatOnce graphemes cell p = .ok p') :
    p.1.Stays p'.1 := by
  obtain ⟨t, x, y⟩ := p
  obtain ⟨t1, h1, h2⟩ := bind_eq_ok.mp h
  have hset : t.Stays t1 := stays_onScreen Screen.keeps_modifyLine t1 h1
  refine hset.trans ?_
  split at h2
  · cases h2
  · split at h2
    · dsimp only at h2
      split at h2
      · obtain ⟨t2, hscroll, h3⟩ := bind_eq_ok.mp h2
        cases h3
        exact stays_scrollUp t2 hscroll
      · cases h2
        exact .refl _
    · cases h2
      exact .refl _

theorem stays_repeats {cell : Cell} (h : rounds n (repeatOnce graphemes cell) p = .ok p') :
    p.1.Stays p'.1 := by
  induction n generalizing p with
  | zero =>
    cases h
    exact .refl _
  | succ n ih =>
    obtain ⟨p1, h1, h2⟩ := bind_eq_ok.mp h
    exact (stays_repeatOnce h1).trans (ih h2)

theorem stays_repeatCell (n : Nat) : Ends Stays t (t.repeatCell graphemes n) := by
  unfold repeatCell
  dsimp only
  split
  · exact ends_error _
  · refine Ends.bind (stays_onScreen Screen.keeps_modifyLine) fun t1 => ?_
    intro t' h
    obtain ⟨p, hp, h⟩ := bind_eq_ok.mp h
    cases h
    exact (stays_repeats hp).trans (stays_of_same rfl rfl rfl rfl rfl rfl)

theorem stays_performCsiEdit (edit : Edit) : Ends Stays t (t.performCsiEdit graphemes edit) := by
  cases edit with
  | deleteCharacter n =>
    unfold performCsiEdit
    dsimp only
    split
    · exact stays_onScreen (ends_rounds fun _ => Screen.keeps_modifyLine)
    · exact ends_ok (.refl t)
  | deleteLine n =>
    unfold performCsiEdit
    dsimp only
    split
    · exact stays_onScreen Screen.keeps_scrollUpWithinMargins
    · exact ends_ok (.refl t)
  | eraseCharacter n => exact stays_onScreen (ends_rowsFrom fun _ _ => Screen.keeps_modifyLine)
  | eraseInLine erase => exact stays_eraseInLine erase
  | insertCharacter n =>
    unfold performCsiEdit
    dsimp only
    split
    · exact stays_onScreen (ends_rounds fun _ => Screen.keeps_modifyLine)
    · exact ends_ok (.refl t)
  | insertLine n =>
    unfold performCsiEdit
    dsimp only
    split
    · exact stays_onScreen Screen.keeps_scrollDownWithinMargins
    · exact ends_ok (.refl t)
  | scrollDown n => exact stays_scrollDown
  | scrollUp n => exact stays_scrollUp
  | eraseInDisplay erase => exact stays_eraseInDisplay erase
  | repeatCell n => exact stays_repeatCell n

theorem stays_setLeftAndRightMargins (left right : Nat) :
    t.Stays (t.setLeftAndRightMargins left right) := by
  unfold setLeftAndRightMargins
  dsimp only
  split
  · split
    · exact .refl t
    · refine Stays.trans ?_ (stays_setCursorPos _ _)
      have hkeeps : t.Keeps { t with leftAndRightMargins :=
          ⟨min left (t.active.physicalCols - 1), min right (t.active.physicalCols - 1) + 1⟩ } :=
        ⟨rfl, rfl, .refl _, .refl _⟩
      refine hkeeps.stays fun hframed => ⟨hframed.top, hframed.bottom, ?_⟩
      -- the last column is right of another, so it is not the first
      show min right (t.active.physicalCols - 1) + 1 ≤ _
      rw [← active_cols hframed.cols]
      omega
  · exact .refl t

theorem stays_setSavedCursor (saved : Option SavedCursor) :
    t.Stays { t with screen := t.screen.setSavedCursor saved } := by
  unfold ScreenOrAlt.setSavedCursor
  split
  · exact stays_of_same rfl rfl rfl rfl rfl rfl
  · exact stays_of_same rfl rfl rfl rfl rfl rfl

theorem stays_decSaveCursor : t.Stays t.decSaveCursor := stays_setSavedCursor _

theorem stays_decRestoreCursor : t.Stays t.decRestoreCursor := by
  have hmoved : ∀ saved : SavedCursor, t.Stays ({ t with decOriginMode := false }.setCursorPos
      (.absolute saved.position.x) (.absolute saved.position.y)) := by
    intro saved
    refine Stays.trans ?_ (stays_setCursorPos _ _)
    exact stays_of_same rfl rfl rfl rfl rfl rfl
  exact (hmoved (t.screen.activeSavedCursor.getD ⟨.origin, false, .blank, false, .ascii, .ascii⟩)
    ).trans (stays_of_same rfl rfl rfl rfl rfl rfl)

theorem stays_performCsiCursor (cursor : Cursor) : Ends Stays t (t.performCsiCursor cursor) := by
  have hsame : ∀ c w, t.Stays { t with cursor := c, wrapNext := w } :=
    fun _ _ => stays_of_same rfl rfl rfl rfl rfl rfl
  unfold performCsiCursor
  cases cursor with
  | setTopAndBottomMargins top bottom =>
    dsimp only
    split
    · exact ends_ok (.refl t)
    · refine ends_ok (Stays.trans ?_ (stays_setCursorPos _ _))
      have hkeeps : t.Keeps { t with topAndBottomMargins :=
          ⟨max (min (top : Int) (t.active.physicalRows - 1)) 0,
            max (min (bottom : Int) (t.active.physicalRows - 1)) 0 + 1⟩ } :=
        ⟨rfl, rfl, .refl _, .refl _⟩
      refine hkeeps.stays fun hframed => ⟨Int.le_max_right _ _, ?_, hframed.right⟩
      show max (min (bottom : Int) (t.active.physicalRows - 1)) 0 + 1 ≤ _
      rw [← active_rows hframed.rows]
      omega
  | setLeftAndRightMargins left right => exact ends_ok (stays_setLeftAndRightMargins _ _)
  | forwardTabulation n => exact ends_rounds fun _ => stays_c0HorizontalTab
  | backwardTabulation n => exact ends_rounds fun _ => ends_ok (stays_setCursorPos _ _)
  | tabulationClear toClear => exact ends_ok (stays_of_same rfl rfl rfl rfl rfl rfl)
  | right n => exact ends_ok (hsame _ _)
  | up n => exact ends_ok (hsame _ _)
  | down n => exact ends_ok (hsame _ _)
  | position line col => exact ends_ok (stays_setCursorPos _ _)
  | characterAbsolute col => exact ends_ok (stays_setCursorPos _ _)
  | characterPositionAbsolute col => exact ends_ok (hsame _ _)
  | characterPositionBackward n => exact ends_ok (stays_setCursorPos _ _)
  | characterPositionForward n => exact ends_ok (stays_setCursorPos _ _)
  | linePositionAbsolute line => exact ends_ok (stays_setCursorPos _ _)
  | linePositionBackward n => exact ends_ok (stays_setCursorPos _ _)
  | linePositionForward n => exact ends_ok (stays_setCursorPos _ _)
  | nextLine n => exact ends_ok (hsame _ _)
  | precedingLine n => exact ends_ok (hsame _ _)
  | saveCursor =>
    dsimp only
    split
    · exact ends_ok (stays_setLeftAndRightMargins _ _)
    · exact ends_ok stays_decSaveCursor
  | restoreCursor => exact ends_ok stays_decRestoreCursor
  | unmodelled => exact ends_ok (.refl t)

theorem stays_activate (alt : Bool) : Ends Stays t (t.activate alt) := by
  have htop : ∀ (s s' : ScreenOrAlt), s.dirtyTopPhysRows t.seqno = .ok s' →
      s.screen.Keeps s'.screen ∧ s'.altScreen = s.altScreen := by
    intro s s' h
    obtain ⟨screen, hscreen, rfl⟩ := map_eq_ok.mp h
    exact ⟨Screen.keeps_touchRows screen hscreen, rfl⟩
  intro t' h
  obtain ⟨screens, hscreens, rfl⟩ := map_eq_ok.mp h
  have hkeeps : t.Keeps { t with screen := screens } := by
    split at hscreens
    · obtain ⟨hprimary, halt⟩ := htop _ _ hscreens
      exact ⟨rfl, rfl, hprimary, halt ▸ .refl _⟩
    · obtain ⟨hprimary, halt⟩ := htop _ _ hscreens
      exact ⟨rfl, rfl, hprimary, halt ▸ .refl _⟩
  exact hkeeps.stays_of_margins rfl rfl

theorem stays_enableAlternateScreen (set : Bool) : Ends Stays t (t.enableAlternateScreen set) := by
  unfold enableAlternateScreen
  split
  · exact ends_ok (.refl t)
  · exact (stays_activate set).map fun _ => stays_of_same rfl rfl rfl rfl rfl rfl

theorem stays_optEnableAlternateScreen (set : Bool) :
    Ends Stays t (t.optEnableAlternateScreen graphemes set) := by
  unfold optEnableAlternateScreen
  split
  · exact stays_enableAlternateScreen true
  · split
    · refine Ends.bind (fun t' h => ?_) fun _ => stays_activate false
      have hblank : t.Stays { t with pen := .blank } := stays_of_same rfl rfl rfl rfl rfl rfl
      exact hblank.trans (stays_eraseInDisplay _ t' h)
    · exact ends_ok (.refl t)

theorem stays_clearAndEnableAlternateScreen (set : Bool) :
    Ends Stays t (t.clearAndEnableAlternateScreen graphemes set) := by
  unfold clearAndEnableAlternateScreen
  split
  · exact ends_ok (.refl t)
  · split
    · refine Ends.bind (fun t' h => stays_decSaveCursor.trans (stays_activate true t' h))
        fun t1 t' h => ?_
      have hblank : t1.Stays { t1.setCursorPos (.absolute 0) (.absolute 0) with pen := .blank } :=
        (stays_setCursorPos (.absolute 0) (.absolute 0)).trans
          (stays_of_same rfl rfl rfl rfl rfl rfl)
      exact hblank.trans (stays_eraseInDisplay _ t' h)
    · exact (stays_activate false).map fun _ => stays_decRestoreCursor

theorem stays_performCsiMode (set : Bool) (code : ModeCode) :
    Ends Stays t (t.performCsiMode graphemes set code) := by
  have hmargins : ∀ c : Bool, t.Stays { t with decOriginMode := c } :=
    fun _ => stays_of_same rfl rfl rfl rfl rfl rfl
  have hreset : t.Stays (t.resetMargins.setCursorPos (.absolute 0) (.absolute 0)) := by
    have hmargins : t.Stays t.resetMargins := stays_of_reset rfl rfl rfl rfl rfl rfl
    exact hmargins.trans (stays_setCursorPos _ _)
  unfold performCsiMode
  cases code with
  | reverseWraparound => exact ends_ok (stays_of_same rfl rfl rfl rfl rfl rfl)
  | leftRightMarginMode =>
    dsimp only
    split
    · exact ends_ok (stays_of_same rfl rfl rfl rfl rfl rfl)
    · have hkeeps : t.Keeps { t with
          leftAndRightMarginMode := false
          leftAndRightMargins := ⟨0, t.active.physicalCols⟩ } := ⟨rfl, rfl, .refl _, .refl _⟩
      refine ends_ok (hkeeps.stays fun hframed => ⟨hframed.top, hframed.bottom, ?_⟩)
      exact Nat.le_of_eq (active_cols hframed.cols)
  | saveCursor =>
    dsimp only
    split
    · exact ends_ok stays_decSaveCursor
    · exact ends_ok stays_decRestoreCursor
  | autoWrap => exact ends_ok (stays_of_same rfl rfl rfl rfl rfl rfl)
  | originMode => exact ends_ok ((hmargins set).trans (stays_setCursorPos _ _))
  | select132Columns => exact fun t' h => hreset.trans (stays_eraseInDisplay _ t' h)
  | biDirectionalSupportMode => exact ends_ok (stays_of_same rfl rfl rfl rfl rfl rfl)
  | insert => exact ends_ok (stays_of_same rfl rfl rfl rfl rfl rfl)
  | automaticNewline => exact ends_ok (stays_of_same rfl rfl rfl rfl rfl rfl)
  | enableAlternateScreen => exact stays_enableAlternateScreen set
  | optEnableAlternateScreen => exact stays_optEnableAlternateScreen set
  | clearAndEnableAlternateScreen => exact stays_clearAndEnableAlternateScreen set
  | sixelDisplayMode => exact ends_ok (stays_of_same rfl rfl rfl rfl rfl rfl)
  | sixelScrollsRight => exact ends_ok (stays_of_same rfl rfl rfl rfl rfl rfl)
  | unmodelled => exact ends_ok (.refl t)

theorem stays_removePlacement (p : Placement) : Ends Stays t (t.removePlacement graphemes p) :=
  stays_onScreen (ends_rowsFrom fun _ _ => Screen.keeps_modifyLine)

theorem stays_removePlacements (placements rest : List Placement) :
    Ends Stays t (placements.foldlM (fun t p => t.removePlacement graphemes p)
      { t with placements := rest }) := by
  have hrest : t.Stays { t with placements := rest } := stays_of_same rfl rfl rfl rfl rfl rfl
  intro t' h
  exact hrest.trans (ends_foldlM (fun p _ => stays_removePlacement p) t' h)

theorem stays_softReset : Ends Stays t (t.softReset graphemes) := by
  have hstate : t.Stays t.softResetState := stays_of_reset rfl rfl rfl rfl rfl rfl
  unfold softReset
  refine Ends.bind (fun t' h => hstate.trans (stays_activate true t' h)) fun t1 => ?_
  refine Ends.bind (fun t' h => (stays_setSavedCursor none).trans (stays_activate false t' h))
    fun t2 => ?_
  refine Ends.bind (fun t' h => (stays_setSavedCursor none).trans
    (stays_removePlacements _ _ t' h)) fun t3 => ?_
  exact ends_ok (stays_of_same rfl rfl rfl rfl rfl rfl)

theorem stays_makeAllLinesDirty : t.Stays t.makeAllLinesDirty := by
  refine stays_setActive (Screen.keeps_lines ?_)
  exact List.length_map _

theorem stays_fullReset : Ends Stays t (t.fullReset graphemes) := by
  have hstate : t.Stays t.fullResetState := stays_of_reset rfl rfl rfl rfl rfl rfl
  unfold fullReset
  refine Ends.bind (fun t' h => hstate.trans (stays_activate true t' h)) fun t1 => ?_
  refine (stays_eraseInDisplay _).bind fun t2 => ?_
  refine (stays_activate false).bind fun t3 => ?_
  refine (stays_eraseInDisplay _).bind fun t4 => ?_
  exact (stays_eraseInDisplay _).bind fun t5 => ends_ok stays_makeAllLinesDirty

theorem stays_checksumRectangle (top bottom : Nat) :
    Ends Stays t (t.checksumRectangle top bottom) := by
  refine ends_rowsFrom fun y t => ?_
  split
  · exact ends_error _
  · exact ends_ok (.refl t)

theorem stays_markWrapped : Ends Stays t (t.markWrapped unicode) :=
  stays_onScreen Screen.keeps_modifyLine

theorem stays_wrapPending : Ends Stays t (t.wrapPending unicode) := by
  unfold wrapPending
  split
  · exact stays_markWrapped.bind fun _ => stays_newLine
  · exact ends_ok (.refl t)

theorem stays_placeGrapheme (g : Text) (width : Nat) :
    Ends Stays t (t.placeGrapheme unicode g width) := by
  unfold placeGrapheme
  refine Ends.bind ?_ fun t1 => ?_
  · split
    · exact stays_onScreen (ends_rounds fun _ => Screen.keeps_modifyLine)
    · exact ends_ok (.refl t)
  · refine Ends.bind (stays_onScreen Screen.keeps_modifyLine) fun t2 => ?_
    split
    · exact ends_ok (stays_of_same rfl rfl rfl rfl rfl rfl)
    · exact ends_ok (stays_of_same rfl rfl rfl rfl rfl rfl)

theorem stays_printGrapheme (g : Text) : Ends Stays t (t.printGrapheme unicode g) := by
  unfold printGrapheme
  dsimp only
  split
  · exact ends_ok (.refl t)
  · exact stays_wrapPending.bind fun _ => stays_placeGrapheme _ _

theorem stays_dirtyLine (y : Int) : t.Stays (t.dirtyLine y) :=
  stays_setActive (Screen.keeps_lines (List.length_modify _ _ _))

theorem stays_clearSemantic : t.Stays t.clearSemanticAttributeDueToMovement := by
  unfold clearSemanticAttributeDueToMovement
  split
  · exact stays_of_same rfl rfl rfl rfl rfl rfl
  · exact .refl t

theorem stays_moved (t : TerminalState) (cursor : CursorPosition) (wrapNext : Bool) :
    t.Stays { t with cursor := cursor, wrapNext := wrapNext } :=
  stays_of_same rfl rfl rfl rfl rfl rfl

theorem stays_lineFeed : Ends Stays t (t.lineFeed graphemes) := by
  unfold lineFeed
  refine Ends.bind ?_ fun t1 => ?_
  · split
    · exact stays_newLine
    · exact ends_ok (((stays_dirtyLine _).trans (stays_dirtyLine _)).trans (stays_moved _ _ _))
  · split
    · refine ends_ok (Stays.trans ?_ stays_clearSemantic)
      exact stays_of_same rfl rfl rfl rfl rfl rfl
    · exact ends_ok (.refl t1)

theorem stays_carriageReturn : t.Stays t.carriageReturn := by
  unfold carriageReturn
  refine Stays.trans (Stays.trans ?_ stays_clearSemantic) (stays_dirtyLine _)
  exact stays_of_same rfl rfl rfl rfl rfl rfl

theorem stays_backspace : Ends Stays t t.backspace := by
  unfold backspace
  dsimp only
  split
  · exact ends_ok (stays_setCursorPos _ _)
  · split
    · exact ends_ok (stays_setCursorPos _ _)
    · split
      · exact ends_error _
      · split
        · exact ends_ok (stays_of_same rfl rfl rfl rfl rfl rfl)
        · split
          · exact ends_ok (.refl t)
          · exact ends_ok (stays_setCursorPos _ _)

theorem stays_control (code : ControlCode) : Ends Stays t (t.control graphemes code) := by
  cases code with
  | lineFeed => exact stays_lineFeed
  | carriageReturn => exact ends_ok stays_carriageReturn
  | backspace => exact stays_backspace
  | horizontalTab => exact stays_c0HorizontalTab
  | hts => exact stays_c1Hts
  | ind => exact stays_c1Index
  | nel => exact stays_c1Nel
  | ri => exact stays_c1ReverseIndex
  | shiftIn => exact ends_ok (stays_of_same rfl rfl rfl rfl rfl rfl)
  | shiftOut => exact ends_ok (stays_of_same rfl rfl rfl rfl rfl rfl)
  | unmodelled => exact ends_ok (.refl t)

theorem stays_performCsiSgr (sgr : Sgr) : t.Stays (t.performCsiSgr sgr) := by
  cases sgr with
  | reset => exact stays_of_same rfl rfl rfl rfl rfl rfl
  | decoration n => exact stays_of_same rfl rfl rfl rfl rfl rfl
  | style n => exact stays_of_same rfl rfl rfl rfl rfl rfl

theorem stays_csiDispatch (csi : Csi) : Ends Stays t (t.csiDispatch graphemes csi) := by
  cases csi with
  | sgr sgr => exact ends_ok (stays_performCsiSgr sgr)
  | cursorLeft n => exact ends_rounds fun _ => stays_backspace
  | cursor cursor => exact stays_performCsiCursor cursor
  | edit edit => exact stays_performCsiEdit edit
  | mode set code => exact stays_performCsiMode set code
  | softReset => exact stays_softReset
  | checksumRectangularArea top bottom =>
    unfold csiDispatch
    dsimp only
    split
    · exact stays_checksumRectangle top bottom
    · exact ends_ok (.refl t)
  | selectCharacterPath hint => exact ends_ok (stays_of_same rfl rfl rfl rfl rfl rfl)
  | unmodelled => exact ends_ok (.refl t)

theorem stays_decScreenAlignmentDisplay : Ends Stays t (t.decScreenAlignmentDisplay graphemes) := by
  unfold decScreenAlignmentDisplay
  refine Ends.bind (stays_onScreen (ends_rowsFrom fun _ _ => Screen.keeps_modifyLine)) fun t1 => ?_
  exact ends_ok (stays_of_reset rfl rfl rfl rfl rfl rfl)

theorem stays_setLineBits (f : LineBits → LineBits) : Ends Stays t (t.setLineBits f) :=
  stays_onScreen Screen.keeps_modifyLine

theorem stays_escDispatch (esc : EscCode) : Ends Stays t (t.escDispatch graphemes esc) := by
  cases esc with
  | stringTerminator => exact ends_ok (stays_of_same rfl rfl rfl rfl rfl rfl)
  | tmuxTitle => exact ends_ok (stays_of_same rfl rfl rfl rfl rfl rfl)
  | reverseIndex => exact stays_c1ReverseIndex
  | index => exact stays_c1Index
  | nextLine => exact stays_c1Nel
  | horizontalTabSet => exact stays_c1Hts
  | setCharacterSetG0 charset => exact ends_ok (stays_of_same rfl rfl rfl rfl rfl rfl)
  | setCharacterSetG1 charset => exact ends_ok (stays_of_same rfl rfl rfl rfl rfl rfl)
  | decSaveCursorPosition => exact ends_ok stays_decSaveCursor
  | decRestoreCursorPosition => exact ends_ok stays_decRestoreCursor
  | decDoubleHeightTopHalfLine =>
    unfold escDispatch
    exact stays_setLineBits _
  | decDoubleHeightBottomHalfLine =>
    unfold escDispatch
    exact stays_setLineBits _
  | decDoubleWidthLine =>
    unfold escDispatch
    exact stays_setLineBits _
  | decSingleWidthLine =>
    unfold escDispatch
    exact stays_setLineBits _
  | decScreenAlignmentDisplay => exact stays_decScreenAlignmentDisplay
  | fullReset => exact stays_fullReset
  | unmodelled => exact ends_ok (.refl t)

theorem stays_assignImageCell {x : Nat} {cursorY : Int} :
    Ends Stays t (assignImageCell graphemes params x0 cursorY y x t) := by
  unfold assignImageCell
  refine Ends.bind (stays_onScreen ?_) fun t1 => stays_onScreen Screen.keeps_modifyLine
  split
  · exact ends_ok (.refl _)
  · exact ends_ok (Screen.keeps_lines List.length_set)

theorem stays_assignImageRow {height : Nat} :
    Ends Stays t (assignImageRow graphemes params x0 height y t) := by
  unfold assignImageRow
  refine Ends.bind (ends_rowsFrom fun _ _ => stays_assignImageCell) fun t1 => ?_
  split
  · exact stays_newLine
  · exact ends_ok (.refl t1)

theorem stays_assignImageToCells {r : TerminalState × Int × Nat}
    (h : t.assignImageToCells graphemes params = .ok r) : t.Stays r.1 := by
  unfold assignImageToCells at h
  dsimp only at h
  split at h
  · cases h
  · obtain ⟨t1, h1, h2⟩ := bind_eq_ok.mp h
    cases h2
    have hrows := ends_rowsFrom (fun _ _ => stays_assignImageRow) t1 h1
    refine hrows.trans ?_
    have hmoved : ∀ (c : Bool) (x y : Position),
        t1.Stays (if c then t1.setCursorPos x y else t1) := by
      intro c x y
      cases c with
      | false => exact .refl t1
      | true => exact stays_setCursorPos x y
    exact hmoved _ _ _

theorem stays_sixel (params : ImageAttachParams) : Ends Stays t (t.sixel graphemes params) := by
  intro t' h
  obtain ⟨r, hr, h⟩ := bind_eq_ok.mp h
  cases h
  have hstart : t.Stays (if t.sixelDisplayMode then { t with cursor := .origin } else t) := by
    split
    · exact stays_of_same rfl rfl rfl rfl rfl rfl
    · exact .refl t
  refine (hstart.trans (stays_assignImageToCells hr)).trans ?_
  split
  · exact stays_of_same rfl rfl rfl rfl rfl rfl
  · exact .refl r.1

theorem stays_kittyRemovePlacement (imageId : Nat) (placementId : Option Nat) :
    Ends Stays t (t.kittyRemovePlacement graphemes imageId placementId) :=
  stays_removePlacements _ _

theorem stays_kittyImgPlace (imageId : Nat) (placementId : Option Nat)
    (params : ImageAttachParams) :
    Ends Stays t (t.kittyImgPlace graphemes imageId placementId params) := by
  have hplaced : ∀ (t t' : TerminalState) (params : ImageAttachParams),
      (t.assignImageToCells graphemes params >>= fun r => (pure { r.1 with
        placements := ⟨imageId, placementId, r.2.1, r.2.2⟩ ::
          r.1.placements.filter fun p =>
            !(p.imageId = imageId && p.placementId = placementId) } :
          Except Panic TerminalState)) = .ok t' → t.Stays t' := by
    intro t t' params h
    obtain ⟨r, hr, h⟩ := bind_eq_ok.mp h
    cases h
    exact (stays_assignImageToCells hr).trans (stays_of_same rfl rfl rfl rfl rfl rfl)
  intro t' h
  unfold kittyImgPlace at h
  dsimp only at h
  split at h
  · obtain ⟨t1, h1, h2⟩ := bind_eq_ok.mp h
    exact (stays_kittyRemovePlacement _ _ t1 h1).trans (hplaced t1 t' _ h2)
  · exact hplaced t t' _ h

theorem stays_kittyImg (img : KittyImage) : Ends Stays t (t.kittyImg graphemes img) := by
  cases img with
  | display imageId placementId params => exact stays_kittyImgPlace _ _ _
  | deleteByImageId imageId placementId => exact stays_kittyRemovePlacement _ _
  | deleteAll => exact stays_removePlacements _ _
  | unmodelled => exact ends_ok (.refl t)

theorem stays_oscDispatch (osc : OperatingSystemCommand) :
    Ends Stays t (t.oscDispatch graphemes osc) := by
  cases osc with
  | setIconNameAndWindowTitle => exact ends_ok (.refl t)
  | setHyperlink link => exact ends_ok (stays_of_same rfl rfl rfl rfl rfl rfl)
  | itermFile params =>
    intro t' h
    obtain ⟨r, hr, h⟩ := bind_eq_ok.mp h
    cases h
    exact stays_assignImageToCells hr
  | unicodeVersion op =>
    cases op with
    | set n => exact ends_ok (stays_of_same rfl rfl rfl rfl rfl rfl)
    | push label => exact ends_ok (stays_of_same rfl rfl rfl rfl rfl rfl)
    | pop label =>
      cases label with
      | none =>
        unfold oscDispatch
        dsimp only
        split
        · exact ends_ok (.refl t)
        · exact ends_ok (stays_of_same rfl rfl rfl rfl rfl rfl)
      | some label => exact ends_ok (stays_of_same rfl rfl rfl rfl rfl rfl)
  | semanticPrompt fresh type untilEndOfLine =>
    unfold oscDispatch
    refine Ends.bind ?_ fun t1 => ends_ok (stays_of_same rfl rfl rfl rfl rfl rfl)
    split
    · exact stays_freshLine
    · exact ends_ok (.refl t)
  | changeColors => exact ends_ok stays_makeAllLinesDirty
  | unmodelled => exact ends_ok (.refl t)

end TerminalState

namespace Performer

variable {unicode : Unicode} {p p' : Performer}

/-- What the state keeps. -/
def Stays (p p' : Performer) : Prop := p.state.Stays p'.state

instance : Std.Refl Performer.Stays := ⟨fun p => .refl p.state⟩

instance : IsTrans Performer Performer.Stays := ⟨fun _ _ _ => TerminalState.Stays.trans⟩

theorem stays_flushPrint : Ends Stays p (p.flushPrint unicode) := by
  unfold flushPrint
  split
  · exact ends_ok (TerminalState.Stays.refl _)
  · intro p' h
    obtain ⟨t, ht, rfl⟩ := map_eq_ok.mp h
    exact ends_foldlM (fun g _ => TerminalState.stays_printGrapheme g) t ht

theorem stays_printChar (c : Char) : p.Stays (p.printChar c) := by
  unfold printChar
  split
  · exact TerminalState.stays_of_same rfl rfl rfl rfl rfl rfl
  · exact TerminalState.Stays.refl _

theorem stays_printString (s : Text) : p.Stays (s.foldl printChar p) := by
  induction s generalizing p with
  | nil => exact TerminalState.Stays.refl _
  | cons c s ih => exact TerminalState.Stays.trans (stays_printChar c) ih

theorem stays_flushThen {f : TerminalState → Except Panic TerminalState}
    (hf : ∀ t, Ends TerminalState.Stays t (f t)) : Ends Stays p (p.flushThen unicode f) := by
  unfold flushThen
  refine stays_flushPrint.bind fun p1 p' h => ?_
  obtain ⟨t, ht, h⟩ := bind_eq_ok.mp h
  cases h
  exact hf p1.state t ht

theorem stays_popTmuxTitleState : p.Stays p.popTmuxTitleState :=
  TerminalState.stays_of_same rfl rfl rfl rfl rfl rfl

theorem stays_perform (action : Action) : Ends Stays p (p.perform unicode action) := by
  have hpop := fun (f : TerminalState → Except Panic TerminalState)
      (hf : ∀ t, Ends TerminalState.Stays t (f t)) (p' : Performer)
      (h : p.popTmuxTitleState.flushThen unicode f = .ok p') =>
    TerminalState.Stays.trans stays_popTmuxTitleState (stays_flushThen hf p' h)
  unfold perform
  dsimp only
  split
  · exact ends_ok (TerminalState.stays_of_same rfl rfl rfl rfl rfl rfl)
  · cases action with
    | print c => exact ends_ok (stays_printChar c)
    | printString s => exact ends_ok (stays_printString s)
    | control code => exact hpop _ fun _ => TerminalState.stays_control code
    | deviceControl => exact ends_ok stays_popTmuxTitleState
    | operatingSystemCommand osc => exact hpop _ fun _ => TerminalState.stays_oscDispatch osc
    | esc esc =>
      refine stays_flushThen fun t => ?_
      split
      · exact TerminalState.stays_escDispatch esc
      · intro t' h
        have hnone : t.Stays { t with accumulatingTitle := none } :=
          TerminalState.stays_of_same rfl rfl rfl rfl rfl rfl
        exact hnone.trans (TerminalState.stays_escDispatch esc t' h)
    | csi csi => exact hpop _ fun _ => TerminalState.stays_csiDispatch csi
    | sixel params =>
      intro p' h
      obtain ⟨t, ht, rfl⟩ := map_eq_ok.mp h
      exact TerminalState.stays_sixel params t ht
    | xtGetTcap => exact ends_ok (TerminalState.Stays.refl _)
    | kittyImage img => exact stays_flushThen fun _ => TerminalState.stays_kittyImg img

end Performer

variable {unicode : Unicode} {t t' : TerminalState}

/-- **A batch of actions keeps the sizes**, and leaves enough lines and the margins in them. -/
theorem TerminalState.stays_performActions (actions : List Action) :
    Ends Stays t (t.performActions unicode actions) := by
  have hstart : t.Stays { t with seqno := t.seqno + 1 } := stays_of_same rfl rfl rfl rfl rfl rfl
  intro t' h
  obtain ⟨p1, h1, h⟩ := bind_eq_ok.mp h
  obtain ⟨p2, h2, h⟩ := bind_eq_ok.mp h
  cases h
  have hactions := ends_foldlM (R := Performer.Stays)
    (fun action _ => Performer.stays_perform action) p1 h1
  exact hstart.trans (hactions.trans (Performer.stays_flushPrint p2 h2))

theorem TerminalState.keeps_performActions (actions : List Action) :
    Ends Keeps t (t.performActions unicode actions) :=
  fun t' h => (stays_performActions actions t' h).keeps

/-- The states that a terminal goes through: it is made, actions are performed, graphemes are
printed one by one, batches begin, and the size changes. -/
inductive TerminalState.Reachable (unicode : Unicode) : TerminalState → Prop where
  | new (size : TerminalSize) (config : TerminalConfig) (configuredScrollback : Nat) (quirks : Bool) :
      Reachable unicode { TerminalState.new size config configuredScrollback with
        enableConptyQuirks := quirks, suppressInitialTitleChange := quirks }
  | beginBatch {t : TerminalState} : Reachable unicode t →
      Reachable unicode { t with seqno := t.seqno + 1 }
  | perform {p p' : Performer} {action : Action} : Reachable unicode p.state →
      p.perform unicode action = .ok p' → Reachable unicode p'.state
  | printGrapheme {t t' : TerminalState} {g : Text} : Reachable unicode t →
      t.printGrapheme unicode g = .ok t' → Reachable unicode t'
  | resize {t : TerminalState} (size : TerminalSize) : Reachable unicode t →
      Reachable unicode (t.resize unicode size)

theorem Screen.resize_size {graphemes : Graphemes} (s : Screen) (size : TerminalSize)
    (cursor : CursorPosition) (seqno : Nat) (isConpty : Bool) :
    (s.resize graphemes size cursor seqno isConpty).1.physicalRows = max size.rows 1 ∧
      (s.resize graphemes size cursor seqno isConpty).1.physicalCols = max size.cols 1 := by
  unfold Screen.resize
  dsimp only
  split
  · next hsame => exact ⟨hsame.1.symm, hsame.2.1.symm⟩
  · exact ⟨rfl, rfl⟩

theorem TerminalState.framed_resize (t : TerminalState) (size : TerminalSize) :
    (t.resize unicode size).Framed := by
  have hsize : ∀ (s : Screen) cursor seqno isConpty,
      (s.resize unicode.graphemes size cursor seqno isConpty).1.physicalRows = max size.rows 1 ∧
        (s.resize unicode.graphemes size cursor seqno isConpty).1.physicalCols =
          max size.cols 1 :=
    fun s cursor seqno isConpty => s.resize_size size cursor seqno isConpty
  have hframed : ∀ t' : TerminalState, t'.topAndBottomMargins = ⟨0, size.rows⟩ →
      t'.leftAndRightMargins = ⟨0, size.cols⟩ →
      t'.screen.screen.physicalRows = max size.rows 1 →
      t'.screen.screen.physicalCols = max size.cols 1 →
      t'.screen.altScreen.physicalRows = max size.rows 1 →
      t'.screen.altScreen.physicalCols = max size.cols 1 → t'.Framed := by
    intro t' hregion hcolumns hrows hcols haltRows haltCols
    refine ⟨by omega, by omega, ?_, ?_, ?_⟩
    · simp [hregion]
    · rw [hregion, hrows]
      show (size.rows : Int) ≤ _
      omega
    · rw [hcolumns, hcols]
      show size.cols ≤ _
      omega
  have hmain : ∀ (t' : TerminalState) x y saved, t'.Framed →
      { t'.setCursorPos x y with
        screen := { (t'.setCursorPos x y).screen with savedCursor := saved } }.Framed := by
    intro t' x y saved h
    have hmoved := (stays_setCursorPos x y).framed h
    exact ⟨hmoved.rows, hmoved.cols, hmoved.top, hmoved.bottom, hmoved.right⟩
  have halt : ∀ (t' : TerminalState) x y saved, t'.Framed →
      { t'.setCursorPos x y with
        screen := { (t'.setCursorPos x y).screen with altSavedCursor := saved } }.Framed := by
    intro t' x y saved h
    have hmoved := (stays_setCursorPos x y).framed h
    exact ⟨hmoved.rows, hmoved.cols, hmoved.top, hmoved.bottom, hmoved.right⟩
  unfold TerminalState.resize
  dsimp only
  split
  · refine hmain _ _ _ _ (hframed _ rfl rfl ?_ ?_ ?_ ?_)
    · exact (hsize _ _ _ _).1
    · exact (hsize _ _ _ _).2
    · exact (hsize _ _ _ _).1
    · exact (hsize _ _ _ _).2
  · refine halt _ _ _ _ (hframed _ rfl rfl ?_ ?_ ?_ ?_)
    · exact (hsize _ _ _ _).1
    · exact (hsize _ _ _ _).2
    · exact (hsize _ _ _ _).1
    · exact (hsize _ _ _ _).2

/-- **The screens have one size, and the margins lie within it**, whatever has happened. -/
theorem TerminalState.Reachable.framed (h : t.Reachable unicode) : t.Framed := by
  induction h with
  | new size config configuredScrollback quirks =>
    refine ⟨rfl, rfl, Int.le_refl 0, ?_, ?_⟩
    · show (size.rows : Int) ≤ (max size.rows 1 : Nat)
      omega
    · show size.cols ≤ max size.cols 1
      omega
  | beginBatch _ ih => exact ⟨ih.rows, ih.cols, ih.top, ih.bottom, ih.right⟩
  | perform _ hstep ih => exact (Performer.stays_perform _ _ hstep).framed ih
  | printGrapheme _ hstep ih => exact (stays_printGrapheme _ _ hstep).framed ih
  | resize size _ _ => exact framed_resize _ size

theorem Screen.Filled.resize {graphemes : Graphemes} {s : Screen} (h : s.Filled)
    (size : TerminalSize) (cursor : CursorPosition) (seqno : Nat) (isConpty : Bool) :
    (s.resize graphemes size cursor seqno isConpty).1.Filled := by
  unfold Screen.resize
  dsimp only
  split
  · exact h
  · -- new lines are put below what is left, up to the number of rows
    have hpadded : ∀ (s : Screen) n, n ≤ (s.padLines (n - s.lines.length) seqno).lines.length := by
      intro s n
      simp only [Screen.padLines, List.length_append, List.length_replicate]
      omega
    have hgrown : ∀ (s : Screen) m, s.lines.length ≤ (s.padLines m seqno).lines.length := by
      intro s m
      simp only [Screen.padLines, List.length_append, List.length_replicate]
      omega
    unfold Screen.Filled
    split
    · exact Nat.le_trans (hpadded _ _) (hgrown _ _)
    · exact hpadded _ _

/-- **Each screen has a line for each of its rows**, whatever has happened. -/
theorem TerminalState.Reachable.filled (h : t.Reachable unicode) :
    t.screen.screen.Filled ∧ t.screen.altScreen.Filled := by
  have hkeeps : ∀ {t t' : TerminalState}, t.Keeps t' →
      t.screen.screen.Filled ∧ t.screen.altScreen.Filled →
      t'.screen.screen.Filled ∧ t'.screen.altScreen.Filled := by
    intro t t' hkeeps ih
    exact ⟨(hkeeps.screen.filled ih.1).1, (hkeeps.altScreen.filled ih.2).1⟩
  induction h with
  | new size config configuredScrollback quirks =>
    exact ⟨Nat.le_of_eq List.length_replicate.symm, Nat.le_of_eq List.length_replicate.symm⟩
  | beginBatch _ ih => exact ih
  | perform _ hstep ih => exact hkeeps (Performer.stays_perform _ _ hstep).keeps ih
  | printGrapheme _ hstep ih => exact hkeeps (stays_printGrapheme _ _ hstep).keeps ih
  | resize size _ ih =>
    have hmoved : ∀ (t' : TerminalState) x y, t'.screen.screen.Filled ∧ t'.screen.altScreen.Filled →
        (t'.setCursorPos x y).screen.screen.Filled ∧
          (t'.setCursorPos x y).screen.altScreen.Filled :=
      fun t' x y hfilled => hkeeps (stays_setCursorPos x y).keeps hfilled
    unfold TerminalState.resize
    dsimp only
    split
    · exact hmoved _ _ _ ⟨ih.1.resize .., ih.2.resize ..⟩
    · exact hmoved _ _ _ ⟨ih.1.resize .., ih.2.resize ..⟩

theorem TerminalState.Reachable.printAll {graphemes : List Text} (ht : t.Reachable unicode)
    (h : graphemes.foldlM (fun (t : TerminalState) g => t.printGrapheme unicode g) t = .ok t') :
    t'.Reachable unicode := by
  induction graphemes generalizing t with
  | nil =>
    cases h
    exact ht
  | cons g graphemes ih =>
    rw [List.foldlM_cons] at h
    obtain ⟨t1, h1, h⟩ := bind_eq_ok.mp h
    exact ih (ht.printGrapheme h1) h

theorem TerminalState.Reachable.performAll {p p' : Performer} {actions : List Action}
    (hp : p.state.Reachable unicode)
    (h : actions.foldlM (fun (p : Performer) action => p.perform unicode action) p = .ok p') :
    p'.state.Reachable unicode := by
  induction actions generalizing p with
  | nil =>
    cases h
    exact hp
  | cons action actions ih =>
    rw [List.foldlM_cons] at h
    obtain ⟨p1, h1, h⟩ := bind_eq_ok.mp h
    exact ih (hp.perform h1) h

theorem TerminalState.Reachable.performActions {actions : List Action} (ht : t.Reachable unicode)
    (h : t.performActions unicode actions = .ok t') : t'.Reachable unicode := by
  obtain ⟨p1, h1, h⟩ := bind_eq_ok.mp h
  obtain ⟨p2, h2, h⟩ := bind_eq_ok.mp h
  cases h
  have hp1 : p1.state.Reachable unicode := Reachable.performAll ht.beginBatch h1
  unfold Performer.flushPrint at h2
  split at h2
  · cases h2
    exact hp1
  · obtain ⟨t2, ht2, rfl⟩ := map_eq_ok.mp h2
    exact hp1.printAll ht2

end Wakterm.Term
