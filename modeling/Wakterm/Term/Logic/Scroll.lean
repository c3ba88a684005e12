import Wakterm.Term.Logic.Damage

/-!
# Scrolling and the stable rows

Where the lines go to the scrollback their stable rows stay, and nothing is marked but what is below
the region.
-/

namespace Wakterm.Term

open Wakterm.Machine

/-- How many rows a scroll of the region moves. -/
def Screen.scrolledRows (s : Screen) (region : Span Int) (numRows : Nat) : Nat :=
  min numRows (s.physRow region.stop - s.physRow region.start)

/-- What `scroll_up` relies on when it does not mark the rows of its region: a region from the top
of a screen with a scrollback ends at the bottom, or the scrollback is not just full, and the lines
that go there are read back as they were; the top of a screen without one is its first line. -/
structure Screen.Settled (graphemes : Graphemes) (s : Screen) (region : Span Int)
    (rows : Nat) : Prop where
  top : region.start = 0 → s.allowScrollback = false → 0 < rows →
    s.lines.length ≤ s.physicalRows
  below : region.start = 0 → s.allowScrollback = true → 0 < rows →
    s.lines.length = s.physicalRows + s.scrollbackSize → s.lines.length ≤ s.physRow region.stop
  readable : region.start = 0 → s.allowScrollback = true → ∀ i line, At s.lines i line →
    s.physRow 0 ≤ i → i < s.physRow rows → line.Readable graphemes

section Scroll

variable {graphemes : Graphemes} {seqno : Nat} {s s' : Screen}

variable {n lines screen depth last i numRows : Nat} {attr : CellAttributes} {region : Span Int}
  {bidi : BidiMode}

theorem touchMove_kept {s1 s2 : Screen} {a b : Nat} {atEnd : Bool}
    (htouch : rowsFrom a (b - a) (Screen.touch seqno) s = .ok s1)
    (hsame : Pointwise graphemes seqno s1 s2)
    (hmove : rounds n (Screen.moveLine a seqno attr atEnd (b - 1)) s2 = .ok s') (hn : n ≤ b - a)
    (hend : atEnd = true → 0 < b - a → b = s.lines.length) : Kept graphemes seqno s s' := by
  obtain ⟨hpoint1, hnew1, hfit⟩ := rowsFrom_touch graphemes htouch
  have hpoint := hpoint1.trans hsame
  obtain ⟨hframe, hlen, hrows⟩ := rounds_moveLine hmove (fun hpos _ => by omega)
  have hoffset : ∀ i, s'.physToStableRowIndex i = s.physToStableRowIndex i := by
    intro i
    rw [hframe, hpoint.frame]
    rfl
  -- a touched line is new wherever it goes
  have hzone : ∀ j line, a ≤ j → j < b → At s2.lines j line → seqno ≤ line.seqno := by
    intro j line hj hj' hline
    rcases hsame.kept j line hline with hnew | ⟨old, hold, halike⟩
    · exact hnew
    · rw [halike.1]
      exact hnew1 j old hj (by omega) hold
  have hstay : ∀ i line, At s2.lines i line → seqno ≤ line.seqno ∨ ∃ j old, At s.lines j old ∧
      s.physToStableRowIndex j = s'.physToStableRowIndex i ∧ line.Alike graphemes old := by
    intro i line hline
    rcases hpoint.kept i line hline with hnew | ⟨old, hold, halike⟩
    · exact .inl hnew
    · exact .inr ⟨i, old, hold, (hoffset i).symm, halike⟩
  intro i line hline
  rcases hrows i line hline with hnew | ⟨-, hat⟩ | ⟨hi, hp, hat⟩ | ⟨-, -, hat⟩
  · exact .inl hnew
  · exact hstay i line hat
  · by_cases hpos : 0 < n
    · left
      refine hzone (i + n) line (by omega) ?_ hat
      cases atEnd with
      | true =>
        have hlt := hat.lt
        rw [hpoint.length] at hlt
        have := hend rfl (by omega)
        omega
      | false =>
        have := hp hpos rfl
        omega
    · obtain rfl : n = 0 := by omega
      exact hstay i line hat
  · exact hstay i line hat

theorem stop_le_of_gone {gone : Nat} (hlines : last + gone = lines) (hfull : screen ≤ last)
    (hi : lines - screen + depth - 1 < i + gone) : last - screen + depth ≤ i := by
  omega

theorem stop_le_of_come {come : Nat} (hlast : last ≤ lines + come)
    (hi : lines - screen + depth + come ≤ i) : last - screen + depth ≤ i := by
  omega

theorem scrollback_kept {s2 s3 s4 s5 : Screen}
    (hbelow : 0 < n → s.lines.length = s.physicalRows + s.scrollbackSize →
      s.lines.length ≤ s.physRow region.stop) (hsame : Pointwise graphemes seqno s s2)
    (hmove : rounds (min (s.linesRemoved true n) n) (Screen.moveLine 0 seqno attr
      (decide (region.stop = s.physicalRows)) (s.physRow region.stop - 1)) s2 = .ok s3)
    (hremove : rounds (s.linesRemoved true n - min (s.linesRemoved true n) n)
      (Screen.removeLine 0) s3 = .ok s4)
    (hadd : rounds (n - min (s.linesRemoved true n) n) (Screen.addLine seqno attr bidi
      (decide (region.stop = s.physicalRows)) (s.physRow region.stop))
      { s4 with stableRowIndexOffset := s4.stableRowIndexOffset + s.linesRemoved true n } =
        .ok s5)
    (htouch : (if 0 < s.linesRemoved true n - min (s.linesRemoved true n) n ∨
        (0 < n - min (s.linesRemoved true n) n ∧ !decide (region.stop = s.physicalRows)) then
      rowsFrom (s5.physRow region.stop) (s5.physRow s5.physicalRows - s5.physRow region.stop)
        (Screen.touch seqno) s5
      else .ok s5) = .ok s') :
    Kept graphemes seqno s s' := by
  have hlines := hsame.length
  obtain ⟨hframe3, hlen3, hrows3⟩ := rounds_moveLine hmove fun _ _ => Nat.zero_le _
  obtain ⟨hframe4, hlen4, hrows4⟩ := rounds_removeLine hremove
  obtain ⟨hframe5, hlen5, hrows5⟩ := rounds_addLine hadd
  have hscreen : s5 = { s with
      lines := s5.lines
      stableRowIndexOffset := s.stableRowIndexOffset + s.linesRemoved true n } := by
    rw [hframe5, hframe4, hframe3, hsame.frame]
  have hstable : ∀ i, s5.physToStableRowIndex i =
      s.physToStableRowIndex (i + s.linesRemoved true n) := by
    intro i
    rw [hscreen]
    show ((i + (s.stableRowIndexOffset + s.linesRemoved true n) : Nat) : Int) =
      ((i + s.linesRemoved true n + s.stableRowIndexOffset : Nat) : Int)
    omega
  replace hlen5 : s5.lines.length = s4.lines.length + (n - min (s.linesRemoved true n) n) := hlen5
  have hbottom5 : s5.physRow s5.physicalRows =
      (s5.lines.length - s.physicalRows) + s.physicalRows := by
    rw [hscreen]
    show _ + min s.physicalRows s.physicalRows = _
    rw [Nat.min_self]
  have hstop5 : s5.physRow region.stop =
      (s5.lines.length - s.physicalRows) + min region.stop.toNat s.physicalRows := by
    rw [hscreen]
    rfl
  have hremoved : s.linesRemoved true n =
      (s.lines.length + n) - (s.physicalRows + s.scrollbackSize) := rfl
  have htop : s.physRow 0 = s.lines.length - s.physicalRows := rfl
  have hstop : s.physRow region.stop =
    (s.lines.length - s.physicalRows) + min region.stop.toNat s.physicalRows := rfl
  -- what the arithmetic needs of the two minima: only one of the two rests is more than nothing
  have hdepth : min region.stop.toNat s.physicalRows ≤ s.physicalRows := Nat.min_le_right _ _
  obtain ⟨gone, hgone⟩ := Nat.exists_eq_add_of_le (Nat.min_le_left (s.linesRemoved true n) n)
  obtain ⟨come, hcome⟩ := Nat.exists_eq_add_of_le (Nat.min_le_right (s.linesRemoved true n) n)
  have hnone : gone = 0 ∨ come = 0 := by
    rcases Nat.le_total (s.linesRemoved true n) n with hle | hle
    · rw [Nat.min_eq_left hle] at hgone
      omega
    · rw [Nat.min_eq_right hle] at hcome
      omega
  have hgone' := Nat.sub_eq_of_eq_add' hgone
  have hcome' := Nat.sub_eq_of_eq_add' hcome
  rw [hgone'] at hremove hlen4 hrows4 htouch
  rw [hcome'] at hadd hlen5 hrows5 htouch
  clear hgone' hcome'
  generalize min (s.linesRemoved true n) n = moved at *
  generalize min region.stop.toNat s.physicalRows = depth at *
  generalize decide (region.stop = (s.physicalRows : Int)) = atEnd at *
  generalize s.linesRemoved true n = removed at *
  generalize s.physRow region.stop = b at *
  generalize s.physRow 0 = a at *
  replace hlen4 : s4.lines.length + gone = s.lines.length := by
    have hle : removed ≤ s.lines.length + n := hremoved ▸ Nat.sub_le _ _
    have hfit : 0 + gone ≤ s3.lines.length := by
      rw [hlen3, hlines]
      rcases hnone with hnone | hnone
      · omega
      · omega
    rw [hlen4 hfit, hlen3, hlines]
    omega
  have hfull : 0 < gone → come = 0 ∧ s.physicalRows ≤ s4.lines.length := by
    intro hpos
    obtain rfl : come = 0 := by omega
    exact ⟨rfl, by omega⟩
  -- the lines that stay in their stable rows are those that come from `removed` lines further down
  have hstay : ∀ i line, At s2.lines (i + removed) line → seqno ≤ line.seqno ∨
      ∃ j old, At s.lines j old ∧ s.physToStableRowIndex j = s5.physToStableRowIndex i ∧
        line.Alike graphemes old := by
    intro i line hat
    rcases hsame.kept _ line hat with hnew | ⟨old, hold, halike⟩
    · exact .inl hnew
    · exact .inr ⟨i + removed, old, hold, (hstable i).symm, halike⟩
  have hrow : ∀ i line, At s5.lines i line → (seqno ≤ line.seqno ∨
      ∃ j old, At s.lines j old ∧ s.physToStableRowIndex j = s5.physToStableRowIndex i ∧
        line.Alike graphemes old) ∨
      (0 < gone ∨ (0 < come ∧ !atEnd)) ∧
        s5.physRow region.stop ≤ i ∧ i < s5.physRow s5.physicalRows := by
    intro i line hline
    have hend5 : i < s5.lines.length - s.physicalRows + s.physicalRows :=
      Nat.lt_of_lt_of_le hline.lt (Nat.sub_le_iff_le_add.mp (Nat.le_refl _))
    rw [hbottom5, hstop5]
    rcases hrows5 i line hline with hnew | ⟨hend, hat⟩ | ⟨hend, hi, hat⟩ | ⟨hend, hi, hat⟩
    · exact .inl (.inl hnew)
    · rcases hrows4 i line hat with ⟨hi, -⟩ | ⟨-, hat⟩
      · omega
      · rcases hrows3 _ line hat with hnew | ⟨hi, -⟩ | ⟨-, -, hat⟩ | ⟨hend', -⟩
        · exact .inl (.inl hnew)
        · omega
        · rw [show i + gone + moved = i + removed by omega] at hat
          exact .inl (hstay i line hat)
        · rw [hend] at hend'
          cases hend'
    · rcases hrows4 i line hat with ⟨hi, -⟩ | ⟨-, hat⟩
      · omega
      · rcases hrows3 _ line hat with hnew | ⟨hi, -⟩ | ⟨-, -, hat⟩ | ⟨-, hi', hat⟩
        · exact .inl (.inl hnew)
        · omega
        · rw [show i + gone + moved = i + removed by omega] at hat
          exact .inl (hstay i line hat)
        · rcases Nat.eq_zero_or_pos gone with hnothing | hpos
          · rw [hnothing, Nat.add_zero] at hi'
            exact absurd hi (Nat.not_lt.mpr (Nat.le_of_pred_lt hi'))
          · obtain ⟨hcome0, hfull⟩ := hfull hpos
            rw [hcome0, Nat.add_zero] at hlen5
            rw [← hlen5] at hlen4 hfull
            rw [hstop] at hi'
            exact .inr ⟨.inl hpos, stop_le_of_gone hlen4 hfull hi', hend5⟩
    · by_cases hmoved : 0 < gone ∨ 0 < come
      · right
        rw [hend]
        have hlast : s5.lines.length ≤ s.lines.length + come := by
          rw [hlen5, ← hlen4]
          exact Nat.add_le_add_right (Nat.le_add_right _ _) _
        refine ⟨?_, stop_le_of_come hlast (hstop ▸ hi), hend5⟩
        rcases hmoved with hmoved | hmoved
        · exact .inl hmoved
        · exact .inr ⟨hmoved, rfl⟩
      · -- all that scroll off are taken away, and as many come in again
        rcases hrows4 _ line hat with ⟨hi, -⟩ | ⟨-, hat⟩
        · omega
        · rcases hrows3 _ line hat with hnew | ⟨hi, -⟩ | ⟨-, -, hat⟩ | ⟨-, -, hat⟩
          · exact .inl (.inl hnew)
          · omega
          · rw [show i - come + gone + moved =
              i + removed by omega] at hat
            exact .inl (hstay i line hat)
          · by_cases hn0 : n = 0
            · rw [show i - come + gone = i + removed by omega]
                at hat
              exact .inl (hstay i line hat)
            · have hbottom := hbelow (Nat.pos_of_ne_zero hn0) (by omega)
              have hlt' := hat.lt
              omega
  have hpoint : Pointwise graphemes seqno s5 s' ∧
      ((0 < gone ∨ (0 < come ∧ !atEnd)) →
        ∀ i line, s5.physRow region.stop ≤ i → i < s5.physRow s5.physicalRows →
          At s'.lines i line → seqno ≤ line.seqno) := by
    split at htouch
    · next hmoved =>
      obtain ⟨hpoint, hnew, -⟩ := rowsFrom_touch graphemes htouch
      exact ⟨hpoint, fun _ i line hi hi' => hnew i line hi (by omega)⟩
    · next hmoved =>
      cases htouch
      exact ⟨Pointwise.refl _, fun hmoved' => absurd hmoved' hmoved⟩
  intro i line hline
  rcases hpoint.1.kept i line hline with hnew | ⟨old, hold, halike⟩
  · exact .inl hnew
  · rcases hrow i old hold with (hnew | ⟨j, older, holder, hj, halike'⟩) | ⟨hmoved, hi, hi'⟩
    · left
      rw [halike.1]
      exact hnew
    · refine .inr ⟨j, older, holder, ?_, halike.trans halike'⟩
      rw [hj, hpoint.1.frame]
      rfl
    · exact .inl (hpoint.2 hmoved i line hi hi' hline)

theorem scrollUp_stages (h : s.scrollUp region numRows seqno attr bidi = .ok s') :
    ∃ s1 s2 s3 s4 s5, ∃ n ok atEnd removed at0,
      n = s.scrolledRows region numRows ∧
      ok = (decide (region.start = 0) && s.allowScrollback) ∧
      atEnd = decide (region.stop = s.physicalRows) ∧
      removed = s1.linesRemoved ok n ∧
      at0 = (if region.start = 0 then 0 else s.physRow region.start) ∧
      (if ok then .ok s else
        rowsFrom (s.physRow region.start) (s.physRow region.stop - s.physRow region.start)
          (Screen.touch seqno) s) = .ok s1 ∧
      (if region.start = 0 then
        rowsFrom (s1.physRow 0) (s1.physRow n - s1.physRow 0)
          (fun y s => s.modifyLine y fun line => .ok line.compressForScrollback) s1
        else .ok s1) = .ok s2 ∧
      rounds (min removed n)
        (Screen.moveLine at0 seqno attr atEnd (s.physRow region.stop - 1)) s2 = .ok s3 ∧
      rounds (removed - min removed n)
        (Screen.removeLine at0) s3 = .ok s4 ∧
      rounds (n - min removed n)
        (Screen.addLine seqno attr bidi atEnd (s.physRow region.stop))
        (if at0 = 0 ∧ ok then
          { s4 with stableRowIndexOffset := s4.stableRowIndexOffset + removed }
        else s4) = .ok s5 ∧
      (if 0 < removed - min removed n ∨ (0 < n - min removed n ∧ !atEnd) then
        rowsFrom (s5.physRow region.stop) (s5.physRow s5.physicalRows - s5.physRow region.stop)
          (Screen.touch seqno) s5
        else .ok s5) = .ok s' := by
  unfold Screen.scrollUp at h
  dsimp only [Screen.physRange] at h
  split at h
  · cases h
  · obtain ⟨s1, h1, h⟩ := bind_eq_ok.mp h
    obtain ⟨s2, h2, h⟩ := bind_eq_ok.mp h
    obtain ⟨s3, h3, h⟩ := bind_eq_ok.mp h
    obtain ⟨s4, h4, h⟩ := bind_eq_ok.mp h
    obtain ⟨s5, h5, h⟩ := bind_eq_ok.mp h
    exact ⟨s1, s2, s3, s4, s5, _, _, _, _, _, rfl, rfl, rfl, rfl, rfl, h1, h2, h3, h4, h5, h⟩

/-- **Nothing is lost on a scroll up** of a settled region. -/
theorem scrollUp_kept (h : s.scrollUp region numRows seqno attr bidi = .ok s')
    (hsettled : s.Settled graphemes region (s.scrolledRows region numRows)) :
    Kept graphemes seqno s s' := by
  obtain ⟨s1, s2, s3, s4, s5, n, ok, atEnd, removed, at0, hn, hok, hend, hremoved, hat0, h1, h2, h3,
    h4, h5, h6⟩ := scrollUp_stages h
  rw [← hn] at hsettled
  have hheight : n ≤ s.physRow region.stop - s.physRow region.start := by
    rw [hn]
    exact Nat.min_le_right _ _
  have hbottom : atEnd = true → 0 < s.physRow region.stop - s.physRow region.start →
      s.physRow region.stop ≤ s.lines.length → s.physRow region.stop = s.lines.length := by
    intro htrue hpos hfit
    rw [hend] at htrue
    have hstop := of_decide_eq_true htrue
    unfold Screen.physRow at *
    omega
  -- the region was touched as a whole, and as many lines come in again as are taken away
  have hunmarked : ok = false → (0 < n → at0 = s.physRow region.start) →
      Pointwise graphemes seqno s1 s2 → Kept graphemes seqno s s' := by
    intro hfalse hat hsame
    rw [hfalse] at h1 h5 hremoved
    have hcount : removed = n := hremoved
    rw [hcount, Nat.min_self] at h3 h4 h5 h6
    rw [Nat.sub_self] at h4 h5 h6
    cases h4
    rw [if_neg (by simp)] at h5
    cases h5
    rw [if_neg (by omega)] at h6
    obtain rfl := Except.ok.inj h6
    have h3 : rounds n (Screen.moveLine (s.physRow region.start) seqno attr atEnd
        (s.physRow region.stop - 1)) s2 = .ok s3 := by
      by_cases hpos : 0 < n
      · rw [← hat hpos]
        exact h3
      · obtain rfl : n = 0 := by omega
        exact h3
    obtain ⟨-, -, hfit⟩ := rowsFrom_touch graphemes h1
    exact touchMove_kept h1 hsame h3 hheight fun htrue hpos => hbottom htrue hpos (by omega)
  by_cases hstart : region.start = 0
  · rw [if_pos hstart] at hat0 h2
    rw [hstart] at hheight
    cases hscroll : s.allowScrollback with
    | false =>
      have hfalse : ok = false := by rw [hok, hscroll, Bool.and_false]
      refine hunmarked hfalse ?_ ?_
      · intro hpos
        have htop := hsettled.top hstart hscroll hpos
        rw [hat0, hstart]
        show 0 = (s.lines.length - s.physicalRows) + min 0 s.physicalRows
        omega
      · -- the rows that are made into runs are among those that were touched
        rw [hfalse] at h1
        obtain ⟨hpoint, hnew, -⟩ := rowsFrom_touch graphemes h1
        refine rowsFrom_compress_new h2 ?_
        intro i line hi hi' hline
        refine hnew i line ?_ ?_ hline
        · rw [hstart]
          rw [hpoint.frame] at hi
          unfold Screen.physRow at *
          rw [hpoint.length] at hi
          omega
        · rw [hstart]
          unfold Screen.physRow at *
          rw [hpoint.length] at hi'
          have hrows : s1.physicalRows = s.physicalRows := by rw [hpoint.frame]
          omega
    | true =>
      have htrue : ok = true := by rw [hok, hscroll, hstart]; rfl
      rw [htrue] at h1 h5 hremoved
      cases h1
      rw [if_pos ⟨hat0, rfl⟩] at h5
      subst hat0 hremoved hend
      refine scrollback_kept (hsettled.below hstart hscroll) ?_ h3 h4 h5 h6
      refine rowsFrom_compress h2 ?_
      intro i line hi hi' hat
      exact hsettled.readable hstart hscroll i line hat hi (by omega)
  · rw [if_neg hstart] at hat0 h2
    cases h2
    refine hunmarked ?_ (fun _ => hat0) (Pointwise.refl s1)
    rw [hok, decide_eq_false hstart, Bool.false_and]

theorem scrollDown_kept (h : s.scrollDown region numRows seqno attr bidi = .ok s') :
    Kept graphemes seqno s s' := by
  unfold Screen.scrollDown at h
  dsimp only [Screen.physRange] at h
  generalize s.physRow region.start = a at h
  generalize s.physRow region.stop = b at h
  split at h
  · cases h
  · obtain ⟨s1, h1, h⟩ := bind_eq_ok.mp h
    obtain ⟨s2, h2, h3⟩ := bind_eq_ok.mp h
    generalize hn : min numRows (b - a) = n at h1 h2 h3
    obtain ⟨hpoint, hnew1, -⟩ := rowsFrom_touch graphemes h1
    obtain ⟨hframe2, -, hrows2⟩ := rounds_removeLine h2
    obtain ⟨hframe3, -, hrows3⟩ := rounds_addLine h3
    have hstay : ∀ i line, At s1.lines i line → seqno ≤ line.seqno ∨ ∃ j old, At s.lines j old ∧
        s.physToStableRowIndex j = s'.physToStableRowIndex i ∧ line.Alike graphemes old := by
      intro i line hline
      rcases hpoint.kept i line hline with hnew | ⟨old, hold, halike⟩
      · exact .inl hnew
      · refine .inr ⟨i, old, hold, ?_, halike⟩
        rw [hframe3, hframe2, hpoint.frame]
        rfl
    intro i line hline
    rcases hrows3 i line hline with hnew | ⟨hend, -⟩ | ⟨-, hi, hat⟩ | ⟨-, hi, hat⟩
    · exact .inl hnew
    · cases hend
    · rcases hrows2 i line hat with ⟨-, hat⟩ | ⟨hi', -⟩
      · exact hstay i line hat
      · omega
    · rcases hrows2 _ line hat with ⟨hi', hat⟩ | ⟨hi', hat⟩
      · -- it was in the region, and is further down now
        exact .inl (hnew1 _ line (by omega) (by omega) hat)
      · rw [show i - n + n = i by omega] at hat
        exact hstay i line hat

theorem eraseScrollback_kept (h : s.eraseScrollback = .ok s')
    (htop : s.allowScrollback = false → s.lines.length ≤ s.physicalRows) :
    Kept graphemes seqno s s' := by
  unfold Screen.eraseScrollback at h
  split at h
  · cases h
  · cases h
    intro i line hline
    unfold At at hline
    dsimp only at hline
    rw [List.getElem?_drop] at hline
    refine .inr ⟨_, line, hline, ?_, rfl, rfl⟩
    unfold Screen.physToStableRowIndex
    dsimp only
    cases hscroll : s.allowScrollback with
    | true =>
      rw [if_pos rfl]
      omega
    | false =>
      have := htop hscroll
      rw [if_neg (by decide)]
      omega

/-! ## Within margins -/

theorem scrollUpWithinMargins_kept {margins : Span Nat}
    (h : s.scrollUpWithinMargins graphemes region margins numRows seqno attr bidi = .ok s')
    (hsettled : margins.start = 0 ∧ margins.stop = s.physicalCols →
      s.Settled graphemes region (s.scrolledRows region numRows)) : Kept graphemes seqno s s' := by
  unfold Screen.scrollUpWithinMargins at h
  split at h
  · next hwhole => exact scrollUp_kept h (hsettled hwhole)
  · dsimp only [Screen.physRange] at h
    generalize s.physRow region.start = a at h
    generalize s.physRow region.stop = b at h
    split at h
    · cases h
    · obtain ⟨s1, h1, h2⟩ := bind_eq_ok.mp h
      generalize hn : min numRows (b - a) = n at h1 h2
      refine (copyRows_pointwise (a := a) (b := b) id ?_ ?_ ?_ h1 h2).toKept
      · intro i hi hi'
        exact ⟨i + n, by omega, by omega, hi, by show i < b; omega, rfl⟩
      · intro i hi hi'
        omega
      · intro i hi hi'
        by_cases hcopied : i < a + (b - a - n)
        · exact .inr ⟨i, hi, hcopied, rfl⟩
        · left
          omega

theorem scrollDownWithinMargins_kept {margins : Span Nat}
    (h : s.scrollDownWithinMargins graphemes region margins numRows seqno attr bidi = .ok s') :
    Kept graphemes seqno s s' := by
  unfold Screen.scrollDownWithinMargins at h
  split at h
  · exact scrollDown_kept h
  · dsimp only [Screen.physRange] at h
    generalize s.physRow region.start = a at h
    generalize s.physRow region.stop = b at h
    split at h
    · cases h
    · obtain ⟨s1, h1, h2⟩ := bind_eq_ok.mp h
      generalize hn : min numRows (b - a) = n at h1 h2
      refine (copyRows_pointwise (a := a) (b := b)
        (fun i => a + (b - a - n - 1 - i) + n) ?_ ?_ ?_ h1 h2).toKept
      · intro i hi hi'
        exact ⟨a + (b - a - n - 1 - i), by omega, by omega, by omega, by omega, rfl⟩
      · intro i hi hi'
        omega
      · intro i hi hi'
        by_cases hblank : i < a + n
        · exact .inl ⟨hi, hblank⟩
        · refine .inr ⟨b - 1 - i, by omega, by omega, ?_⟩
          omega

end Scroll

end Wakterm.Term
