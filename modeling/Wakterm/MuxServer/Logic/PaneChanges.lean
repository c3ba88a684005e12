import Wakterm.MuxServer.PaneChanges

/-!
# What a response lists

A row that has changed since the last sequence number and lies above the bottom of the viewport that
the call has read is listed, whatever happens between the reads (`lists_of_changed`).
-/

namespace Wakterm.MuxServer

open Wakterm.Rangeset

variable {Line : Type}

section Later

variable {pane pane' : PaneView Line}

theorem Later.trans {pane'' : PaneView Line} (h : Later pane pane') (h' : Later pane' pane'') :
    Later pane pane'' :=
  Relation.ReflTransGen.trans h h'

theorem Mutates.lastChanged_le (h : Mutates pane pane') (row : Int) :
    pane.lastChanged row ≤ pane'.lastChanged row := by
  rcases h.rows row with hrow | hrow
  · exact Nat.le_of_eq hrow.symm
  · rw [hrow]
    exact Nat.le_trans (pane.lastChanged_le row) (Nat.le_of_lt h.fresh)

theorem Later.seqno_le (h : Later pane pane') : pane.currentSeqno ≤ pane'.currentSeqno := by
  induction h with
  | refl => exact Nat.le_refl _
  | tail _ hstep ih => exact Nat.le_trans ih (Nat.le_of_lt hstep.fresh)

theorem Later.lastChanged_le (h : Later pane pane') (row : Int) :
    pane.lastChanged row ≤ pane'.lastChanged row := by
  induction h with
  | refl => exact Nat.le_refl _
  | tail _ hstep ih => exact Nat.le_trans ih (hstep.lastChanged_le row)

theorem Later.lastChanged_eq (h : Later pane pane') {row : Int}
    (hrow : pane'.lastChanged row ≤ pane.currentSeqno) :
    pane.lastChanged row = pane'.lastChanged row := by
  induction h with
  | refl => rfl
  | @tail view view' hviews hstep ih =>
    have hseq := Later.seqno_le hviews
    have hfresh := hstep.fresh
    rcases hstep.rows row with hsame | hnew
    · rw [hsame] at hrow ⊢
      exact ih hrow
    · omega

end Later

section InOrder

variable {start : PaneView Line} {reads : PaneReads Line}

theorem PaneReads.InOrder.start_seqno (h : reads.InOrder start) : Later start reads.seqno :=
  h.mouseGrabbed.trans (h.altScreenActive.trans (h.dimensions.trans (h.cursorPosition.trans
    (h.title.trans (h.workingDir.trans h.seqno)))))

theorem PaneReads.InOrder.start_changed (h : reads.InOrder start) : Later start reads.changed :=
  h.start_seqno.trans h.changed

theorem PaneReads.InOrder.seqno_lines (h : reads.InOrder start) : Later reads.seqno reads.lines :=
  h.changed.trans h.lines

theorem PaneReads.InOrder.seqno_end (h : reads.InOrder start) :
    Later reads.seqno reads.cursorLine :=
  h.seqno_lines.trans h.cursorLine

end InOrder

/-- The row is among the dirty or the bonus lines. -/
def PaneRenderChanges.Lists (response : PaneRenderChanges Line) (row : Int) : Prop :=
  Covers response.dirtyLines row ∨ ∃ line, (row, line) ∈ response.bonusLines

/-- The line is the one that the pane had for the row when the call asked for
lines. -/
def LineRead (compressForScrollback : Line → Line) (reads : PaneReads Line) (seqno : Nat)
    (row : Int) (line : Line) : Prop :=
  ∃ (pane : PaneView Line) (rows : Range Int) (i : Nat) (found : Line),
    (pane = reads.lines ∨ pane = reads.cursorLine) ∧ seqno ≤ pane.currentSeqno ∧
      row = (pane.getLines rows).1 + i ∧ (pane.getLines rows).2[i]? = some found ∧
      line = compressForScrollback found

section Response

variable {compressForScrollback : Line → Line}

theorem takeBonusLines_spec (lines : List Line) {row : Int} {dirty dirty' : RangeSet Int}
    {bonus : List (Int × Line)} (hproper : dirty.Proper)
    (h : takeBonusLines compressForScrollback row lines dirty = some (dirty', bonus)) :
    (∀ x, dirty.contains x = true → dirty'.contains x = true ∨ ∃ line, (x, line) ∈ bonus) ∧
      ∀ x line, (x, line) ∈ bonus → ∃ (i : Nat) (found : Line), x = row + i ∧
        lines[i]? = some found ∧ line = compressForScrollback found := by
  induction lines generalizing row dirty dirty' bonus with
  | nil =>
    simp only [takeBonusLines] at h
    cases h
    exact ⟨fun x hx => .inl hx, fun x line hx => absurd hx (by simp)⟩
  | cons head lines ih =>
    -- a line found further on is one place further on here
    have hshift : ∀ (bonus : List (Int × Line)), (∀ x line, (x, line) ∈ bonus →
        ∃ (i : Nat) (found : Line), x = row + 1 + i ∧ lines[i]? = some found ∧
          line = compressForScrollback found) →
        ∀ x line, (x, line) ∈ bonus → ∃ (i : Nat) (found : Line), x = row + i ∧
          (head :: lines)[i]? = some found ∧ line = compressForScrollback found := by
      intro bonus hbonus x line hx
      obtain ⟨i, found, rfl, hfound, hline⟩ := hbonus x line hx
      exact ⟨i + 1, found, by push_cast; omega, hfound, hline⟩
    by_cases hrow : dirty.contains row = true
    · simp only [takeBonusLines, hrow, if_true, Option.bind_eq_bind,
        Option.bind_eq_some_iff] at h
      obtain ⟨removed, hremove, ⟨dirty₁, bonus₁⟩, htake, h⟩ := h
      cases h
      obtain ⟨set', hset, hproper', _, hcovers⟩ :=
        RangeSet.removeRange_spec hproper (RangeSet.single row)
      cases hremove.symm.trans hset
      obtain ⟨hlisted, hlines⟩ := ih hproper' htake
      constructor
      · intro x hx
        by_cases hsame : x = row
        · rw [hsame]
          exact .inr ⟨_, List.mem_cons_self⟩
        · have hstill : removed.contains x = true := by
            rw [RangeSet.contains_iff, hcovers]
            refine ⟨RangeSet.contains_iff.mp hx, ?_⟩
            rw [Range.contains_iff]
            simp only [RangeSet.single]
            omega
          exact (hlisted x hstill).imp id fun ⟨line, hline⟩ =>
            ⟨line, List.mem_cons_of_mem _ hline⟩
      · intro x line hx
        rcases List.mem_cons.mp hx with hx | hx
        · simp only [Prod.mk.injEq] at hx
          obtain ⟨rfl, rfl⟩ := hx
          exact ⟨0, head, by simp, rfl, rfl⟩
        · exact hshift bonus₁ hlines x line hx
    · simp only [takeBonusLines, hrow, Bool.false_eq_true, if_false] at h
      obtain ⟨hlisted, hlines⟩ := ih hproper h
      exact ⟨hlisted, hshift bonus hlines⟩

variable {perPane perPane' : PerPane} {reads : PaneReads Line}
  {force : Option InputSerial} {response : Option (PaneRenderChanges Line)}

theorem computeChanges_cases
    (h : perPane.computeChanges compressForScrollback reads force = some (response, perPane')) :
    (response = none ∧ (perPane.allDirtyLines reads).isEmpty = true ∧
        perPane'.seqno = reads.seqno.currentSeqno) ∨ ∃ changes, response = some changes ∧
        perPane.respond compressForScrollback reads force = some (changes, perPane') := by
  unfold PerPane.computeChanges at h
  by_cases hquiet : (!(perPane.differs reads || !(perPane.allDirtyLines reads).isEmpty) &&
      force.isNone) = true
  · rw [if_pos hquiet] at h
    cases h
    simp only [Bool.and_eq_true, Bool.not_eq_true', Bool.or_eq_false_iff,
      Bool.not_eq_false'] at hquiet
    exact .inl ⟨rfl, hquiet.1.2, rfl⟩
  · rw [if_neg hquiet, Option.map_eq_some_iff] at h
    obtain ⟨⟨changes, perPane₁⟩, hrespond, h⟩ := h
    simp only [Prod.mk.injEq] at h
    obtain ⟨rfl, rfl⟩ := h
    exact .inr ⟨changes, rfl, hrespond⟩

variable {changes : PaneRenderChanges Line}

theorem respond_spec
    (h : perPane.respond compressForScrollback reads force = some (changes, perPane')) :
    (∀ row, (perPane.allDirtyLines reads).contains row = true → changes.Lists row) ∧
      changes.seqno = reads.seqno.currentSeqno ∧ perPane'.seqno = reads.seqno.currentSeqno ∧
      ∀ row line, (row, line) ∈ changes.bonusLines →
        ∃ (pane : PaneView Line) (rows : Range Int) (i : Nat) (found : Line),
          (pane = reads.lines ∨ pane = reads.cursorLine) ∧
          row = (pane.getLines rows).1 + i ∧ (pane.getLines rows).2[i]? = some found ∧
          line = compressForScrollback found := by
  simp only [PerPane.respond, Option.bind_eq_bind, Option.bind_eq_some_iff, Option.some.injEq,
    Prod.mk.injEq] at h
  obtain ⟨⟨dirty, bonus⟩, htake, cursorLine, hcursor, rfl, rfl⟩ := h
  obtain ⟨hlisted, hlines⟩ := takeBonusLines_spec _ (reads.changed.proper _ _) htake
  refine ⟨?_, rfl, rfl, ?_⟩
  · intro row hrow
    rcases hlisted row hrow with hdirty | ⟨line, hline⟩
    · exact .inl (RangeSet.contains_iff.mp hdirty)
    · exact .inr ⟨line, List.mem_append_left _ hline⟩
  · intro row line hrow
    rcases List.mem_append.mp hrow with hrow | hrow
    · obtain ⟨i, found, hi, hfound, hline⟩ := hlines row line hrow
      exact ⟨reads.lines, _, i, found, .inl rfl, hi, hfound, hline⟩
    · simp only [List.mem_singleton, Prod.mk.injEq] at hrow
      obtain ⟨rfl, rfl⟩ := hrow
      rw [List.head?_eq_getElem?] at hcursor
      exact ⟨reads.cursorLine, _, 0, cursorLine, .inr rfl, (Int.add_zero _).symm, hcursor, rfl⟩

theorem computeChanges_seqno
    (h : perPane.computeChanges compressForScrollback reads force = some (response, perPane')) :
    perPane'.seqno = reads.seqno.currentSeqno := by
  rcases computeChanges_cases h with ⟨_, _, hseqno⟩ | ⟨changes, _, hrespond⟩
  · exact hseqno
  · exact (respond_spec hrespond).2.2.1

theorem lineRead_of_mem {start : PaneView Line} (horder : reads.InOrder start)
    (h : perPane.computeChanges compressForScrollback reads force = some (some changes, perPane'))
    {row : Int} {line : Line} (hmem : (row, line) ∈ changes.bonusLines) :
    LineRead compressForScrollback reads changes.seqno row line := by
  rcases computeChanges_cases h with ⟨hnone, _⟩ | ⟨changes', hsome, hrespond⟩
  · cases hnone
  · cases hsome
    obtain ⟨_, hseqno, _, hlines⟩ := respond_spec hrespond
    obtain ⟨pane, rows, i, found, hpane, hrow⟩ := hlines row line hmem
    refine ⟨pane, rows, i, found, hpane, ?_, hrow⟩
    rw [hseqno]
    rcases hpane with rfl | rfl
    · exact horder.seqno_lines.seqno_le
    · exact horder.seqno_end.seqno_le

/-- **A changed row above the bottom is listed.** -/
theorem lists_of_changed
    (h : perPane.computeChanges compressForScrollback reads force = some (response, perPane'))
    {row : Int} (hzero : 0 ≤ row) (hbottom : row < reads.dimensions.dimensions.bottom)
    (hchanged : perPane.seqno < reads.changed.lastChanged row) :
    ∃ changes, response = some changes ∧ changes.Lists row := by
  have hcontains : (perPane.allDirtyLines reads).contains row = true :=
    (reads.changed.contains_changedSince _ _ _).mpr ⟨hzero, hbottom, hchanged⟩
  rcases computeChanges_cases h with ⟨_, hempty, _⟩ | ⟨changes, hsome, hrespond⟩
  · -- a row that has changed is reason enough to respond
    obtain ⟨r, hr, _⟩ := RangeSet.contains_iff.mp hcontains
    rw [List.isEmpty_iff.mp hempty] at hr
    cases hr
  · exact ⟨changes, hsome, (respond_spec hrespond).1 row hcontains⟩

end Response

/-- Every row changed since the sequence number of the call before, up to that
of this one, lies above the bottom of the viewport that this call has read. -/
def Round.Steady (round : Round Line) : Prop :=
  ∀ row, 0 ≤ row → round.since < round.reads.seqno.lastChanged row →
    row < round.reads.dimensions.dimensions.bottom

/-- A response lists the row, computed when the row's last change was `seqno`
or a later one. -/
def Reported (rounds : List (Round Line)) (row : Int) (seqno : Nat) : Prop :=
  ∃ round ∈ rounds, ∃ changes, round.response = some changes ∧ changes.Lists row ∧
    seqno ≤ round.reads.changed.lastChanged row

theorem Reported.append {rounds : List (Round Line)} {row : Int} {seqno : Nat}
    (h : Reported rounds row seqno) (rounds' : List (Round Line)) :
    Reported (rounds ++ rounds') row seqno := by
  obtain ⟨round, hmem, hround⟩ := h
  exact ⟨round, List.mem_append_left _ hmem, hround⟩

/-- The rows changed up to the stored sequence number have been reported. -/
structure Accounted (rounds : List (Round Line)) (pane : PaneView Line) (perPane : PerPane) :
    Prop where
  seqno_le : perPane.seqno ≤ pane.currentSeqno
  rows : ∀ row, 0 ≤ row → 0 < pane.lastChanged row → pane.lastChanged row ≤ perPane.seqno →
    Reported rounds row (pane.lastChanged row)

section Run

variable {compressForScrollback : Line → Line} {first pane : PaneView Line}
  {perPane : PerPane} {rounds : List (Round Line)}

theorem Accounted.later {pane' : PaneView Line} (h : Accounted rounds pane perPane)
    (hlater : Later pane pane') : Accounted rounds pane' perPane where
  seqno_le := Nat.le_trans h.seqno_le hlater.seqno_le
  rows := by
    intro row hzero hpos hle
    have hsame := hlater.lastChanged_eq (Nat.le_trans hle h.seqno_le)
    rw [← hsame] at hpos hle ⊢
    exact h.rows row hzero hpos hle

theorem Accounted.reported {start : PaneView Line} {reads : PaneReads Line}
    {force : Option InputSerial} {response : Option (PaneRenderChanges Line)}
    {perPane' : PerPane} (h : Accounted rounds start perPane) (horder : reads.InOrder start)
    (hcompute : perPane.computeChanges compressForScrollback reads force =
      some (response, perPane')) {row : Int} (hzero : 0 ≤ row) (hpos : 0 < start.lastChanged row)
    (hbottom : row < reads.dimensions.dimensions.bottom) :
    Reported (rounds ++ [⟨perPane.seqno, start, reads, response⟩]) row (start.lastChanged row) := by
  by_cases hold : start.lastChanged row ≤ perPane.seqno
  · exact (h.rows row hzero hpos hold).append _
  · have hchanged := horder.start_changed.lastChanged_le row
    obtain ⟨changes, hresponse, hlists⟩ := lists_of_changed hcompute hzero hbottom (by omega)
    exact ⟨_, List.mem_append_right _ List.mem_cons_self, changes, hresponse, hlists, hchanged⟩

theorem Accounted.next {start : PaneView Line} {reads : PaneReads Line}
    {force : Option InputSerial} {response : Option (PaneRenderChanges Line)}
    {perPane' : PerPane} (h : Accounted rounds start perPane) (horder : reads.InOrder start)
    (hcompute : perPane.computeChanges compressForScrollback reads force =
      some (response, perPane')) (hsteady : Round.Steady ⟨perPane.seqno, start, reads, response⟩) :
    Accounted (rounds ++ [⟨perPane.seqno, start, reads, response⟩]) reads.cursorLine perPane' where
  seqno_le := by
    rw [computeChanges_seqno hcompute]
    exact horder.seqno_end.seqno_le
  rows := by
    intro row hzero hpos hle
    rw [computeChanges_seqno hcompute] at hle
    have hsame := horder.seqno_end.lastChanged_eq hle
    rw [← hsame] at hpos ⊢
    by_cases hold : reads.seqno.lastChanged row ≤ perPane.seqno
    · -- unchanged since the call before
      have hstart := horder.start_seqno.lastChanged_eq (Nat.le_trans hold h.seqno_le)
      rw [← hstart] at hpos hold ⊢
      exact (h.rows row hzero hpos hold).append _
    · have hchanged := horder.changed.lastChanged_le row
      have hbottom := hsteady row hzero (Nat.lt_of_not_le hold)
      obtain ⟨changes, hresponse, hlists⟩ := lists_of_changed hcompute hzero hbottom (by omega)
      exact ⟨_, List.mem_append_right _ List.mem_cons_self, changes, hresponse, hlists, hchanged⟩

/-- **A run of steady calls leaves no row behind.** -/
theorem accounted_of_steady (h : Rounds compressForScrollback first rounds pane perPane)
    (hsteady : ∀ round ∈ rounds, round.Steady) : Accounted rounds pane perPane := by
  induction h with
  | none =>
    exact
      { seqno_le := Nat.zero_le _
        rows := fun row _ hpos hle => absurd hpos (Nat.not_lt.mpr hle) }
  | @next rounds pane perPane perPane' start reads response serial _ hlater horder hcompute ih =>
    have hstart := (ih fun round hround =>
      hsteady round (List.mem_append_left _ hround)).later hlater
    have hround := hsteady _ (List.mem_append_right _ List.mem_cons_self)
    have htaken : Accounted rounds start { perPane with pendingInputSerial := none } :=
      ⟨hstart.seqno_le, hstart.rows⟩
    exact htaken.next horder hcompute hround

end Run

end Wakterm.MuxServer
