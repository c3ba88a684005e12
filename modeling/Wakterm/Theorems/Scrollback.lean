import Wakterm.Term.Logic.LogicalLines
import Wakterm.Term.Logic.Scrollback

/-!
# The scrollback only grows, and is pruned at its oldest end

For every run of operations that leaves the size of the screen as it is.
-/

namespace Wakterm.Theorems.Scrollback

open Wakterm.Term

/-- **The scrollback is append-only.** After any run on a primary screen a line that was above the
viewport is among the oldest, which are gone, or has its stable row still, above the viewport, with
its cells as they were. -/
theorem scrollback_append_only {graphemes : Graphemes} {s s' : Screen}
    {ops : List (Screen.RowOp × Nat)} (hprimary : s.allowScrollback = true)
    (hrun : s.rowRun graphemes ops = .ok s') :
    s.physToStableRowIndex 0 ≤ s'.physToStableRowIndex 0 ∧
    ∀ row line, s.lineAt row = some line → row < s.physToStableRowIndex s.viewportTop →
      row < s'.physToStableRowIndex 0 ∨
        (s'.lineAt row = some line ∧ row < s'.physToStableRowIndex s'.viewportTop) := by
  have hlog := (Screen.rowRun_goesOn hprimary hrun).log
  refine ⟨?_, ?_⟩
  · obtain ⟨gone, hfirst, -⟩ := hlog
    change s'.stableRowIndexOffset = s.stableRowIndexOffset + gone at hfirst
    unfold Screen.physToStableRowIndex
    omega
  · intro row line hline habove
    obtain ⟨i, -, hrow⟩ := Screen.lineAt_iff.mp hline
    obtain ⟨n, rfl⟩ : ∃ n : Nat, row = n := ⟨_, hrow⟩
    unfold Screen.physToStableRowIndex at habove ⊢
    have hentry : s.scrollback.entry n = some line := by
      rw [Screen.scrollback_entry, if_pos (by omega)]
      exact hline
    rcases hlog.entry hentry with hgone | hkept
    · left
      change n < s'.stableRowIndexOffset at hgone
      omega
    · right
      rw [Screen.scrollback_entry] at hkept
      split at hkept
      · exact ⟨hkept, by omega⟩
      · cases hkept

/-- Every character by itself. -/
def eachChar : Graphemes := ⟨fun text => text.map fun c => [c], fun _ => false⟩

def lineOf (c : Char) : Line := ⟨.V [.newGraphemeWithWidth [c] false .blank], 5, .none⟩

/-- Two rows, and a scrollback of two lines, which is full. -/
def fullScreen : Screen where
  lines := [lineOf 'w', lineOf 'x', lineOf 'y', lineOf 'z']
  stableRowIndexOffset := 0
  configuredScrollback := 2
  allowScrollback := true
  physicalRows := 2
  physicalCols := 4
  dpi := 96

/-- Both rows are written to, one scrolls off, and then the rows scroll down again. -/
def scrollBoth : List (Screen.RowOp × Nat) :=
  [(.setCell 0 1 .blank, 6), (.scrollUp ⟨0, 2⟩ 1 .blank ⟨false, .leftToRight⟩, 7),
    (.scrollDown ⟨0, 2⟩ 1 .blank ⟨false, .leftToRight⟩, 8)]

/-- The oldest line is gone, and the other one is where it was. -/
theorem scrollback_append_only_full : ∃ s', fullScreen.rowRun eachChar scrollBoth = .ok s' ∧
      s'.physToStableRowIndex 0 = 1 ∧ s'.lineAt 1 = some (lineOf 'x') := by
  refine ⟨_, rfl, rfl, ?_⟩
  have hrun : fullScreen.rowRun eachChar scrollBoth = .ok _ := rfl
  have hkept := (scrollback_append_only rfl hrun).2 1 (lineOf 'x') rfl (by decide)
  rcases hkept with hgone | ⟨hline, -⟩
  · exact absurd hgone (by decide)
  · exact hline

end Wakterm.Theorems.Scrollback

/-!
## Ranges of lines

The physical range of stable rows holds all of them that exist.
-/

namespace Wakterm.Theorems.StableRange

open Wakterm.Term

/-- What a translation of stable rows to physical ones is to be. -/
structure Translates (s : Screen) (range : Span Int) (phys : Span Nat) : Prop where
  inside : phys.start ≤ phys.stop ∧ phys.stop ≤ s.lines.length
  contains : ∀ i < s.lines.length, range.start ≤ s.physToStableRowIndex i →
    s.physToStableRowIndex i < range.stop → phys.start ≤ i ∧ i < phys.stop
  size : ((phys.stop - phys.start : Nat) : Int) ≤ range.stop - range.start
  below : s.physToStableRowIndex s.lines.length ≤ range.start → phys.stop = s.lines.length ∧
    phys.start = s.lines.length - (range.stop - range.start).toNat
  above : range.stop ≤ s.physToStableRowIndex 0 → phys.start = 0 ∧
    phys.stop = min (range.stop - range.start).toNat s.lines.length

/-- **The range is translated as documented** if and only if it begins above the first row, or ends
on the screen, or is as large as the screen. -/
theorem translates_iff {s : Screen} {range : Span Int} (hrange : range.start < range.stop) :
    Translates s range (s.stableRange range) ↔ (range.start < s.physToStableRowIndex 0 ∨
        range.stop ≤ s.physToStableRowIndex s.lines.length ∨
        (s.lines.length : Int) ≤ range.stop - range.start) := by
  have hlen := Screen.asUsize_of_nonneg (i := range.stop - range.start) (by omega)
  have hcontains : ∀ i < s.lines.length, range.start ≤ s.physToStableRowIndex i →
      s.physToStableRowIndex i < range.stop →
      (s.stableRange range).start ≤ i ∧ i < (s.stableRange range).stop :=
    fun i hi => Screen.stableRange_contains hi
  have hstop := s.stableRange_stop_le range
  rcases s.stableRow_cases range.start with hoff | hoff | ⟨a, ha, hfirst⟩
  · refine ⟨fun _ => .inl hoff, fun _ => ?_⟩
    rw [Screen.stableRange_off (.inl hoff), hlen] at hcontains hstop ⊢
    unfold Screen.physToStableRowIndex at *
    refine ⟨⟨Nat.zero_le _, hstop⟩, hcontains, ?_, ?_, fun _ => ⟨rfl, rfl⟩⟩
    · dsimp only
      omega
    · intro hbelow
      unfold Screen.physToStableRowIndex at hbelow
      omega
  · rw [Screen.stableRange_off (.inr hoff), hlen] at hcontains hstop ⊢
    constructor
    · intro h
      have hbelow := h.below hoff
      dsimp only at hbelow
      omega
    · intro hcond
      unfold Screen.physToStableRowIndex at *
      refine ⟨⟨Nat.zero_le _, hstop⟩, hcontains, ?_, ?_, fun _ => ⟨rfl, rfl⟩⟩
      · dsimp only
        omega
      · intro _
        dsimp only
        omega
  · rcases s.stableRow_cases (range.stop - 1) with hend | hend | ⟨b, hb, hlast⟩
    · unfold Screen.physToStableRowIndex at *
      omega
    · rw [Screen.stableRange_overhangs ha hfirst (.inr hend), hlen] at hcontains hstop ⊢
      unfold Screen.physToStableRowIndex at *
      constructor
      · intro h
        have hsize := h.size
        dsimp only at hsize
        omega
      · intro hcond
        refine ⟨⟨by dsimp only; omega, hstop⟩, hcontains, ?_, ?_, ?_⟩
        · dsimp only
          omega
        · intro hbelow
          unfold Screen.physToStableRowIndex at hbelow
          omega
        · intro habove
          unfold Screen.physToStableRowIndex at habove
          omega
    · rw [Screen.stableRange_within ha hb hfirst hlast] at hcontains hstop ⊢
      unfold Screen.physToStableRowIndex at *
      refine ⟨fun _ => .inr (.inl (by omega)), fun _ => ?_⟩
      refine ⟨⟨by dsimp only; omega, hstop⟩, hcontains, ?_, ?_, ?_⟩
      · dsimp only
        omega
      · intro hbelow
        unfold Screen.physToStableRowIndex at hbelow
        omega
      · intro habove
        unfold Screen.physToStableRowIndex at habove
        omega

def tenLines : Screen where
  lines := List.replicate 10 (.new 1)
  stableRowIndexOffset := 0
  configuredScrollback := 100
  allowScrollback := true
  physicalRows := 4
  physicalCols := 80
  dpi := 96

/-- A range on the screen is what it was. -/
theorem translates_on_screen : Translates tenLines ⟨2, 5⟩ (tenLines.stableRange ⟨2, 5⟩) :=
  (translates_iff (s := tenLines) (by decide)).mpr (.inr (.inl (by decide)))

/-- Four rows of which the last two do not exist come out as five, and two rows below the last one
as the two at the top. -/
theorem overhang_is_longer :
    tenLines.stableRange ⟨8, 12⟩ = ⟨5, 10⟩ ∧ tenLines.stableRange ⟨20, 22⟩ = ⟨0, 2⟩ ∧
      ¬ Translates tenLines ⟨8, 12⟩ (tenLines.stableRange ⟨8, 12⟩) ∧
      ¬ Translates tenLines ⟨20, 22⟩ (tenLines.stableRange ⟨20, 22⟩) := by
  refine ⟨by decide, by decide, ?_, ?_⟩
  · intro h
    exact absurd h.size (by decide)
  · intro h
    exact absurd (h.below (by decide)).1 (by decide)

end Wakterm.Theorems.StableRange

namespace Wakterm.Theorems.PhysLines

open Wakterm.Term

/-- The lines at the indices of a range that exist, in order, each with its place. -/
def meant (r : RingScreen) (range : Span Nat) : List (Line × Nat) := inRange r.screen.refs range

/-- **Both pass the lines of the range** if and only if the range has a length that a `Vec` can
have, and has no lines in the second slice, unless that is all there is. -/
theorem both_pass_iff (r : RingScreen) (range : Span Nat) :
    (r.withPhysLines range = .ok (meant r range) ∧ r.withPhysLinesMut range = .ok (meant r range)) ↔
    (range.start ≤ range.stop ∧ range.stop - range.start ≤ maxRefs) ∧
      (r.split = 0 ∨ min r.screen.lines.length range.stop ≤ max r.split range.start) := by
  unfold meant
  rw [RingScreen.withPhysLines_iff, withCapacity_ok]
  constructor
  · exact fun h => h.1
  · intro h
    exact ⟨h, RingScreen.withPhysLinesMut_eq (withCapacity_ok.mpr h.1)⟩

/-- A screen of four lines, the first of which is in the first slice. -/
def wrappedAround : RingScreen :=
  ⟨⟨[Scrollback.lineOf 'a', Scrollback.lineOf 'b', Scrollback.lineOf 'c', Scrollback.lineOf 'd'], 0,
    10, true, 4, 4, 96⟩, 1, by decide, by decide⟩

/-- Two lines of the second slice: the one that does not change them passes those behind, or is out
of range. -/
theorem second_slice_unshifted :
    meant wrappedAround ⟨1, 3⟩ = [(Scrollback.lineOf 'b', 1), (Scrollback.lineOf 'c', 2)] ∧
      wrappedAround.withPhysLinesMut ⟨1, 3⟩ = .ok (meant wrappedAround ⟨1, 3⟩) ∧
      wrappedAround.withPhysLines ⟨1, 3⟩ =
        .ok [(Scrollback.lineOf 'c', 2), (Scrollback.lineOf 'd', 3)] ∧
      wrappedAround.withPhysLines ⟨2, 4⟩ = .error .row := ⟨rfl, rfl, rfl, rfl⟩

end Wakterm.Theorems.PhysLines

/-!
## Logical lines

The logical lines that are passed for a range of stable rows follow each other without a gap, and
hold all rows of the range that exist.
-/

namespace Wakterm.Theorems.LogicalLines

open Wakterm.Term

/-- What the logical lines are to be that are passed for a range. -/
structure Partitions (graphemes : Graphemes) (s : Screen) (range : Span Int)
    (passed : List LogicalLine) : Prop where
  consecutive : passed.IsChain fun l next => next.rows.start = l.rows.stop
  rows : ∀ l ∈ passed, ∃ first behind, first < behind ∧ behind ≤ s.lines.length ∧
    l.rows = ⟨s.physToStableRowIndex first, s.physToStableRowIndex behind⟩ ∧
    l.lines = (s.lines.take behind).drop first
  covers : ∀ row line, s.lineAt row = some line → range.start ≤ row → row < range.stop →
    ∃ l ∈ passed, l.rows.start ≤ row ∧ row < l.rows.stop
  wrapped : ∀ l ∈ passed, ∀ line ∈ l.lines.dropLast, line.lastCellWasWrapped graphemes = true
  ends : ∀ l ∈ passed, LogicalEnd graphemes l.lines (s.lineAt l.rows.stop)

/-- **The rows are partitioned.** There are logical lines, a partition of the rows, that every
callback is given one after the other as long as it returns true, and that a callback which changes
the lines that it is given is given as well. -/
theorem logical_lines_partition (graphemes : Graphemes) (r : RingScreen) (range : Span Int) :
    ∃ passed, Partitions graphemes r.screen range passed ∧
      (∀ {τ : Type} (f : τ → Span Int → List Line → Bool × τ) (t : τ),
        r.screen.forEachLogicalLine graphemes range f t = .ok (feed f t passed)) ∧
      ∀ {τ : Type} (f : τ → Span Int → List Line → Bool × τ × (Nat → Line → Line)) (t : τ),
        ∃ r', r.forEachLogicalLineMut graphemes range f t =
          .ok (r', feed (observed f) t passed) := by
  obtain ⟨first, hback, hfirst⟩ := Screen.searchBack_ok graphemes
    (r.screen.stableRange_start_le range) 0
  let stop := (r.screen.stableRange range).stop
  refine ⟨r.screen.logicalLinesFrom graphemes range stop stop first, ⟨?_, ?_, ?_, ?_, ?_⟩, ?_, ?_⟩
  · exact Screen.logicalLinesFrom_chain.1
  · intro l hl
    obtain ⟨row, -, hbegins⟩ := Screen.beginsAt_of_mem hl
    have hfit := logicalRows_fits graphemes row (Nat.le_of_lt hbegins.inside)
    rw [← hbegins.lines] at hfit
    refine ⟨row, row + l.lines.length, ?_, hfit, hbegins.rows, ?_⟩
    · have hpos := hbegins.length_pos
      omega
    · have hrows := inRange_logicalRows graphemes row r.screen.lines
      rw [← hbegins.lines] at hrows
      exact hrows.symm
  · intro row line hline hstart hstop
    obtain ⟨i, hi, rfl⟩ := Screen.lineAt_iff.mp hline
    obtain ⟨hphys, hphys'⟩ := Screen.stableRange_contains hi.lt hstart hstop
    exact Screen.logicalLinesFrom_covers (Nat.le_add_left _ _) (Nat.le_trans hfirst hphys) hphys'
      hi.lt hstart hstop
  · intro l hl line hline
    obtain ⟨row, -, hbegins⟩ := Screen.beginsAt_of_mem hl
    rw [hbegins.lines] at hline
    exact logicalRows_wrapped hline
  · intro l hl
    obtain ⟨row, -, hbegins⟩ := Screen.beginsAt_of_mem hl
    exact hbegins.ends
  · intro τ f t
    unfold Screen.forEachLogicalLine
    dsimp only
    rw [hback]
    exact congrArg Except.ok (r.screen.forEachFrom_eq range stop f stop first t)
  · intro τ f t
    unfold RingScreen.forEachLogicalLineMut
    dsimp only
    rw [hback]
    exact RingScreen.forEachMutFrom_eq range stop f stop t ⟨rfl, rfl, rfl⟩

/-- A line that goes on in the next one. -/
def wrappedLine : Line :=
  ⟨.V [.newGraphemeWithWidth ['a'] false (CellAttributes.blank.setWrapped true)], 5, .none⟩

/-- A screen of one row, which is wrapped. -/
def oneRow : Screen := ⟨[wrappedLine], 0, 10, true, 1, 1, 96⟩

/-- The last row ends its logical line, wrapped as it is, and far from the limit. -/
theorem last_row_wrapped : (oneRow.forEachLogicalLine Scrollback.eachChar ⟨0, 1⟩
      (fun passed rows lines => (true, passed ++ [(rows, lines)])) [] =
        .ok [(⟨0, 1⟩, [wrappedLine])]) ∧ wrappedLine.lastCellWasWrapped Scrollback.eachChar = true ∧
      wrappedLine.len ≤ maxLogicalLineLen := by
  refine ⟨rfl, rfl, by decide⟩

end Wakterm.Theorems.LogicalLines
