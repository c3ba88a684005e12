import Mathlib.Data.List.Chain
import Wakterm.Term.Logic.Damage
import Wakterm.Term.LogicalLines

/-!
# What the ranges of lines hold

A range of stable rows is turned into a physical one that holds all its rows that exist.
-/

namespace Wakterm.Term

open Wakterm.Machine

/-! ## Stable ranges -/

namespace Screen

section StableRange

variable {s : Screen} {range : Span Int} {row : Int}

theorem asUsize_of_nonneg {i : Int} (hi : 0 ≤ i) : asUsize i = i.toNat := if_neg (Int.not_lt.mpr hi)

theorem stableRowToPhys_none (h : row < s.physToStableRowIndex 0 ∨
    s.physToStableRowIndex s.lines.length ≤ row) : s.stableRowToPhys row = none := by
  unfold physToStableRowIndex at h
  unfold stableRowToPhys
  exact if_pos (by omega)

theorem stableRowToPhys_some {i : Nat} (hi : i < s.lines.length)
    (hrow : row = s.physToStableRowIndex i) : s.stableRowToPhys row = some i := by
  unfold physToStableRowIndex at hrow
  unfold stableRowToPhys
  dsimp only
  rw [if_neg (by omega)]
  congr 1
  omega

theorem stableRow_cases (s : Screen) (row : Int) :
    row < s.physToStableRowIndex 0 ∨ s.physToStableRowIndex s.lines.length ≤ row ∨
      ∃ i, i < s.lines.length ∧ row = s.physToStableRowIndex i := by
  unfold physToStableRowIndex
  by_cases htop : row < ((0 + s.stableRowIndexOffset : Nat) : Int)
  · exact .inl htop
  · by_cases hbottom : ((s.lines.length + s.stableRowIndexOffset : Nat) : Int) ≤ row
    · exact .inr (.inl hbottom)
    · refine .inr (.inr ⟨(row - s.stableRowIndexOffset).toNat, ?_, ?_⟩)
      · omega
      · omega

theorem lineAt_physToStableRowIndex (s : Screen) (i : Nat) :
    s.lineAt (s.physToStableRowIndex i) = s.lines[i]? := by
  unfold lineAt
  by_cases hi : i < s.lines.length
  · rw [stableRowToPhys_some hi rfl]
    rfl
  · rw [stableRowToPhys_none (.inr (by unfold physToStableRowIndex; omega)),
      List.getElem?_eq_none (Nat.not_lt.mp hi)]
    rfl

theorem stableRange_off (h : range.start < s.physToStableRowIndex 0 ∨
    s.physToStableRowIndex s.lines.length ≤ range.start) :
    s.stableRange range = ⟨0, min (asUsize (range.stop - range.start)) s.lines.length⟩ := by
  unfold stableRange
  rw [stableRowToPhys_none h]

theorem stableRange_overhangs {i : Nat} (hi : i < s.lines.length)
    (hstart : range.start = s.physToStableRowIndex i)
    (hstop : range.stop - 1 < s.physToStableRowIndex 0 ∨
      s.physToStableRowIndex s.lines.length ≤ range.stop - 1) : s.stableRange range =
      ⟨s.lines.length - 1 - asUsize (range.stop - range.start), s.lines.length - 1 + 1⟩ := by
  unfold stableRange
  rw [stableRowToPhys_some hi hstart, stableRowToPhys_none hstop]

theorem stableRange_within {i j : Nat} (hi : i < s.lines.length) (hj : j < s.lines.length)
    (hstart : range.start = s.physToStableRowIndex i)
    (hstop : range.stop - 1 = s.physToStableRowIndex j) : s.stableRange range = ⟨i, j + 1⟩ := by
  unfold stableRange
  rw [stableRowToPhys_some hi hstart, stableRowToPhys_some hj hstop]

theorem stableRange_contains {i : Nat} (hi : i < s.lines.length)
    (hstart : range.start ≤ s.physToStableRowIndex i)
    (hstop : s.physToStableRowIndex i < range.stop) :
    (s.stableRange range).start ≤ i ∧ i < (s.stableRange range).stop := by
  have hlen := asUsize_of_nonneg (i := range.stop - range.start) (by omega)
  rcases s.stableRow_cases range.start with hoff | hoff | ⟨a, ha, hfirst⟩
  · rw [stableRange_off (.inl hoff), hlen]
    unfold physToStableRowIndex at *
    dsimp only
    omega
  · unfold physToStableRowIndex at *
    omega
  · rcases s.stableRow_cases (range.stop - 1) with hoff | hoff | ⟨b, hb, hlast⟩
    · unfold physToStableRowIndex at *
      omega
    · rw [stableRange_overhangs ha hfirst (.inr hoff), hlen]
      unfold physToStableRowIndex at *
      dsimp only
      omega
    · rw [stableRange_within ha hb hfirst hlast]
      unfold physToStableRowIndex at *
      dsimp only
      omega

theorem stableRange_start_le (s : Screen) (range : Span Int) :
    (s.stableRange range).start ≤ s.lines.length := by
  rcases s.stableRow_cases range.start with hoff | hoff | ⟨a, ha, hfirst⟩
  · rw [stableRange_off (.inl hoff)]
    exact Nat.zero_le _
  · rw [stableRange_off (.inr hoff)]
    exact Nat.zero_le _
  · rcases s.stableRow_cases (range.stop - 1) with hoff | hoff | ⟨b, hb, hlast⟩
    · rw [stableRange_overhangs ha hfirst (.inl hoff)]
      exact Nat.le_trans (Nat.sub_le _ _) (Nat.sub_le _ _)
    · rw [stableRange_overhangs ha hfirst (.inr hoff)]
      exact Nat.le_trans (Nat.sub_le _ _) (Nat.sub_le _ _)
    · rw [stableRange_within ha hb hfirst hlast]
      exact Nat.le_of_lt ha

theorem stableRange_stop_le (s : Screen) (range : Span Int) :
    (s.stableRange range).stop ≤ s.lines.length := by
  rcases s.stableRow_cases range.start with hoff | hoff | ⟨a, ha, hfirst⟩
  · rw [stableRange_off (.inl hoff)]
    exact Nat.min_le_right _ _
  · rw [stableRange_off (.inr hoff)]
    exact Nat.min_le_right _ _
  · rcases s.stableRow_cases (range.stop - 1) with hoff | hoff | ⟨b, hb, hlast⟩
    · rw [stableRange_overhangs ha hfirst (.inl hoff)]
      exact Nat.sub_add_cancel (Nat.one_le_of_lt ha) ▸ Nat.le_refl _
    · rw [stableRange_overhangs ha hfirst (.inr hoff)]
      exact Nat.sub_add_cancel (Nat.one_le_of_lt ha) ▸ Nat.le_refl _
    · rw [stableRange_within ha hb hfirst hlast]
      exact hb

end StableRange

end Screen

/-! ## The slices of the ring buffer -/

/-- The elements at the indices of the range that exist. -/
def inRange {α : Type} (xs : List α) (range : Span Nat) : List α :=
  (xs.take range.stop).drop range.start

section Slices

variable {α : Type} {xs ys : List α} {range : Span Nat}

theorem inRange_empty (h : range.stop ≤ range.start ∨ xs.length ≤ range.start) :
    inRange xs range = [] := by
  unfold inRange
  refine List.drop_eq_nil_of_le ?_
  rw [List.length_take]
  omega

theorem inRange_append (xs ys : List α) (range : Span Nat) : inRange (xs ++ ys) range =
      inRange xs range ++ inRange ys ⟨range.start - xs.length, range.stop - xs.length⟩ := by
  by_cases hstop : range.stop ≤ xs.length
  · have hempty : inRange ys ⟨range.start - xs.length, range.stop - xs.length⟩ = [] :=
      inRange_empty (.inl (by dsimp only; omega))
    rw [hempty, List.append_nil]
    unfold inRange
    rw [List.take_append_of_le_length hstop]
  · unfold inRange
    dsimp only
    rw [List.take_append, List.drop_append, List.take_of_length_le (by omega)]

theorem slice_ok (hle : range.start ≤ range.stop) (hfit : range.stop ≤ xs.length) :
    slice xs range = .ok (inRange xs range) := if_neg (by omega)

theorem slice_first (xs : List α) (range : Span Nat) :
    slice xs (physIntersection ⟨0, xs.length⟩ range) = .ok (inRange xs range) := by
  unfold physIntersection
  dsimp only
  rw [Nat.zero_max]
  by_cases hlt : range.start < min xs.length range.stop
  · rw [if_pos hlt, slice_ok (Nat.le_of_lt hlt) (Nat.min_le_left _ _)]
    unfold inRange
    dsimp only
    rw [Nat.min_comm, ← List.take_eq_take_min]
  · rw [if_neg hlt, slice_ok (Nat.le_refl 0) (Nat.zero_le _), inRange_empty (.inl (Nat.le_refl 0)),
      inRange_empty (by omega)]

theorem slice_second (n : Nat) (ys : List α) (range : Span Nat) :
    slice ys ⟨(physIntersection ⟨n, n + ys.length⟩ range).start - n,
        (physIntersection ⟨n, n + ys.length⟩ range).stop - n⟩ =
      .ok (inRange ys ⟨range.start - n, range.stop - n⟩) := by
  unfold physIntersection
  dsimp only
  by_cases hlt : max n range.start < min (n + ys.length) range.stop
  · rw [if_pos hlt]
    dsimp only
    rw [slice_ok (by dsimp only; omega) (by dsimp only; omega)]
    unfold inRange
    dsimp only
    have hstart : max n range.start - n = range.start - n := by omega
    have hstop : min (n + ys.length) range.stop - n = min (range.stop - n) ys.length := by omega
    rw [hstart, hstop, ← List.take_eq_take_min]
  · rw [if_neg hlt]
    dsimp only
    rw [slice_ok (Nat.le_refl _) (by dsimp only; omega), inRange_empty (.inl (Nat.le_refl _)),
      inRange_empty (by dsimp only; omega)]

theorem withCapacity_ok : withCapacity range = .ok () ↔
    range.start ≤ range.stop ∧ range.stop - range.start ≤ maxRefs := by
  unfold withCapacity
  split
  · next h =>
    constructor
    · intro h
      cases h
    · intro h'
      omega
  · next h => exact ⟨fun _ => by omega, fun _ => rfl⟩

end Slices

namespace RingScreen

variable {r : RingScreen} {range : Span Nat}

theorem length_first (r : RingScreen) : (r.screen.refs.take r.split).length = r.split := by
  rw [List.length_take, Screen.refs, List.length_zipIdx, Nat.min_eq_left r.split_le]

theorem inRange_refs (r : RingScreen) (range : Span Nat) :
    inRange r.screen.refs range = inRange (r.screen.refs.take r.split) range ++
      inRange (r.screen.refs.drop r.split) ⟨range.start - r.split, range.stop - r.split⟩ := by
  have happend := inRange_append (r.screen.refs.take r.split) (r.screen.refs.drop r.split) range
  rw [List.take_append_drop, length_first] at happend
  exact happend

theorem withPhysLinesMut_eq (hcap : withCapacity range = .ok ()) :
    r.withPhysLinesMut range = .ok (inRange r.screen.refs range) := by
  unfold withPhysLinesMut
  dsimp only
  rw [hcap, slice_first, slice_second, length_first, inRange_refs]
  rfl

theorem getElem?_inRange {xs : List (Line × Nat)} {a b i : Nat} (hi : a + i < b) :
    (inRange xs ⟨a, b⟩)[i]? = xs[a + i]? := by
  unfold inRange
  rw [List.getElem?_drop, List.getElem?_take, if_pos hi]

theorem place_of_ref {i : Nat} {ref : Line × Nat} (h : r.screen.refs[i]? = some ref) : ref.2 = i := by
  rw [Screen.refs, List.getElem?_zipIdx, Option.map_eq_some_iff] at h
  obtain ⟨line, -, rfl⟩ := h
  exact Nat.zero_add i

theorem slice_second_unshifted {more : List (Line × Nat)}
    (h : slice (r.screen.refs.drop r.split) (physIntersection
      ⟨r.split, r.split + (r.screen.refs.drop r.split).length⟩ range) = .ok more)
    (hmore : more = inRange (r.screen.refs.drop r.split)
      ⟨range.start - r.split, range.stop - r.split⟩) :
    r.split = 0 ∨ min r.screen.lines.length range.stop ≤ max r.split range.start := by
  have hlen : r.split + (r.screen.refs.drop r.split).length = r.screen.lines.length := by
    rw [List.length_drop, Screen.refs, List.length_zipIdx, Nat.add_sub_of_le r.split_le]
  rw [hlen] at h
  by_cases hempty : min r.screen.lines.length range.stop ≤ max r.split range.start
  · exact .inr hempty
  · left
    unfold physIntersection at h
    dsimp only at h
    rw [if_pos (Nat.not_le.mp hempty)] at h
    unfold slice at h
    split at h
    · cases h
    · next hfit =>
      dsimp only at hfit
      -- the first line that is passed, and the one that is meant
      have hpassed : more[0]? =
          r.screen.refs[r.split + (max r.split range.start + 0)]? := by
        rw [← Except.ok.inj h, ← List.getElem?_drop]
        exact getElem?_inRange (by omega)
      have hmeant : more[0]? =
          r.screen.refs[r.split + (range.start - r.split + 0)]? := by
        rw [hmore, getElem?_inRange (by omega), List.getElem?_drop]
      obtain ⟨ref, href⟩ : ∃ ref, more[0]? = some ref := by
        rw [hmeant]
        refine ⟨_, List.getElem?_eq_getElem ?_⟩
        rw [Screen.refs, List.length_zipIdx]
        omega
      have hplace := place_of_ref (hpassed.symm.trans href)
      have hplace' := place_of_ref (hmeant.symm.trans href)
      omega

/-- **What is passed without leave to change it.** -/
theorem withPhysLines_iff : r.withPhysLines range = .ok (inRange r.screen.refs range) ↔
    withCapacity range = .ok () ∧
      (r.split = 0 ∨ min r.screen.lines.length range.stop ≤ max r.split range.start) := by
  have hunfold : r.withPhysLines range = withCapacity range >>= fun _ =>
      (slice (r.screen.refs.drop r.split) (physIntersection
        ⟨r.split, r.split + (r.screen.refs.drop r.split).length⟩ range)).map fun more =>
          inRange (r.screen.refs.take r.split) range ++ more := by
    unfold withPhysLines
    dsimp only
    rw [slice_first, length_first]
    rfl
  rw [hunfold]
  constructor
  · intro h
    obtain ⟨_, hcap, h⟩ := bind_eq_ok.mp h
    obtain ⟨more, hslice, happend⟩ := map_eq_ok.mp h
    rw [inRange_refs] at happend
    exact ⟨hcap, slice_second_unshifted hslice (List.append_cancel_left happend)⟩
  · rintro ⟨hcap, hsplit⟩
    refine bind_eq_ok.mpr ⟨(), hcap, map_eq_ok.mpr ⟨_, ?_, (inRange_refs r range).symm⟩⟩
    rcases hsplit with hzero | hempty
    · have hsecond := slice_second r.split (r.screen.refs.drop r.split) range
      rw [hzero] at hsecond ⊢
      exact hsecond
    · have hlen : r.split + (r.screen.refs.drop r.split).length = r.screen.lines.length := by
        rw [List.length_drop, Screen.refs, List.length_zipIdx, Nat.add_sub_of_le r.split_le]
      rw [hlen, inRange_empty (by dsimp only; omega)]
      unfold physIntersection
      dsimp only
      rw [if_neg (Nat.not_lt.mpr hempty), slice_ok (Nat.le_refl 0) (Nat.zero_le _),
        inRange_empty (.inl (Nat.le_refl 0))]

end RingScreen

/-! ## One logical line -/

section Logical

variable (graphemes : Graphemes)

/-- The rows of the logical line at the front, after so many columns of it. -/
def logicalRows : Nat → List Line → List Line
  | _, [] => []
  | totalLen, line :: lines =>
    if 0 < totalLen ∧ maxLogicalLineLen < totalLen + line.len then []
    else if !line.lastCellWasWrapped graphemes then [line]
    else line :: logicalRows (totalLen + line.len) lines

variable {graphemes}

theorem measureForward_eq (endInclusive totalLen : Nat) (lines : List Line) :
    measureForward graphemes (endInclusive + 1) totalLen endInclusive lines =
      endInclusive + (logicalRows graphemes totalLen lines).length := by
  induction lines generalizing endInclusive totalLen with
  | nil => rfl
  | cons line lines ih =>
    rw [measureForward, logicalRows]
    split
    · rfl
    · split
      · rfl
      · rw [ih, List.length_cons]
        omega

theorem collectForward_eq (idx totalLen endInclusive : Nat) (lineVec lines : List Line) :
    collectForward graphemes idx totalLen endInclusive lineVec lines =
      (measureForward graphemes idx totalLen endInclusive lines,
        lineVec ++ logicalRows graphemes totalLen lines) := by
  induction lines generalizing idx totalLen endInclusive lineVec with
  | nil => rw [collectForward, measureForward, logicalRows, List.append_nil]
  | cons line lines ih =>
    rw [collectForward, measureForward, logicalRows]
    split
    · rw [List.append_nil]
    · split
      · rfl
      · rw [ih, List.append_assoc]
        rfl

theorem measureForward_start (physRow : Nat) (line : Line) (lines : List Line) :
    measureForward graphemes physRow 0 physRow (line :: lines) + 1 =
      physRow + (logicalRows graphemes 0 (line :: lines)).length := by
  simp only [measureForward, logicalRows, Nat.lt_irrefl, false_and, if_false]
  split
  · rfl
  · rw [measureForward_eq, List.length_cons]
    omega

theorem logicalRows_pos (line : Line) (lines : List Line) :
    0 < (logicalRows graphemes 0 (line :: lines)).length := by
  rw [logicalRows, if_neg (by omega)]
  split
  · exact Nat.zero_lt_one
  · exact Nat.zero_lt_succ _

theorem logicalRows_isPrefix (graphemes : Graphemes) (totalLen : Nat) (lines : List Line) :
    logicalRows graphemes totalLen lines <+: lines := by
  induction lines generalizing totalLen with
  | nil => exact List.prefix_rfl
  | cons line lines ih =>
    rw [logicalRows]
    split
    · exact List.nil_prefix
    · split
      · exact ⟨lines, rfl⟩
      · exact List.cons_prefix_cons.mpr ⟨rfl, ih _⟩

theorem logicalRows_wrapped {totalLen : Nat} {lines : List Line} {line : Line}
    (h : line ∈ (logicalRows graphemes totalLen lines).dropLast) :
    line.lastCellWasWrapped graphemes = true := by
  induction lines generalizing totalLen with
  | nil => cases h
  | cons first lines ih =>
    rw [logicalRows] at h
    split at h
    · cases h
    · split at h
      · cases h
      · next hwrapped =>
        cases hrest : logicalRows graphemes (totalLen + first.len) lines with
        | nil =>
          rw [hrest] at h
          cases h
        | cons second rest =>
          rw [hrest, List.dropLast_cons_of_ne_nil (List.cons_ne_nil _ _)] at h
          rcases List.mem_cons.mp h with rfl | h
          · simpa using hwrapped
          · exact ih (hrest ▸ h)

/-- How a logical line ends: with a row that is not wrapped, where the next row would make it too
long, or where there are no more rows. -/
inductive LogicalEnd (graphemes : Graphemes) (lines : List Line) : Option Line → Prop
  | unwrapped {next : Option Line} {last : Line} (hlast : lines.getLast? = some last)
      (h : last.lastCellWasWrapped graphemes = false) : LogicalEnd graphemes lines next
  | tooLong {next : Line} (hpos : 0 < (lines.map Line.len).sum)
      (h : maxLogicalLineLen < (lines.map Line.len).sum + next.len) :
      LogicalEnd graphemes lines (some next)
  | noMoreRows : LogicalEnd graphemes lines none

/-- By induction on the rows, with those of the logical line before them. -/
theorem logicalRows_end (graphemes : Graphemes) (before lines : List Line) :
    LogicalEnd graphemes (before ++ logicalRows graphemes (before.map Line.len).sum lines)
      lines[(logicalRows graphemes (before.map Line.len).sum lines).length]? := by
  induction lines generalizing before with
  | nil => exact .noMoreRows
  | cons first lines ih =>
    rw [logicalRows]
    split
    · next hlong =>
      rw [List.append_nil]
      exact .tooLong hlong.1 hlong.2
    · split
      · next hend =>
        refine .unwrapped List.getLast?_concat ?_
        simpa using hend
      · have hrest := ih (before ++ [first])
        have hsum : ((before ++ [first]).map Line.len).sum =
            (before.map Line.len).sum + first.len := by simp
        rw [hsum, List.append_assoc] at hrest
        exact hrest

/-! ## The loops -/

/-- A logical line as it is passed on: its stable rows, and the lines. -/
structure LogicalLine where
  rows : Span Int
  lines : List Line

variable {τ : Type}

/-- What becomes of the callback's state that is given one logical line after the other, until it
says that the loop is not to go on. -/
def feed (f : τ → Span Int → List Line → Bool × τ) : τ → List LogicalLine → τ
  | t, [] => t
  | t, line :: rest =>
    if (f t line.rows line.lines).1 then feed f (f t line.rows line.lines).2 rest
    else (f t line.rows line.lines).2

variable {f : τ → Span Int → List Line → Bool × τ}

theorem feed_goesOn {t : τ} {l : LogicalLine} {rest : List LogicalLine}
    (h : (f t l.rows l.lines).1 = true) :
    feed f t (l :: rest) = feed f (f t l.rows l.lines).2 rest := if_pos h

theorem feed_stops {t : τ} {l : LogicalLine} {rest : List LogicalLine}
    (h : ¬ (f t l.rows l.lines).1 = true) :
    feed f t (l :: rest) = (f t l.rows l.lines).2 := if_neg h

/-- The callback as far as it looks at the lines. -/
def observed (f : τ → Span Int → List Line → Bool × τ × (Nat → Line → Line)) (t : τ)
    (rows : Span Int) (lines : List Line) : Bool × τ :=
  ((f t rows lines).1, (f t rows lines).2.1)

variable (graphemes)

def Screen.logicalLinesFrom (s : Screen) (stableRange : Span Int) (stop : Nat) :
    Nat → Nat → List LogicalLine
  | 0, _ => []
  | rounds + 1, physRow =>
    if physRow < stop ∧ physRow < s.lines.length then
      let lines := logicalRows graphemes 0 (s.lines.drop physRow)
      let next := physRow + lines.length
      let rows : Span Int := ⟨s.physToStableRowIndex physRow, s.physToStableRowIndex next⟩
      if rows.stop < stableRange.start then s.logicalLinesFrom stableRange stop rounds next
      else if stableRange.stop < rows.start then []
      else ⟨rows, lines⟩ :: s.logicalLinesFrom stableRange stop rounds next
    else []

variable {graphemes}

theorem Screen.forEachFrom_eq (s : Screen) (stableRange : Span Int) (stop : Nat)
    (f : τ → Span Int → List Line → Bool × τ) (rounds physRow : Nat) (t : τ) :
    s.forEachFrom graphemes stableRange stop f rounds physRow t =
      feed f t (s.logicalLinesFrom graphemes stableRange stop rounds physRow) := by
  induction rounds generalizing physRow t with
  | zero => rfl
  | succ rounds ih =>
    rw [forEachFrom, logicalLinesFrom]
    by_cases hstop : physRow < stop
    · rw [if_pos hstop]
      cases hdrop : s.lines.drop physRow with
      | nil =>
        have hlen := List.drop_eq_nil_iff.mp hdrop
        rw [if_neg (by omega)]
        rfl
      | cons line lines =>
        have hlen : physRow < s.lines.length := by
          by_contra hnot
          rw [List.drop_eq_nil_of_le (Nat.not_lt.mp hnot)] at hdrop
          cases hdrop
        rw [if_pos ⟨hstop, hlen⟩]
        dsimp only
        rw [collectForward_eq, measureForward_start, List.nil_append]
        dsimp only
        split
        · exact ih _ _
        · split
          · rfl
          · rw [feed, ih]
    · rw [if_neg hstop, if_neg (by omega)]
      rfl

section Changes

variable {s : Screen} {r : RingScreen} {physRow next : Nat}

/-- From the row on, the screen is as it was at the outset. -/
structure Ahead (s : Screen) (r : RingScreen) (physRow : Nat) : Prop where
  drop : r.screen.lines.drop physRow = s.lines.drop physRow
  length : r.screen.lines.length = s.lines.length
  offset : r.screen.stableRowIndexOffset = s.stableRowIndexOffset

theorem Ahead.later (h : Ahead s r physRow) (hle : physRow ≤ next) : Ahead s r next := by
  refine ⟨?_, h.length, h.offset⟩
  obtain ⟨n, rfl⟩ := Nat.exists_eq_add_of_le hle
  rw [← List.drop_drop, h.drop, List.drop_drop]

theorem map_inRange_refs (s : Screen) (range : Span Nat) :
    (inRange s.refs range).map Prod.fst = inRange s.lines range := by
  unfold inRange Screen.refs
  rw [List.map_drop, List.map_take, List.zipIdx_map_fst]

theorem Ahead.putBack (h : Ahead s r next) (edit : Nat → Line → Line) :
    Ahead s (r.putBack edit (inRange r.screen.refs ⟨physRow, next⟩)) next := by
  refine ⟨?_, ?_, h.offset⟩
  · rw [← h.drop]
    refine List.ext_getElem? fun i => ?_
    rw [List.getElem?_drop, List.getElem?_drop]
    show (List.mapIdx _ _)[next + i]? = _
    rw [List.getElem?_mapIdx]
    have hnone : ((inRange r.screen.refs ⟨physRow, next⟩).findIdx? fun ref =>
        decide (ref.2 = next + i)) = none := by
      refine List.findIdx?_eq_none_iff.mpr fun ref href => ?_
      obtain ⟨j, hj⟩ := List.mem_iff_getElem?.mp (List.mem_of_mem_drop href)
      rw [List.getElem?_take] at hj
      split at hj
      · next hlt =>
        dsimp only at hlt
        have hplace := RingScreen.place_of_ref hj
        exact decide_eq_false (by omega)
      · cases hj
    rw [hnone]
    cases r.screen.lines[next + i]? with
    | none => rfl
    | some line => rfl
  · show (List.mapIdx _ _).length = _
    rw [List.length_mapIdx, h.length]

theorem inRange_logicalRows (graphemes : Graphemes) (physRow : Nat) (lines : List Line) :
    inRange lines ⟨physRow, physRow + (logicalRows graphemes 0 (lines.drop physRow)).length⟩ =
      logicalRows graphemes 0 (lines.drop physRow) := by
  unfold inRange
  dsimp only
  rw [List.drop_take, Nat.add_sub_cancel_left]
  exact (List.prefix_iff_eq_take.mp (logicalRows_isPrefix graphemes 0 _)).symm

theorem logicalRows_fits (graphemes : Graphemes) (physRow : Nat)
    (hlen : physRow ≤ s.lines.length) :
    physRow + (logicalRows graphemes 0 (s.lines.drop physRow)).length ≤ s.lines.length := by
  have hle := (logicalRows_isPrefix graphemes 0 (s.lines.drop physRow)).length_le
  rw [List.length_drop] at hle
  omega

/-- **The loop that may change the lines** passes the same logical lines: it has not yet come to
what it reads. -/
theorem RingScreen.forEachMutFrom_eq (stableRange : Span Int) (stop : Nat)
    (f : τ → Span Int → List Line → Bool × τ × (Nat → Line → Line)) (rounds : Nat) (t : τ)
    (h : Ahead s r physRow) : ∃ r', forEachMutFrom graphemes stableRange stop f rounds physRow r t =
      .ok (r', feed (observed f) t
        (s.logicalLinesFrom graphemes stableRange stop rounds physRow)) := by
  induction rounds generalizing physRow r t with
  | zero => exact ⟨r, rfl⟩
  | succ rounds ih =>
    rw [forEachMutFrom, Screen.logicalLinesFrom]
    by_cases hstop : physRow < stop
    · rw [if_pos hstop, h.drop]
      cases hdrop : s.lines.drop physRow with
      | nil =>
        have hlen := List.drop_eq_nil_iff.mp hdrop
        rw [if_neg (by omega)]
        exact ⟨r, rfl⟩
      | cons line lines =>
        have hlen : physRow < s.lines.length := by
          by_contra hnot
          rw [List.drop_eq_nil_of_le (Nat.not_lt.mp hnot)] at hdrop
          cases hdrop
        have hstable : ∀ i, r.screen.physToStableRowIndex i = s.physToStableRowIndex i := by
          intro i
          unfold Screen.physToStableRowIndex
          rw [h.offset]
        rw [if_pos ⟨hstop, hlen⟩]
        dsimp only
        rw [measureForward_start, hstable, hstable, ← hdrop]
        have hnext := h.later (Nat.le_add_right physRow
          (logicalRows graphemes 0 (s.lines.drop physRow)).length)
        have hfit := logicalRows_fits graphemes physRow (Nat.le_of_lt hlen)
        split
        · exact ih t hnext
        · split
          · exact ⟨r, rfl⟩
          · have hcap : withCapacity ⟨physRow, physRow +
                (logicalRows graphemes 0 (s.lines.drop physRow)).length⟩ = .ok () := by
              refine withCapacity_ok.mpr ⟨Nat.le_add_right _ _, ?_⟩
              have := r.fits
              have := h.length
              dsimp only
              omega
            have hlines : (inRange r.screen.refs ⟨physRow, physRow +
                (logicalRows graphemes 0 (s.lines.drop physRow)).length⟩).map Prod.fst =
                logicalRows graphemes 0 (s.lines.drop physRow) := by
              rw [map_inRange_refs, ← h.drop]
              exact inRange_logicalRows graphemes physRow r.screen.lines
            rw [withPhysLinesMut_eq hcap]
            dsimp only [bind, Except.bind]
            rw [hlines]
            split
            · next hgo =>
              rw [feed_goesOn (f := observed f) (t := t) (l := ⟨_, _⟩) hgo]
              exact ih _ (hnext.putBack _)
            · next hgo =>
              rw [feed_stops (f := observed f) (t := t) (l := ⟨_, _⟩) hgo]
              exact ⟨_, rfl⟩
    · rw [if_neg hstop, if_neg (by omega)]
      exact ⟨r, rfl⟩

end Changes

section Passed

variable {s : Screen} {stableRange : Span Int} {stop rounds physRow : Nat} {l : LogicalLine}

/-- The logical line that begins at a row of the screen. -/
structure LogicalLine.BeginsAt (graphemes : Graphemes) (s : Screen) (l : LogicalLine)
    (physRow : Nat) : Prop where
  inside : physRow < s.lines.length
  lines : l.lines = logicalRows graphemes 0 (s.lines.drop physRow)
  rows : l.rows = ⟨s.physToStableRowIndex physRow,
    s.physToStableRowIndex (physRow + l.lines.length)⟩

theorem LogicalLine.BeginsAt.length_pos (h : l.BeginsAt graphemes s physRow) :
    0 < l.lines.length := by
  rw [h.lines]
  cases hdrop : s.lines.drop physRow with
  | nil => exact absurd (List.drop_eq_nil_iff.mp hdrop) (Nat.not_le.mpr h.inside)
  | cons line lines => exact logicalRows_pos line lines

theorem LogicalLine.BeginsAt.ends (h : l.BeginsAt graphemes s physRow) :
    LogicalEnd graphemes l.lines (s.lineAt l.rows.stop) := by
  have hend := logicalRows_end graphemes [] (s.lines.drop physRow)
  rw [h.rows]
  dsimp only
  rw [Screen.lineAt_physToStableRowIndex, h.lines, ← List.getElem?_drop]
  exact hend

theorem Screen.logicalLinesFrom_cases (s : Screen) (graphemes : Graphemes)
    (stableRange : Span Int) (stop rounds physRow : Nat) :
    ((stop ≤ physRow ∨ s.lines.length ≤ physRow ∨
        stableRange.stop < s.physToStableRowIndex physRow) ∧
      s.logicalLinesFrom graphemes stableRange stop (rounds + 1) physRow = []) ∨
    ∃ l : LogicalLine, l.BeginsAt graphemes s physRow ∧ ((l.rows.stop < stableRange.start ∧
          s.logicalLinesFrom graphemes stableRange stop (rounds + 1) physRow =
            s.logicalLinesFrom graphemes stableRange stop rounds (physRow + l.lines.length)) ∨
        (stableRange.start ≤ l.rows.stop ∧
          s.logicalLinesFrom graphemes stableRange stop (rounds + 1) physRow =
            l :: s.logicalLinesFrom graphemes stableRange stop rounds
              (physRow + l.lines.length))) := by
  rw [logicalLinesFrom]
  by_cases hmore : physRow < stop ∧ physRow < s.lines.length
  · rw [if_pos hmore]
    dsimp only
    split
    · next hbefore =>
      exact .inr ⟨⟨⟨_, _⟩, _⟩, ⟨hmore.2, rfl, rfl⟩, .inl ⟨hbefore, rfl⟩⟩
    · next hnot =>
      split
      · next hbehind => exact .inl ⟨.inr (.inr hbehind), rfl⟩
      · exact .inr ⟨⟨⟨_, _⟩, _⟩, ⟨hmore.2, rfl, rfl⟩,
          .inr ⟨Int.not_lt.mp hnot, rfl⟩⟩
  · rw [if_neg hmore]
    exact .inl ⟨by omega, rfl⟩

theorem Screen.beginsAt_of_mem (h : l ∈ s.logicalLinesFrom graphemes stableRange stop rounds physRow) :
    ∃ row, physRow ≤ row ∧ l.BeginsAt graphemes s row := by
  induction rounds generalizing physRow with
  | zero => cases h
  | succ rounds ih =>
    rcases s.logicalLinesFrom_cases graphemes stableRange stop rounds physRow with
      ⟨-, hnone⟩ | ⟨first, hfirst, ⟨-, hrest⟩ | ⟨-, hrest⟩⟩
    · rw [hnone] at h
      cases h
    · rw [hrest] at h
      obtain ⟨row, hrow, hl⟩ := ih h
      exact ⟨row, by omega, hl⟩
    · rw [hrest] at h
      rcases List.mem_cons.mp h with rfl | h
      · exact ⟨physRow, Nat.le_refl _, hfirst⟩
      · obtain ⟨row, hrow, hl⟩ := ih h
        exact ⟨row, by omega, hl⟩

theorem Screen.logicalLinesFrom_chain :
    ((s.logicalLinesFrom graphemes stableRange stop rounds physRow).IsChain fun l l' =>
      l'.rows.start = l.rows.stop) ∧ (stableRange.start ≤ s.physToStableRowIndex physRow →
      ∀ l ∈ (s.logicalLinesFrom graphemes stableRange stop rounds physRow).head?,
        l.rows.start = s.physToStableRowIndex physRow) := by
  induction rounds generalizing physRow with
  | zero =>
    refine ⟨List.isChain_nil, ?_⟩
    intro _ l hl
    cases hl
  | succ rounds ih =>
    rcases s.logicalLinesFrom_cases graphemes stableRange stop rounds physRow with
      ⟨-, hnone⟩ | ⟨first, hfirst, ⟨hbefore, hrest⟩ | ⟨hreached, hrest⟩⟩
    · rw [hnone]
      refine ⟨List.isChain_nil, ?_⟩
      intro _ l hl
      cases hl
    · rw [hrest]
      refine ⟨ih.1, ?_⟩
      intro hreached
      rw [hfirst.rows] at hbefore
      unfold physToStableRowIndex at *
      dsimp only at hbefore
      omega
    · rw [hrest]
      refine ⟨List.isChain_cons.mpr ⟨?_, ih.1⟩, ?_⟩
      · intro l hl
        rw [hfirst.rows] at hreached ⊢
        exact ih.2 hreached l hl
      · intro _ l hl
        cases hl
        rw [hfirst.rows]

theorem Screen.logicalLinesFrom_covers {i : Nat} (hrounds : stop ≤ physRow + rounds)
    (hphys : physRow ≤ i) (hstop : i < stop) (hlen : i < s.lines.length)
    (hfirst : stableRange.start ≤ s.physToStableRowIndex i)
    (hlast : s.physToStableRowIndex i < stableRange.stop) :
    ∃ l ∈ s.logicalLinesFrom graphemes stableRange stop rounds physRow,
      l.rows.start ≤ s.physToStableRowIndex i ∧ s.physToStableRowIndex i < l.rows.stop := by
  induction rounds generalizing physRow with
  | zero => omega
  | succ rounds ih =>
    rcases s.logicalLinesFrom_cases graphemes stableRange stop rounds physRow with
      ⟨hend, -⟩ | ⟨l, hl, hcase⟩
    · unfold physToStableRowIndex at *
      omega
    · have hpos := hl.length_pos
      by_cases hin : i < physRow + l.lines.length
      · -- the row is in this one, so it is not before the range
        rcases hcase with ⟨hbefore, -⟩ | ⟨-, hrest⟩
        · rw [hl.rows] at hbefore
          unfold physToStableRowIndex at *
          dsimp only at hbefore
          omega
        · rw [hrest]
          refine ⟨l, List.mem_cons_self, ?_⟩
          rw [hl.rows]
          unfold physToStableRowIndex
          dsimp only
          omega
      · obtain ⟨l', hmem, hcovers⟩ := ih (by omega) (Nat.not_lt.mp hin)
        rcases hcase with ⟨-, hrest⟩ | ⟨-, hrest⟩
        · exact ⟨l', hrest ▸ hmem, hcovers⟩
        · exact ⟨l', hrest ▸ List.mem_cons_of_mem l hmem, hcovers⟩

theorem Screen.searchBack_ok (graphemes : Graphemes) {start : Nat}
    (hstart : start ≤ s.lines.length) (backLen : Nat) :
    ∃ first, s.searchBack graphemes start backLen = .ok first ∧ first ≤ start := by
  induction start generalizing backLen with
  | zero => exact ⟨0, rfl, Nat.le_refl 0⟩
  | succ start ih =>
    rw [searchBack, List.getElem?_eq_getElem hstart]
    dsimp only
    split
    · exact ⟨_, rfl, Nat.le_refl _⟩
    · split
      · exact ⟨_, rfl, Nat.le_refl _⟩
      · obtain ⟨first, hfirst, hle⟩ := ih (Nat.le_of_succ_le hstart) _
        exact ⟨first, hfirst, Nat.le_succ_of_le hle⟩

end Passed

end Logical

end Wakterm.Term
