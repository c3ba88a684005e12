import Wakterm.Term.Screen

/-!
# What a scroll up shows

The rows of a screen are its lines without the sequence numbers of their last changes.
-/

namespace Wakterm.Term

open Wakterm.Machine

/-- A line without its sequence number. -/
def Line.unstamped (line : Line) : Line := { line with seqno := 0 }

theorem Line.unstamped_update (line : Line) (seqno : Nat) :
    (line.updateLastChangeSeqno seqno).unstamped = line.unstamped := rfl

theorem Line.unstamped_compress (line : Line) :
    line.compressForScrollback.unstamped = line.unstamped.compressForScrollback := by
  obtain ⟨cells, seqno, bits⟩ := line
  cases cells with
  | V cells => rfl
  | C cl => rfl

namespace Screen

/-- The screen has these rows, and is otherwise like `base`. -/
structure Shows (base : Screen) (rows : List Line) (s : Screen) : Prop where
  rows : s.lines.map Line.unstamped = rows
  physicalRows : s.physicalRows = base.physicalRows
  physicalCols : s.physicalCols = base.physicalCols
  configuredScrollback : s.configuredScrollback = base.configuredScrollback
  allowScrollback : s.allowScrollback = base.allowScrollback

/-- The computation ends in a screen with these rows. -/
def Reaches (base : Screen) (x : Except Panic Screen) (rows : List Line) : Prop :=
  ∃ s, x = .ok s ∧ Shows base rows s

section Reaches

variable {base s : Screen} {rows rows' above mid below : List Line}

theorem Shows.length (h : Shows base rows s) : s.lines.length = rows.length := by
  rw [← h.rows, List.length_map]

theorem Shows.reaches (h : Shows base rows s) : Reaches base (.ok s) rows := ⟨s, rfl, h⟩

theorem Shows.setLines (h : Shows base rows s) {lines : List Line}
    (hlines : lines.map Line.unstamped = rows') : Shows base rows' { s with lines := lines } :=
  ⟨hlines, h.physicalRows, h.physicalCols, h.configuredScrollback, h.allowScrollback⟩

theorem Reaches.bind {x : Except Panic Screen} {f : Screen → Except Panic Screen}
    (h : Reaches base x rows) (hf : ∀ s, Shows base rows s → Reaches base (f s) rows') :
    Reaches base (x >>= f) rows' := by
  obtain ⟨s, rfl, hs⟩ := h
  exact hf s hs

/-! ## Changes of lines in their places -/

theorem reaches_modifyLine (h : Shows base (above ++ row :: below) s) {f : Line → Line}
    {g : Line → Line} (hf : ∀ line, (f line).unstamped = g line.unstamped) :
    Reaches base (s.modifyLine above.length fun line => .ok (f line))
      (above ++ g row :: below) := by
  obtain ⟨upper, rest, hlines, hupper, hrest⟩ := List.map_eq_append_iff.mp h.rows
  obtain ⟨line, lower, rfl, rfl, hlower⟩ := List.map_eq_cons_iff.mp hrest
  have hlen : upper.length = above.length := by rw [← hupper, List.length_map]
  have hat : s.lines[above.length]? = some line := by
    rw [hlines, ← hlen, List.getElem?_append_right (Nat.le_refl _), Nat.sub_self]
    rfl
  unfold modifyLine
  rw [hat]
  refine ⟨_, rfl, h.setLines ?_⟩
  rw [hlines, ← hlen, List.set_append_right _ _ (Nat.le_refl _), Nat.sub_self]
  simp [hupper, hlower, hf]

/-- The lines from one on are changed in their places, by induction on their number. -/
theorem reaches_modifyLines (h : Shows base (above ++ mid ++ below) s) {f g : Line → Line}
    (hf : ∀ line, (f line).unstamped = g line.unstamped) :
    Reaches base (rowsFrom above.length mid.length
      (fun y s => s.modifyLine y fun line => .ok (f line)) s) (above ++ mid.map g ++ below) := by
  induction mid generalizing s above with
  | nil => exact h.reaches
  | cons row mid ih =>
    rw [List.append_assoc] at h
    refine (reaches_modifyLine h hf).bind fun s1 h1 => ?_
    have hrest : Shows base ((above ++ [g row]) ++ mid ++ below) s1 := by
      simpa [List.append_assoc] using h1
    have hnext := ih hrest
    simpa [List.append_assoc] using hnext

theorem reaches_touch (h : Shows base rows s) {start n : Nat} (hfit : start + n ≤ rows.length)
    (seqno : Nat) : Reaches base (rowsFrom start n (touch seqno) s) rows := by
  have hsplit : rows.take start ++ (rows.drop start).take n ++ rows.drop (start + n) = rows := by
    rw [← List.drop_drop, List.append_assoc, List.take_append_drop, List.take_append_drop]
  have hstart : (rows.take start).length = start := by
    rw [List.length_take]
    omega
  have hn : ((rows.drop start).take n).length = n := by
    rw [List.length_take, List.length_drop]
    omega
  rw [← hsplit] at h ⊢
  have hkeep := reaches_modifyLines h (f := fun line => line.updateLastChangeSeqno seqno) (g := id)
    fun line => line.unstamped_update seqno
  rw [hstart, hn, List.map_id] at hkeep
  exact hkeep

/-! ## Lines that move, go and come -/

/-- What a line becomes that is used again. -/
def recycledRow (physicalCols : Nat) (blankAttr : CellAttributes) : Line :=
  (if blankAttr = .blank then Line.new 0
    else .withWidthAndCell physicalCols (.blankWithAttrs blankAttr) 0).unstamped

/-- What a line is that comes in anew. -/
def freshRow (physicalCols : Nat) (blankAttr : CellAttributes) (bidiMode : BidiMode) : Line :=
  (blankLine physicalCols 0 blankAttr bidiMode).unstamped

variable {blankAttr : CellAttributes} {bidiMode : BidiMode} {atEnd : Bool} {seqno stop : Nat}

/-- The line behind those above the region goes to the end of the region, as a blank one. -/
theorem reaches_moveLine (h : Shows base (above ++ row :: mid ++ below) s)
    (hend : atEnd = true → below = []) (hstop : stop = above.length + mid.length + 1) :
    Reaches base (moveLine above.length seqno blankAttr atEnd (stop - 1) s)
      (above ++ mid ++ recycledRow base.physicalCols blankAttr :: below) := by
  obtain ⟨front, lower, hlines, hfront, hlower⟩ := List.map_eq_append_iff.mp h.rows
  obtain ⟨upper, rest, rfl, hupper, hrest⟩ := List.map_eq_append_iff.mp hfront
  obtain ⟨line, middle, rfl, -, hmiddle⟩ := List.map_eq_cons_iff.mp hrest
  have hlen : upper.length = above.length := by rw [← hupper, List.length_map]
  have hlen' : middle.length = mid.length := by rw [← hmiddle, List.length_map]
  have hat : s.lines[above.length]? = some line := by
    rw [hlines, ← hlen, List.append_assoc, List.getElem?_append_right (Nat.le_refl _),
      Nat.sub_self]
    rfl
  have herase : s.lines.eraseIdx above.length = upper ++ middle ++ lower := by
    rw [hlines, ← hlen, List.append_assoc, List.eraseIdx_append_of_length_le (Nat.le_refl _),
      Nat.sub_self]
    simp
  have hblank : ((if blankAttr = .blank then Line.new seqno
      else (line.resizeAndClear s.physicalCols seqno blankAttr).updateLastChangeSeqno
        seqno).unstamped) = recycledRow base.physicalCols blankAttr := by
    rw [h.physicalCols, recycledRow]
    split
    · rfl
    · rfl
  have hindex : stop - 1 = (upper ++ middle).length := by
    rw [List.length_append]
    omega
  unfold moveLine
  rw [hat]
  dsimp only
  rw [herase]
  cases atEnd with
  | true =>
    obtain rfl : lower = [] := by
      rw [hend rfl] at hlower
      exact List.map_eq_nil_iff.mp hlower
    refine ⟨_, rfl, h.setLines ?_⟩
    rw [List.map_append, List.map_append, List.map_append, hupper, hmiddle, hend rfl]
    simp [hblank]
  | false =>
    have hfits : ¬ (upper ++ middle ++ lower).length < stop - 1 := by
      rw [hindex]
      simp only [List.length_append]
      omega
    rw [if_neg (by decide), if_neg hfits, hindex]
    refine ⟨_, rfl, h.setLines ?_⟩
    rw [insertIdx_length_append]
    simp [hupper, hmiddle, hlower, hblank]

/-- The first lines behind those above the region go to its end one by one: the region with its
first lines gone, and as many blank ones at its end. By induction on their number. -/
theorem reaches_moveLines (h : Shows base (above ++ mid ++ below) s) {k : Nat}
    (hk : k ≤ mid.length) (hend : atEnd = true → below = [])
    (hstop : stop = above.length + mid.length) :
    Reaches base (rounds k (moveLine above.length seqno blankAttr atEnd (stop - 1)) s)
      (above ++ mid.drop k ++ List.replicate k (recycledRow base.physicalCols blankAttr) ++
        below) := by
  induction k generalizing s mid with
  | zero =>
    refine ⟨s, rfl, ?_⟩
    simpa using h
  | succ k ih =>
    cases mid with
    | nil => cases hk
    | cons row mid =>
      let blank := recycledRow base.physicalCols blankAttr
      refine (reaches_moveLine h hend (by rw [hstop, List.length_cons]; omega)).bind ?_
      intro s1 h1
      have h1' : Shows base (above ++ (mid ++ [blank]) ++ below) s1 := by
        simpa [blank] using h1
      have hk' : k ≤ mid.length := Nat.le_of_succ_le_succ hk
      have hnext := ih h1' (by rw [List.length_append]; omega)
        (by rw [hstop, List.length_append]; rfl)
      rw [List.drop_append_of_le_length hk'] at hnext
      simpa [List.append_assoc, List.replicate_succ, blank] using hnext

theorem reaches_removeLines (h : Shows base rows s) (k : Nat) :
    Reaches base (rounds k (removeLine 0) s) (rows.drop k) := by
  induction k generalizing s rows with
  | zero => exact h.reaches
  | succ k ih =>
    have h1 : Shows base (rows.drop 1) { s with lines := s.lines.eraseIdx 0 } := by
      apply h.setLines
      rw [← h.rows, List.eraseIdx_zero, List.map_tail, List.drop_one]
    have hnext := ih h1
    rw [List.drop_drop, Nat.add_comm] at hnext
    exact hnext

theorem reaches_addLine (h : Shows base (above ++ below) s) (hend : atEnd = true → below = [])
    (hstop : atEnd = false → stop = above.length) :
    Reaches base (addLine seqno blankAttr bidiMode atEnd stop s)
      (above ++ freshRow base.physicalCols blankAttr bidiMode :: below) := by
  obtain ⟨upper, lower, hlines, hupper, hlower⟩ := List.map_eq_append_iff.mp h.rows
  have hfresh : (blankLine s.physicalCols seqno blankAttr bidiMode).unstamped =
      freshRow base.physicalCols blankAttr bidiMode := by
    rw [h.physicalCols]
    unfold freshRow blankLine
    split
    · rfl
    · rfl
  unfold addLine
  dsimp only
  cases atEnd with
  | true =>
    refine ⟨_, rfl, h.setLines ?_⟩
    rw [List.map_append, h.rows, hend rfl]
    simp [hfresh]
  | false =>
    have hlen : stop = upper.length := by rw [hstop rfl, ← hupper, List.length_map]
    have hfits : ¬ s.lines.length < stop := by
      rw [hlines, hlen, List.length_append]
      omega
    rw [if_neg (by decide), if_neg hfits, hlines, hlen, insertIdx_length_append]
    refine ⟨_, rfl, h.setLines ?_⟩
    simp [hupper, hlower, hfresh]

/-- Lines come in behind the region, by induction on their number. -/
theorem reaches_addLines (h : Shows base (above ++ below) s) (k : Nat)
    (hend : atEnd = true → below = []) (hstop : atEnd = false → stop = above.length) :
    Reaches base (rounds k (addLine seqno blankAttr bidiMode atEnd stop) s)
      (above ++ List.replicate k (freshRow base.physicalCols blankAttr bidiMode) ++ below) := by
  induction k generalizing s above below with
  | zero =>
    refine ⟨s, rfl, ?_⟩
    simpa using h
  | succ k ih =>
    refine (reaches_addLine h hend hstop).bind fun s1 h1 => ?_
    cases atEnd with
    | true =>
      -- the next line comes in behind this one
      obtain rfl := hend rfl
      have h1' : Shows base
          ((above ++ [freshRow base.physicalCols blankAttr bidiMode]) ++ []) s1 := by
        simpa using h1
      have hnext := ih h1' (fun _ => rfl) (fun hfalse => absurd hfalse (by decide))
      simpa [List.append_assoc, List.replicate_succ] using hnext
    | false =>
      -- the next line comes in before this one
      have hnext := ih h1 (fun htrue => absurd htrue (by decide)) hstop
      simpa [List.append_assoc, List.replicate_succ'] using hnext

end Reaches

/-! ## The whole -/

/-- How many lines of a screen are taken away at the top when `n` scroll off a region that begins
at `top`. -/
def droppedRows (s : Screen) (top n : Nat) : Nat :=
  s.linesRemoved (decide (top = 0) && s.allowScrollback) n

/-- The rows after a scroll up: those above the region, those that scroll off, those that stay and
those below. -/
def scrolledUp (s : Screen) (top : Nat) (blankAttr : CellAttributes) (bidiMode : BidiMode)
    (above scrolled kept below : List Line) : List Line :=
  let n := scrolled.length
  let dropped := s.droppedRows top n
  let recycled := min dropped n
  (if top = 0 then (above ++ scrolled.map Line.compressForScrollback ++ kept).drop dropped
    else above ++ kept) ++
    List.replicate recycled (recycledRow s.physicalCols blankAttr) ++
    List.replicate (n - recycled) (freshRow s.physicalCols blankAttr bidiMode) ++ below

section Whole

variable {base s : Screen} {top bottom numRows seqno : Nat} {blankAttr : CellAttributes}
  {bidiMode : BidiMode} {above scrolled kept below : List Line}

theorem physRow_of_le {row : Nat} (hrow : row ≤ s.physicalRows) :
    s.physRow row = s.lines.length - s.physicalRows + row := by
  unfold physRow
  rw [Int.toNat_natCast, Nat.min_eq_left hrow]

theorem reaches_touchBelow {rows : List Line} (h : Shows base rows s)
    (hfull : base.physicalRows ≤ rows.length) (p : Prop) [Decidable p] {stop : Int} (seqno : Nat) :
    Reaches base (if p then
        rowsFrom (s.physRow stop) (s.physRow s.physicalRows - s.physRow stop) (touch seqno) s
      else .ok s) rows := by
  split
  · refine reaches_touch h ?_ seqno
    have hlen := h.length
    have hrows := h.physicalRows
    unfold physRow
    omega
  · exact h.reaches

theorem droppedRows_le (hfull : s.physicalRows ≤ s.lines.length) (top n : Nat) :
    s.droppedRows top n ≤ s.lines.length - s.physicalRows + n := by
  unfold droppedRows linesRemoved
  split
  · omega
  · exact Nat.le_add_left _ _

theorem physRow_shows (h : Shows base rows s) {row : Nat} (hrow : row ≤ base.physicalRows) :
    s.physRow row = rows.length - base.physicalRows + row := by
  rw [physRow_of_le (h.physicalRows ▸ hrow), h.length, h.physicalRows]

theorem screen_filled {screen history n kept below dropped : Nat}
    (hscreen : screen = n + kept + below) (hdropped : dropped ≤ history + n) :
    screen ≤ history + n + kept - dropped + min dropped n + (n - min dropped n) + below := by
  have hn : min dropped n + (n - min dropped n) = n := Nat.add_sub_cancel' (Nat.min_le_right _ _)
  omega

/-- **What a scroll up shows.** -/
theorem reaches_scrollUp (hfull : s.physicalRows ≤ s.lines.length) (hregion : top < bottom)
    (hbottom : bottom ≤ s.physicalRows)
    (hrows : s.lines.map Line.unstamped = above ++ (scrolled ++ kept) ++ below)
    (habove : above.length = s.lines.length - s.physicalRows + top)
    (hscrolled : scrolled.length = min numRows (bottom - top))
    (hbelow : below.length = s.physicalRows - bottom) :
    Reaches s (s.scrollUp ⟨top, bottom⟩ numRows seqno blankAttr bidiMode)
      (s.scrolledUp top blankAttr bidiMode above scrolled kept below) := by
  have hshows : Shows s (above ++ (scrolled ++ kept) ++ below) s := ⟨hrows, rfl, rfl, rfl, rfl⟩
  have hlen := hshows.length
  simp only [List.length_append] at hlen
  have hstart : s.physRow top = above.length := by
    rw [physRow_of_le (Nat.le_of_lt (Nat.lt_of_lt_of_le hregion hbottom)), habove]
  have hkept : top + (scrolled.length + kept.length) = bottom := by omega
  have hstop : s.physRow bottom = above.length + (scrolled.length + kept.length) := by
    rw [physRow_of_le hbottom, ← hkept, habove, Nat.add_assoc]
  have hscreen : s.physicalRows = top + (scrolled.length + kept.length) + below.length := by
    rw [hkept, hbelow, Nat.add_sub_of_le hbottom]
  have hwidth : bottom - top = scrolled.length + kept.length := by omega
  have hn : min numRows (s.physRow bottom - s.physRow top) = scrolled.length := by
    rw [hstart, hstop, Nat.add_sub_cancel_left, ← hwidth, hscrolled]
  have hend : decide ((bottom : Int) = s.physicalRows) = true → below = [] := by
    intro h
    have hsame : bottom = s.physicalRows := Int.ofNat.inj (of_decide_eq_true h)
    exact List.eq_nil_of_length_eq_zero (by omega)
  unfold scrollUp
  dsimp only [physRange]
  rw [if_neg (by omega), hn]
  generalize hatEnd : decide ((bottom : Int) = s.physicalRows) = atEnd at hend ⊢
  generalize hok : (decide ((top : Int) = 0) && s.allowScrollback) = ok
  have htouched : Reaches s
      (if ok then .ok s
        else rowsFrom (s.physRow top) (s.physRow bottom - s.physRow top) (touch seqno) s)
      (above ++ (scrolled ++ kept) ++ below) := by
    split
    · exact hshows.reaches
    · refine reaches_touch hshows ?_ seqno
      simp only [List.length_append]
      omega
  refine htouched.bind fun s1 h1 => ?_
  have hdropped : s1.linesRemoved ok scrolled.length = s.droppedRows top scrolled.length := by
    have hsize : s1.scrollbackSize = s.scrollbackSize := by
      simp only [scrollbackSize, h1.allowScrollback, h1.configuredScrollback]
    have hlen1 : s1.lines.length = s.lines.length := by rw [h1.length, hshows.length]
    have htop : decide ((top : Int) = 0) = decide (top = 0) := by simp
    simp only [droppedRows, linesRemoved, hsize, hlen1, h1.physicalRows, ← hok, htop]
  rw [hdropped]
  generalize hdrop : s.droppedRows top scrolled.length = dropped
  by_cases htop : top = 0
  · -- the lines go at the top of the scrollback
    have hzero : (top : Int) = 0 := by omega
    have habove' : above.length = s.lines.length - s.physicalRows := by
      rw [habove, htop, Nat.add_zero]
    have hfit : dropped ≤ above.length + scrolled.length := by
      rw [← hdrop, habove']
      exact droppedRows_le hfull top _
    have hnone : dropped ≤ above.length + (scrolled.length + kept.length) :=
      Nat.le_trans hfit (by omega)
    have hat : ∀ row ≤ s.physicalRows, s1.physRow (row : Nat) = above.length + row := by
      intro row hrow
      rw [physRow_shows h1 hrow, ← hshows.length, habove']
    have hfirst : s1.physRow 0 = above.length := hat 0 (Nat.zero_le _)
    have hlast : s1.physRow scrolled.length - above.length = scrolled.length := by
      rw [hat _ (by omega), Nat.add_sub_cancel_left]
    simp only [hzero, if_true, true_and]
    have h1' : Shows s (above ++ scrolled ++ (kept ++ below)) s1 := by
      simpa only [List.append_assoc] using h1
    rw [hfirst, hlast]
    refine (reaches_modifyLines h1' Line.unstamped_compress).bind fun s2 h2 => ?_
    let region := above ++ scrolled.map Line.compressForScrollback ++ kept
    have h2' : Shows s ([] ++ region ++ below) s2 := by
      simpa only [region, List.nil_append, List.append_assoc] using h2
    have hregion : region.length = above.length + (scrolled.length + kept.length) := by
      simp only [region, List.length_append, List.length_map]
      omega
    let blanks := List.replicate (min dropped scrolled.length)
      (recycledRow s.physicalCols blankAttr)
    have hmoved : Reaches s
        (rounds (min dropped scrolled.length)
          (moveLine 0 seqno blankAttr atEnd (s.physRow bottom - 1)) s2)
        (region.drop (min dropped scrolled.length) ++ blanks ++ below) :=
      reaches_moveLines h2' (by omega) hend (by rw [hstop, hregion]; simp)
    refine hmoved.bind fun s3 h3 => ?_
    have hremoved : Reaches s
        (rounds (dropped - min dropped scrolled.length) (removeLine 0) s3)
        (region.drop dropped ++ blanks ++ below) := by
      have hdone := reaches_removeLines h3 (dropped - min dropped scrolled.length)
      rw [List.append_assoc, List.drop_append_of_le_length
          (by rw [List.length_drop, hregion]; omega), List.drop_drop,
        Nat.add_sub_cancel' (Nat.min_le_left _ _)] at hdone
      rw [List.append_assoc]
      exact hdone
    refine hremoved.bind fun s4 h4 => ?_
    have hadded : Reaches s
        (rounds (scrolled.length - min dropped scrolled.length)
          (addLine seqno blankAttr bidiMode atEnd (s.physRow bottom))
          (if ok = true then
            { s4 with stableRowIndexOffset := s4.stableRowIndexOffset + dropped }
          else s4))
        (s.scrolledUp top blankAttr bidiMode above scrolled kept below) := by
      have hshape : s.scrolledUp top blankAttr bidiMode above scrolled kept below =
          (region.drop dropped ++ blanks) ++
            List.replicate (scrolled.length - min dropped scrolled.length)
              (freshRow s.physicalCols blankAttr bidiMode) ++ below := by
        simp only [scrolledUp, if_pos htop, hdrop, region, blanks]
      have h4' : Shows s (region.drop dropped ++ blanks ++ below)
          (if ok = true then
            { s4 with stableRowIndexOffset := s4.stableRowIndexOffset + dropped }
          else s4) := by
        split
        · exact ⟨h4.rows, h4.physicalRows, h4.physicalCols, h4.configuredScrollback,
            h4.allowScrollback⟩
        · exact h4
      rw [hshape]
      by_cases hroom : dropped ≤ scrolled.length
      · refine reaches_addLines h4' _ hend fun _ => ?_
        simp only [blanks, List.length_append, List.length_drop, List.length_replicate, hregion]
        omega
      · -- no line comes in anew
        have hnone : scrolled.length - min dropped scrolled.length = 0 := by omega
        rw [hnone, List.replicate_zero, List.append_nil]
        exact h4'.reaches
    refine hadded.bind fun s5 h5 => ?_
    refine reaches_touchBelow h5 ?_ _ seqno
    simp only [scrolledUp, if_pos htop, List.length_append, List.length_drop, List.length_map,
      List.length_replicate, hdrop]
    refine screen_filled ?_ hfit
    rw [hscreen, htop, Nat.zero_add]
  · -- the lines that scroll off are taken away, and as many come in again
    have hpos : ¬ (top : Int) = 0 := by omega
    obtain rfl : ok = false := by
      rw [← hok, decide_eq_false hpos]
      rfl
    obtain rfl : dropped = scrolled.length := by
      simp [← hdrop, droppedRows, linesRemoved, htop]
    have hshape : s.scrolledUp top blankAttr bidiMode above scrolled kept below =
        above ++ kept ++ List.replicate scrolled.length (recycledRow s.physicalCols blankAttr) ++
          below := by
      simp [scrolledUp, htop, hdrop]
    rw [hshape]
    simp only [hpos, if_false, Nat.min_self, Nat.sub_self, Bool.false_eq_true, and_false]
    refine h1.reaches.bind fun s2 h2 => ?_
    have hmoved : Reaches s
        (rounds scrolled.length
          (moveLine (s.physRow top) seqno blankAttr atEnd (s.physRow bottom - 1)) s2)
        (above ++ kept ++
          List.replicate scrolled.length (recycledRow s.physicalCols blankAttr) ++ below) := by
      have hregion : s.physRow bottom = above.length + (scrolled ++ kept).length := by
        rw [List.length_append, hstop]
      have hkept : (scrolled ++ kept).drop scrolled.length = kept := List.drop_left
      rw [hstart, ← hkept]
      exact reaches_moveLines h2 (by simp) hend hregion
    refine hmoved.bind fun s3 h3 => ?_
    refine h3.reaches.bind fun s4 h4 => ?_
    refine h4.reaches.bind fun s5 h5 => ?_
    refine reaches_touchBelow h5 ?_ _ seqno
    simp only [List.length_append, List.length_replicate]
    omega

end Whole

end Screen

end Wakterm.Term
