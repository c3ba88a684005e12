import Wakterm.Term.Logic.Scroll

/-!
# The scrollback as a log

The lines above the viewport, numbered by their stable rows, are a log whose oldest entries may be
gone.
-/

namespace Wakterm.Term

open Wakterm.Machine

namespace Screen

def viewportTop (s : Screen) : Nat := s.lines.length - s.physicalRows

/-- The lines above the viewport. -/
def above (s : Screen) : List Line := s.lines.take s.viewportTop

def scrollback (s : Screen) : Pruned Line := ⟨s.stableRowIndexOffset, s.above⟩

/-- A screen with a scrollback has gone on from another one: the lines above the viewport stay where
they are in the log. -/
structure GoesOn (s s' : Screen) : Prop where
  log : s'.scrollback.Extends s.scrollback
  allowScrollback : s'.allowScrollback = s.allowScrollback

theorem GoesOn.refl (s : Screen) : s.GoesOn s := ⟨.refl _, rfl⟩

theorem GoesOn.trans {s s' s'' : Screen} (h : s.GoesOn s') (h' : s'.GoesOn s'') : s.GoesOn s'' :=
  ⟨h'.log.trans h.log, h'.allowScrollback.trans h.allowScrollback⟩

theorem scrollback_entry {s : Screen} {row : Nat} : s.scrollback.entry row =
      if row < s.stableRowIndexOffset + s.viewportTop then s.lineAt row else none := by
  unfold scrollback Pruned.entry above lineAt stableRowToPhys
  dsimp only
  by_cases hgone : row < s.stableRowIndexOffset
  · rw [if_pos hgone, if_pos (show ((row : Int) - s.stableRowIndexOffset) < 0 ∨ _ by omega)]
    simp
  · have hphys : ((row : Int) - s.stableRowIndexOffset).toNat = row - s.stableRowIndexOffset := by
      omega
    rw [if_neg hgone, hphys, List.getElem?_take]
    by_cases habove : row - s.stableRowIndexOffset < s.viewportTop
    · have hlen : s.viewportTop ≤ s.lines.length := Nat.sub_le _ _
      rw [if_pos habove, if_pos (by omega), if_neg (by omega)]
      rfl
    · rw [if_neg habove, if_neg (by omega)]

/-! ## Stages -/

section Stages

variable {s s' : Screen} {front : List Line} {seqno idx p n a : Nat} {attr : CellAttributes}
  {bidi : BidiMode} {atEnd : Bool}

theorem front_rowsFrom {f : Line → Line}
    (h : rowsFrom a n (fun y s => s.modifyLine y fun line => .ok (f line)) s = .ok s')
    (hfront : front <+: s.lines) (ha : front.length ≤ a) : front <+: s'.lines := by
  obtain ⟨-, -, -, hrows⟩ := rowsFrom_modify h
  refine List.prefix_iff_getElem?.mpr fun i hi => ?_
  rw [hrows i, if_neg (by omega)]
  exact List.prefix_iff_getElem?.mp hfront i hi

theorem front_moveFirst (h : moveLine 0 seqno attr atEnd p s = .ok s') (hfront : front <+: s.lines)
    (hp : front.length ≤ p + 1) : front.drop 1 <+: s'.lines := by
  have hrest : front.drop 1 <+: s.lines.eraseIdx 0 := by
    rw [List.eraseIdx_zero, ← List.drop_one]
    exact hfront.drop 1
  unfold moveLine at h
  split at h
  · cases h
  · dsimp only at h
    split at h
    · cases h
      exact List.prefix_append_of_prefix hrest
    · split at h
      · cases h
      · cases h
        refine prefix_insertIdx hrest ?_ _
        rw [List.length_drop]
        omega

theorem front_moveFirsts (h : rounds n (moveLine 0 seqno attr atEnd p) s = .ok s')
    (hfront : front <+: s.lines) (hp : front.length ≤ p + 1) : front.drop n <+: s'.lines := by
  induction n generalizing s front with
  | zero =>
    cases h
    exact hfront
  | succ n ih =>
    obtain ⟨s1, h1, h2⟩ := bind_eq_ok.mp h
    have hnext := ih h2 (front_moveFirst h1 hfront hp) (by rw [List.length_drop]; omega)
    rw [List.drop_drop, Nat.add_comm] at hnext
    exact hnext

theorem front_moveLines (h : rounds n (moveLine idx seqno attr atEnd p) s = .ok s')
    (hfront : front <+: s.lines) (hidx : front.length ≤ idx) (hp : 0 < n → front.length ≤ p) :
    front <+: s'.lines := by
  induction n generalizing s with
  | zero =>
    cases h
    exact hfront
  | succ n ih =>
    obtain ⟨s1, h1, h2⟩ := bind_eq_ok.mp h
    have hp := hp (Nat.succ_pos n)
    refine ih h2 ?_ fun _ => hp
    have hrest := prefix_eraseIdx hfront hidx
    unfold moveLine at h1
    split at h1
    · cases h1
    · dsimp only at h1
      split at h1
      · cases h1
        exact List.prefix_append_of_prefix hrest
      · split at h1
        · cases h1
        · cases h1
          exact prefix_insertIdx hrest hp _

theorem front_removeFirsts (h : rounds n (removeLine 0) s = .ok s') (hfront : front <+: s.lines) :
    front.drop n <+: s'.lines := by
  induction n generalizing s front with
  | zero =>
    cases h
    exact hfront
  | succ n ih =>
    have hrest : front.drop 1 <+: s.lines.eraseIdx 0 := by
      rw [List.eraseIdx_zero, ← List.drop_one]
      exact hfront.drop 1
    have hnext := ih (s := { s with lines := s.lines.eraseIdx 0 }) h hrest
    rw [List.drop_drop, Nat.add_comm] at hnext
    exact hnext

theorem front_removeLines (h : rounds n (removeLine idx) s = .ok s') (hfront : front <+: s.lines)
    (hidx : front.length ≤ idx) : front <+: s'.lines ∧ s.lines.length ≤ s'.lines.length + n := by
  induction n generalizing s with
  | zero =>
    cases h
    exact ⟨hfront, Nat.le_refl _⟩
  | succ n ih =>
    obtain ⟨hkeep, hlen⟩ := ih (s := { s with lines := s.lines.eraseIdx idx }) h
      (prefix_eraseIdx hfront hidx)
    have herase := List.length_eraseIdx (l := s.lines) (i := idx)
    dsimp only at hlen
    split at herase
    · exact ⟨hkeep, by omega⟩
    · exact ⟨hkeep, by omega⟩

theorem front_addLines (h : rounds n (addLine seqno attr bidi atEnd p) s = .ok s')
    (hfront : front <+: s.lines) (hp : front.length ≤ p) : front <+: s'.lines := by
  induction n generalizing s with
  | zero =>
    cases h
    exact hfront
  | succ n ih =>
    obtain ⟨s1, h1, h2⟩ := bind_eq_ok.mp h
    refine ih h2 ?_
    unfold addLine at h1
    dsimp only at h1
    split at h1
    · cases h1
      exact List.prefix_append_of_prefix hfront
    · split at h1
      · cases h1
      · cases h1
        exact prefix_insertIdx hfront hp _

end Stages

/-! ## Operations -/

section Operations

variable {graphemes : Graphemes} {s s' : Screen} {seqno numRows : Nat} {region : Span Int}
  {attr : CellAttributes} {bidi : BidiMode}

theorem above_prefix (s : Screen) : s.above <+: s.lines := List.take_prefix _ _

theorem length_above (s : Screen) : s.above.length = s.viewportTop := by
  unfold above viewportTop
  rw [List.length_take]
  omega

theorem viewportTop_le_physRow (s : Screen) (row : Int) : s.viewportTop ≤ s.physRow row :=
  Nat.le_add_right _ _

theorem goesOn_of_front (gone : Nat) (hallow : s'.allowScrollback = s.allowScrollback)
    (hoffset : s'.stableRowIndexOffset = s.stableRowIndexOffset + gone)
    (hfront : s.above.drop gone <+: s'.lines) (htop : s.viewportTop ≤ s'.viewportTop + gone) :
    s.GoesOn s' := by
  refine ⟨⟨gone, hoffset, ?_⟩, hallow⟩
  refine List.prefix_take_iff.mpr ⟨hfront, ?_⟩
  show (s.above.drop gone).length ≤ s'.viewportTop
  rw [List.length_drop, length_above]
  omega

theorem modifyLine_goesOn {idx : Nat} {f : Line → Except Panic Line}
    (h : s.modifyLine idx f = .ok s') (hidx : s.viewportTop ≤ idx) : s.GoesOn s' := by
  unfold modifyLine at h
  split at h
  · cases h
  · obtain ⟨line, -, rfl⟩ := map_eq_ok.mp h
    refine goesOn_of_front 0 rfl rfl ?_ ?_
    · exact prefix_set s.above_prefix (by rw [length_above]; exact hidx) line
    · simp [viewportTop]

theorem moveRegion_goesOn {s1 s2 : Screen} {a b n : Nat} {atEnd : Bool}
    (htouch : rowsFrom a (b - a) (touch seqno) s = .ok s1)
    (hmove : rounds n (moveLine a seqno attr atEnd (b - 1)) s1 = .ok s2) (hn : n ≤ b - a)
    (ha : s.viewportTop ≤ a) : s.GoesOn s2 := by
  have ha' : s.above.length ≤ a := by
    rw [length_above]
    exact ha
  obtain ⟨hframe1, hlen1, -⟩ := rowsFrom_modify (f := (·.updateLastChangeSeqno seqno)) htouch
  obtain ⟨hframe2, hlen2, -⟩ := rounds_moveLine hmove fun hpos _ => by omega
  have hfront1 := front_rowsFrom (f := (·.updateLastChangeSeqno seqno)) htouch s.above_prefix ha'
  have hfront2 := front_moveLines hmove hfront1 ha' fun hpos => by omega
  refine goesOn_of_front 0 ?_ ?_ hfront2 ?_
  · rw [hframe2, hframe1]
  · rw [hframe2, hframe1]
    rfl
  · have hrows : s2.physicalRows = s.physicalRows := by rw [hframe2, hframe1]
    unfold viewportTop
    rw [hlen2, hlen1, hrows]
    exact Nat.le_refl _

theorem front_touchBelow {front : List Line} {p : Prop} [Decidable p] {stop : Int} (h : (if p then
        rowsFrom (s.physRow stop) (s.physRow s.physicalRows - s.physRow stop) (touch seqno) s
      else .ok s) = .ok s') (hfront : front <+: s.lines) (hlen : front.length ≤ s.viewportTop) :
    front <+: s'.lines ∧ s'.lines.length = s.lines.length ∧ s' = { s with lines := s'.lines } := by
  split at h
  · obtain ⟨hframe, hsame, -⟩ := rowsFrom_modify (f := (·.updateLastChangeSeqno seqno)) h
    refine ⟨?_, hsame, hframe⟩
    exact front_rowsFrom (f := (·.updateLastChangeSeqno seqno)) h hfront
      (Nat.le_trans hlen (s.viewportTop_le_physRow stop))
  · cases h
    exact ⟨hfront, rfl, rfl⟩

theorem scrollOff_goesOn {s2 s3 s4 s5 : Screen} {n b removed : Nat} {atEnd : Bool}
    (hremoved : removed = s.linesRemoved true n) (hb : s.viewportTop ≤ b)
    (hcompress : rowsFrom (s.physRow 0) (s.physRow n - s.physRow 0)
      (fun y s => s.modifyLine y fun line => .ok line.compressForScrollback) s = .ok s2)
    (hmove : rounds (min removed n) (moveLine 0 seqno attr atEnd (b - 1)) s2 = .ok s3)
    (hremove : rounds (removed - min removed n) (removeLine 0) s3 = .ok s4)
    (hadd : rounds (n - min removed n) (addLine seqno attr bidi atEnd b)
      { s4 with stableRowIndexOffset := s4.stableRowIndexOffset + removed } = .ok s5)
    (htouch : (if 0 < removed - min removed n ∨ (0 < n - min removed n ∧ !atEnd) then
      rowsFrom (s5.physRow region.stop) (s5.physRow s5.physicalRows - s5.physRow region.stop)
        (touch seqno) s5
      else .ok s5) = .ok s') : s.GoesOn s' := by
  obtain ⟨hframe2, hlen2, -⟩ := rowsFrom_modify hcompress
  obtain ⟨hframe3, hlen3, -⟩ := rounds_moveLine hmove fun _ _ => Nat.zero_le _
  obtain ⟨hframe4, hlen4, -⟩ := rounds_removeLine hremove
  obtain ⟨hframe5, hlen5, -⟩ := rounds_addLine hadd
  have hmin : min removed n ≤ removed := Nat.min_le_left _ _
  -- the front loses the lines that are moved, and then those that are only taken away
  have hfront2 : s.above <+: s2.lines := front_rowsFrom hcompress s.above_prefix (by
    rw [length_above]
    exact s.viewportTop_le_physRow 0)
  have hfront3 := front_moveFirsts hmove hfront2 (by rw [length_above]; omega)
  have hfront4 := front_removeFirsts hremove hfront3
  rw [List.drop_drop, Nat.add_sub_cancel' hmin] at hfront4
  have hleft : (s.above.drop removed).length = s.viewportTop - removed := by
    rw [List.length_drop, length_above]
  have hfront5 := front_addLines hadd hfront4 (by rw [hleft]; omega)
  have hscreen5 : s5 = { s with
      lines := s5.lines
      stableRowIndexOffset := s.stableRowIndexOffset + removed } := by
    rw [hframe5, hframe4, hframe3, hframe2]
  have hrows5 : s5.physicalRows = s.physicalRows := by rw [hscreen5]
  -- so many lines are left that what is left of the front is above the viewport
  have htop5 : s.viewportTop ≤ s5.viewportTop + removed := by
    have hcount : removed = s.lines.length + n - (s.physicalRows + s.scrollbackSize) := hremoved
    have hlen4' := hlen4 (by rw [hlen3, hlen2]; omega)
    replace hlen5 : s5.lines.length = s4.lines.length + (n - min removed n) := hlen5
    unfold viewportTop
    rw [hrows5, hlen5, hlen4', hlen3, hlen2]
    omega
  obtain ⟨hfront, hlen, hframe⟩ := front_touchBelow htouch hfront5 (by rw [hleft]; omega)
  have htop : s'.viewportTop = s5.viewportTop := by
    unfold viewportTop
    rw [hlen, hframe]
  refine goesOn_of_front removed ?_ ?_ hfront (htop ▸ htop5)
  · rw [hframe, hscreen5]
  · rw [hframe, hscreen5]

/-- **Scrolling up** takes from the scrollback only its oldest lines. -/
theorem scrollUp_goesOn (hallow : s.allowScrollback = true)
    (h : s.scrollUp region numRows seqno attr bidi = .ok s') : s.GoesOn s' := by
  obtain ⟨s1, s2, s3, s4, s5, n, ok, atEnd, removed, at0, hn, hok, -, hremoved, hat0, h1, h2, h3,
    h4, h5, h6⟩ := scrollUp_stages h
  have hheight : n ≤ s.physRow region.stop - s.physRow region.start := by
    rw [hn]
    exact Nat.min_le_right _ _
  by_cases hstart : region.start = 0
  · have htrue : ok = true := by rw [hok, hallow, hstart]; rfl
    rw [htrue] at h1 h5 hremoved
    rw [if_pos hstart] at h2 hat0
    cases h1
    subst hat0
    rw [if_pos ⟨rfl, rfl⟩] at h5
    exact scrollOff_goesOn hremoved (s.viewportTop_le_physRow _) h2 h3 h4 h5 h6
  · have hfalse : ok = false := by rw [hok, decide_eq_false hstart, Bool.false_and]
    rw [hfalse] at h1 h5 hremoved
    rw [if_neg hstart] at h2 hat0
    cases h2
    -- what is taken away comes in again: the rest of the stages do nothing
    obtain rfl : removed = n := hremoved
    rw [Nat.min_self] at h3 h4 h5 h6
    rw [Nat.sub_self] at h4 h5 h6
    cases h4
    rw [if_neg (by simp)] at h5
    cases h5
    rw [if_neg (by simp)] at h6
    cases h6
    rw [hat0] at h3
    exact moveRegion_goesOn h1 h3 hheight (s.viewportTop_le_physRow _)

theorem scrollDown_goesOn (h : s.scrollDown region numRows seqno attr bidi = .ok s') :
    s.GoesOn s' := by
  unfold scrollDown at h
  dsimp only [physRange] at h
  have ha := s.viewportTop_le_physRow region.start
  generalize s.physRow region.start = a at h ha
  generalize s.physRow region.stop = b at h
  split at h
  · cases h
  · obtain ⟨s1, h1, h⟩ := bind_eq_ok.mp h
    obtain ⟨s2, h2, h3⟩ := bind_eq_ok.mp h
    generalize hn : min numRows (b - a) = n at h1 h2 h3
    have ha' : s.above.length ≤ a := by
      rw [length_above]
      exact ha
    obtain ⟨hframe1, hlen1, -⟩ := rowsFrom_modify (f := (·.updateLastChangeSeqno seqno)) h1
    obtain ⟨hframe2, -⟩ := rounds_removeLine h2
    obtain ⟨hframe3, hlen3, -⟩ := rounds_addLine h3
    have hfront1 := front_rowsFrom (f := (·.updateLastChangeSeqno seqno)) h1 s.above_prefix ha'
    obtain ⟨hfront2, hlen2⟩ := front_removeLines h2 hfront1 (by omega)
    have hfront3 := front_addLines h3 hfront2 ha'
    have hscreen : s' = { s with lines := s'.lines } := by rw [hframe3, hframe2, hframe1]
    refine goesOn_of_front 0 ?_ ?_ hfront3 ?_
    · rw [hscreen]
    · rw [hscreen]
      rfl
    · have hrows : s'.physicalRows = s.physicalRows := by rw [hscreen]
      unfold viewportTop
      omega

theorem eraseScrollback_goesOn (hallow : s.allowScrollback = true)
    (h : s.eraseScrollback = .ok s') : s.GoesOn s' := by
  unfold eraseScrollback at h
  by_cases hfew : s.lines.length < s.physicalRows
  · rw [if_pos hfew] at h
    cases h
  · rw [if_neg hfew] at h
    cases h
    refine goesOn_of_front s.viewportTop rfl ?_ ?_ (Nat.le_add_left _ _)
    · show s.stableRowIndexOffset + (if s.allowScrollback then _ else 0) = _
      rw [if_pos hallow]
      rfl
    · rw [List.drop_eq_nil_of_le (by rw [length_above])]
      exact List.nil_prefix

end Operations

/-! ## Runs -/

/-- The operations that leave the size of the screen as it is, on whole rows; between them the
configuration may allow for more lines or for less. -/
inductive RowOp where
  | scrollUp (region : Span Int) (numRows : Nat) (blankAttr : CellAttributes)
      (bidiMode : BidiMode)
  | scrollDown (region : Span Int) (numRows : Nat) (blankAttr : CellAttributes)
      (bidiMode : BidiMode)
  | setCell (x : Nat) (y : Int) (cell : Cell)
  | setCellGrapheme (x : Nat) (y : Int) (text : Text) (wide : Bool) (attr : CellAttributes)
  | insertCell (x : Nat) (y : Int) (rightMargin : Nat)
  | eraseCell (x : Nat) (y : Int) (rightMargin : Nat) (blankAttr : CellAttributes)
  | clearLine (y : Int) (cols : Span Nat) (attr : CellAttributes) (bidiMode : BidiMode)
  | eraseScrollback
  | configure (scrollback : Nat)

/-- One operation. -/
def rowStep (graphemes : Graphemes) (s : Screen) (seqno : Nat) : RowOp → Except Panic Screen
  | .scrollUp region n attr bidi => s.scrollUp region n seqno attr bidi
  | .scrollDown region n attr bidi => s.scrollDown region n seqno attr bidi
  | .setCell x y cell => s.setCell graphemes x y cell seqno
  | .setCellGrapheme x y text wide attr => s.setCellGrapheme graphemes x y text wide attr seqno
  | .insertCell x y rightMargin => s.insertCell graphemes x y rightMargin seqno
  | .eraseCell x y rightMargin attr => s.eraseCell graphemes x y rightMargin seqno attr
  | .clearLine y cols attr bidi => s.clearLine graphemes y cols attr seqno bidi
  | .eraseScrollback => s.eraseScrollback
  | .configure scrollback => .ok { s with configuredScrollback := scrollback }

/-- Operations one after the other, each with its sequence number. -/
def rowRun (graphemes : Graphemes) : Screen → List (RowOp × Nat) → Except Panic Screen
  | s, [] => .ok s
  | s, (op, seqno) :: ops => s.rowStep graphemes seqno op >>= fun s => s.rowRun graphemes ops

section Runs

variable {graphemes : Graphemes} {s s' : Screen}

theorem rowStep_goesOn {seqno : Nat} {op : RowOp} (hallow : s.allowScrollback = true)
    (h : s.rowStep graphemes seqno op = .ok s') : s.GoesOn s' := by
  cases op with
  | scrollUp region n attr bidi => exact scrollUp_goesOn hallow h
  | scrollDown region n attr bidi => exact scrollDown_goesOn h
  | setCell x y cell => exact modifyLine_goesOn h (s.viewportTop_le_physRow y)
  | setCellGrapheme x y text wide attr => exact modifyLine_goesOn h (s.viewportTop_le_physRow y)
  | insertCell x y rightMargin => exact modifyLine_goesOn h (s.viewportTop_le_physRow y)
  | eraseCell x y rightMargin attr => exact modifyLine_goesOn h (s.viewportTop_le_physRow y)
  | clearLine y cols attr bidi => exact modifyLine_goesOn h (s.viewportTop_le_physRow y)
  | eraseScrollback => exact eraseScrollback_goesOn hallow h
  | configure scrollback =>
    cases h
    exact ⟨.refl _, rfl⟩

/-- A run, by induction on its operations. -/
theorem rowRun_goesOn {ops : List (RowOp × Nat)} (hallow : s.allowScrollback = true)
    (h : s.rowRun graphemes ops = .ok s') : s.GoesOn s' := by
  induction ops generalizing s with
  | nil =>
    obtain rfl := Except.ok.inj h
    exact .refl s
  | cons op ops ih =>
    obtain ⟨op, seqno⟩ := op
    obtain ⟨s1, h1, h2⟩ := bind_eq_ok.mp h
    have hfirst := rowStep_goesOn hallow h1
    exact hfirst.trans (ih (hfirst.allowScrollback.trans hallow) h2)

end Runs

end Screen

end Wakterm.Term
