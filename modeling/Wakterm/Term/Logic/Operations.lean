import Wakterm.Term.Logic.Scroll

/-!
# The operations of a screen

Each operation that writes to a screen keeps what it does not mark.
-/

namespace Wakterm.Term

open Wakterm.Machine

variable {graphemes : Graphemes} {seqno : Nat} {s s' : Screen}

variable {x rightMargin oldCols physIdx cols cursorX cursorY : Nat} {lines : List Line}
  {line : Line}

theorem Screen.setCell_kept {y : Int} {cell : Cell}
    (h : s.setCell graphemes x y cell seqno = .ok s') : Kept graphemes seqno s s' := by
  refine (modifyLine_pointwise h ?_).toKept
  intro line line' _ hline
  cases hline
  exact .inl (Nat.le_trans (Nat.le_max_right _ _) (Line.seqno_setCellImpl line seqno x cell false))

theorem Screen.insertCell_kept {y : Int} (h : s.insertCell graphemes x y rightMargin seqno = .ok s')
    : Kept graphemes seqno s s' := by
  refine (modifyLine_pointwise h ?_).toKept
  intro line line' _ hline
  obtain ⟨inserted, hinserted, rfl⟩ := map_eq_ok.mp hline
  have hnew := Line.seqno_insertCell hinserted
  left
  split
  · exact Nat.le_trans hnew (Nat.le_max_left _ _)
  · exact hnew

theorem Screen.eraseCell_kept {y : Int} {attr : CellAttributes}
    (h : s.eraseCell graphemes x y rightMargin seqno attr = .ok s') :
    Kept graphemes seqno s s' := by
  refine (modifyLine_pointwise h ?_).toKept
  intro line line' _ hline
  exact .inl (Line.seqno_eraseCellWithMargin hline)

theorem Screen.clearLine_kept {y : Int} {cols : Span Nat} {attr : CellAttributes}
    {bidi : BidiMode} (h : s.clearLine graphemes y cols attr seqno bidi = .ok s') :
    Kept graphemes seqno s s' := by
  refine (modifyLine_pointwise h ?_).toKept
  intro line line' _ hline
  cases hline
  split
  · left
    refine Nat.le_trans ?_ (Line.seqno_fillRange _ _ _ _ _ _)
    exact Nat.le_max_right _ _
  · rcases Line.fillRange_kept graphemes line cols.start cols.stop (.blankWithAttrs attr) seqno
      with hnew | hsame
    · exact .inl hnew
    · right
      rw [hsame]
      exact ⟨rfl, rfl⟩

theorem Screen.popBlank_at {n i : Nat} (h : At (popBlank graphemes n lines) i line) :
    At lines i line := by
  induction n generalizing lines with
  | zero => exact h
  | succ n ih =>
    rw [popBlank] at h
    split at h
    · have hat := ih h
      unfold At at hat ⊢
      rw [List.getElem?_dropLast] at hat
      split at hat
      · exact hat
      · cases hat
    · exact ih h

theorem Screen.mem_popExcess {capacity : Nat} (h : line ∈ popExcess graphemes capacity lines) :
    line ∈ lines := by
  induction lines with
  | nil => exact h
  | cons last lines ih =>
    rw [popExcess] at h
    split at h
    · exact List.mem_cons_of_mem _ (ih h)
    · exact h

/-- All lines are new, also the one that is still open. -/
def Rewrap.Fresh (seqno : Nat) (r : Rewrap) : Prop :=
  (∀ line ∈ r.rewrapped, seqno ≤ line.seqno) ∧ ∀ line, r.logicalLine = some line →
    seqno ≤ line.seqno

theorem seqno_joinLine (graphemes : Graphemes) (seqno : Nat) (prior : Option Line)
    (line : Line) :
    seqno ≤ (joinLine graphemes seqno prior (unmarkWrapped graphemes seqno line)).seqno := by
  cases prior with
  | none =>
    show seqno ≤ (unmarkWrapped graphemes seqno line).seqno
    unfold unmarkWrapped
    dsimp only
    split
    · rw [Line.seqno_setLastCellWasWrapped]
      exact Nat.le_max_right _ _
    · exact Nat.le_max_right _ _
  | some prior =>
    show seqno ≤ (prior.appendLine graphemes _ seqno).seqno
    rw [Line.seqno_appendLine]
    exact Nat.le_max_right _ _

theorem rewrapLine_fresh {r : Rewrap} (h : r.Fresh seqno) :
    (rewrapLine graphemes cols oldCols cursorX cursorY seqno r physIdx line).Fresh seqno := by
  have hjoined := seqno_joinLine graphemes seqno r.logicalLine line
  unfold rewrapLine
  dsimp only
  split
  · refine ⟨h.1, ?_⟩
    intro l hl
    cases hl
    exact hjoined
  · refine ⟨?_, fun l hl => by cases hl⟩
    intro l hl
    rcases List.mem_append.mp hl with hl | hl
    · exact h.1 l hl
    · unfold splitLine at hl
      split at hl
      · rw [List.mem_singleton.mp hl]
        exact hjoined
      · exact Line.seqno_wrap hjoined hl

theorem rewrapFrom_fresh {r : Rewrap} (h : r.Fresh seqno) :
    (rewrapFrom graphemes cols oldCols cursorX cursorY seqno r physIdx lines).Fresh seqno := by
  induction lines generalizing r physIdx with
  | nil => exact h
  | cons line lines ih => exact ih (rewrapLine_fresh h)

theorem Screen.rewrapLines_new {rows : Nat}
    (h : line ∈ (s.rewrapLines graphemes cols rows cursorX cursorY seqno).1.lines) :
    seqno ≤ line.seqno := by
  have hstart : Rewrap.Fresh seqno ⟨[], none, none, (cursorX, cursorY)⟩ :=
    ⟨fun l hl => absurd hl List.not_mem_nil, fun l hl => by cases hl⟩
  have hmem := mem_popExcess (List.mem_reverse.mp h)
  exact (rewrapFrom_fresh hstart).1 line (List.mem_reverse.mp hmem)

theorem Screen.reflow_kept (seqno cols rows cursorX cursorY : Nat) :
    Kept graphemes seqno s (s.reflow graphemes cols rows cursorX cursorY seqno).1 := by
  unfold reflow
  split
  · split
    · intro i line hline
      exact .inl (rewrapLines_new (List.mem_of_getElem? hline))
    · intro i line hline
      left
      obtain ⟨old, -, rfl⟩ := List.mem_map.mp (List.mem_of_getElem? hline)
      split
      · exact Nat.le_max_right _ _
      · exact Nat.le_max_right _ _
  · exact Kept.refl s

theorem Screen.padLines_kept (seqno n : Nat) : Kept graphemes seqno s (s.padLines n seqno) := by
  intro i line hline
  unfold At padLines at hline
  dsimp only at hline
  rw [List.getElem?_append] at hline
  split at hline
  · exact .inr ⟨i, line, hline, rfl, rfl, rfl⟩
  · left
    rw [List.eq_of_mem_replicate (List.mem_of_getElem? hline)]
    exact Nat.le_refl _

theorem Screen.resize_kept {size : TerminalSize} {cursor : CursorPosition} {isConpty : Bool} :
    Kept graphemes seqno s (s.resize graphemes size cursor seqno isConpty).1 := by
  unfold resize
  dsimp only
  split
  · exact Kept.refl s
  · have hpop : Kept graphemes seqno s { s with
        dpi := size.dpi
        lines := popBlank graphemes (s.lines.length - (s.physRow cursor.y + 1)) s.lines } :=
      fun i line hline => .inr ⟨i, line, popBlank_at hline, rfl, rfl, rfl⟩
    have hflow := hpop.trans (reflow_kept seqno (max size.cols 1) (max size.rows 1) cursor.x
      (s.physRow cursor.y)) (Nat.le_refl _) (Nat.le_refl _)
    have hpad := fun n => hflow.trans (padLines_kept seqno n) (Nat.le_refl _) (Nat.le_refl _)
    split
    · have hpad' := fun n m =>
        (hpad n).trans (padLines_kept seqno m) (Nat.le_refl _) (Nat.le_refl _)
      exact hpad' _ _
    · exact hpad _

/-- The operations that write to a screen. -/
inductive ScreenOp where
  | setCell (x : Nat) (y : Int) (cell : Cell)
  | insertCell (x : Nat) (y : Int) (rightMargin : Nat)
  | eraseCell (x : Nat) (y : Int) (rightMargin : Nat) (blankAttr : CellAttributes)
  | clearLine (y : Int) (cols : Span Nat) (attr : CellAttributes) (bidiMode : BidiMode)
  | scrollUp (region : Span Int) (numRows : Nat) (blankAttr : CellAttributes)
      (bidiMode : BidiMode)
  | scrollDown (region : Span Int) (numRows : Nat) (blankAttr : CellAttributes)
      (bidiMode : BidiMode)
  | scrollUpWithinMargins (region : Span Int) (margins : Span Nat) (numRows : Nat)
      (blankAttr : CellAttributes) (bidiMode : BidiMode)
  | scrollDownWithinMargins (region : Span Int) (margins : Span Nat) (numRows : Nat)
      (blankAttr : CellAttributes) (bidiMode : BidiMode)
  | eraseScrollback
  | resize (size : TerminalSize) (cursor : CursorPosition) (isConpty : Bool)

/-- One operation. -/
def Screen.step (graphemes : Graphemes) (s : Screen) (seqno : Nat) :
    ScreenOp → Except Panic Screen
  | .setCell x y cell => s.setCell graphemes x y cell seqno
  | .insertCell x y rightMargin => s.insertCell graphemes x y rightMargin seqno
  | .eraseCell x y rightMargin attr => s.eraseCell graphemes x y rightMargin seqno attr
  | .clearLine y cols attr bidi => s.clearLine graphemes y cols attr seqno bidi
  | .scrollUp region n attr bidi => s.scrollUp region n seqno attr bidi
  | .scrollDown region n attr bidi => s.scrollDown region n seqno attr bidi
  | .scrollUpWithinMargins region margins n attr bidi =>
    s.scrollUpWithinMargins graphemes region margins n seqno attr bidi
  | .scrollDownWithinMargins region margins n attr bidi =>
    s.scrollDownWithinMargins graphemes region margins n seqno attr bidi
  | .eraseScrollback => s.eraseScrollback
  | .resize size cursor isConpty => .ok (s.resize graphemes size cursor seqno isConpty).1

/-- Operations one after the other, each with its sequence number. -/
def Screen.run (graphemes : Graphemes) : Screen → List (ScreenOp × Nat) → Except Panic Screen
  | s, [] => .ok s
  | s, (op, seqno) :: ops => s.step graphemes seqno op >>= fun s => s.run graphemes ops

/-- Is the operation one that marks what it changes? All are, but for those that take lines away
at the top without counting them, or move lines below a region that they do not mark. -/
def Screen.Marks (graphemes : Graphemes) (s : Screen) : ScreenOp → Prop
  | .scrollUp region n _ _ => s.Settled graphemes region (s.scrolledRows region n)
  | .scrollUpWithinMargins region margins n _ _ =>
    margins.start = 0 ∧ margins.stop = s.physicalCols →
      s.Settled graphemes region (s.scrolledRows region n)
  | .eraseScrollback => s.allowScrollback = false → s.lines.length ≤ s.physicalRows
  | _ => True

/-- Each operation of the run marks what it changes in the screen that it comes to. -/
def Screen.RunMarks (graphemes : Graphemes) : Screen → List (ScreenOp × Nat) → Prop
  | _, [] => True
  | s, (op, seqno) :: ops => s.Marks graphemes op ∧
      ∀ s', s.step graphemes seqno op = .ok s' → s'.RunMarks graphemes ops

theorem Screen.step_kept {op : ScreenOp} (h : s.step graphemes seqno op = .ok s')
    (hmarks : s.Marks graphemes op) : Kept graphemes seqno s s' := by
  cases op with
  | setCell x y cell => exact setCell_kept h
  | insertCell x y rightMargin => exact insertCell_kept h
  | eraseCell x y rightMargin attr => exact eraseCell_kept h
  | clearLine y cols attr bidi => exact clearLine_kept h
  | scrollUp region n attr bidi => exact scrollUp_kept h hmarks
  | scrollDown region n attr bidi => exact scrollDown_kept h
  | scrollUpWithinMargins region margins n attr bidi => exact scrollUpWithinMargins_kept h hmarks
  | scrollDownWithinMargins region margins n attr bidi => exact scrollDownWithinMargins_kept h
  | eraseScrollback => exact eraseScrollback_kept h hmarks
  | resize size cursor isConpty =>
    cases h
    exact resize_kept

theorem Screen.run_kept {seen : Nat} {ops : List (ScreenOp × Nat)}
    (h : s.run graphemes ops = .ok s') (hseqno : ∀ op ∈ ops, seen ≤ op.2)
    (hmarks : s.RunMarks graphemes ops) : Kept graphemes seen s s' := by
  induction ops generalizing s with
  | nil =>
    obtain rfl := Except.ok.inj h
    exact Kept.refl s
  | cons op ops ih =>
    obtain ⟨op, seqno⟩ := op
    obtain ⟨s1, h1, h2⟩ := bind_eq_ok.mp h
    have hrest := ih h2 (fun o ho => hseqno o (List.mem_cons_of_mem _ ho)) (hmarks.2 s1 h1)
    exact (step_kept h1 hmarks.1).trans hrest (hseqno _ List.mem_cons_self) (Nat.le_refl _)

end Wakterm.Term
