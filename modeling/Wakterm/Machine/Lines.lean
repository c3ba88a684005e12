import Mathlib.Data.List.Basic

/-!
# Lines of a growing file

`splitLines` cuts a byte string behind each newline: the complete lines, each with its newline, and
the tail behind the last one.
-/

namespace Wakterm.Machine

def newline : UInt8 := 10

/-- A byte in front: of the first line, or of the tail if there is none. -/
def consByte (b : UInt8) : List (List UInt8) × List UInt8 → List (List UInt8) × List UInt8
  | ([], tail) => ([], b :: tail)
  | (line :: lines, tail) => ((b :: line) :: lines, tail)

/-- The complete lines, and what follows the last newline. -/
def splitLines : List UInt8 → List (List UInt8) × List UInt8
  | [] => ([], [])
  | b :: bytes =>
    if b = newline then ([newline] :: (splitLines bytes).1, (splitLines bytes).2)
    else consByte b (splitLines bytes)

/-- `take(limit)` and `read_until(b'\n')`: up to `limit` bytes, and not past a newline. -/
def readUntil : Nat → List UInt8 → List UInt8
  | 0, _ => []
  | _, [] => []
  | n + 1, b :: bytes => if b = newline then [b] else b :: readUntil n bytes

/-- `ends_with(b"\n")`. -/
def endsLine (bytes : List UInt8) : Bool := bytes.getLast? = some newline

/-- A line: nothing but its last byte is a newline. -/
def IsLine (line : List UInt8) : Prop := ∃ body, line = body ++ [newline] ∧ newline ∉ body

theorem splitLines_cons_newline (bytes : List UInt8) : splitLines (newline :: bytes) =
      ([newline] :: (splitLines bytes).1, (splitLines bytes).2) := if_pos rfl

theorem splitLines_cons {b : UInt8} (h : b ≠ newline) (bytes : List UInt8) :
    splitLines (b :: bytes) = consByte b (splitLines bytes) := if_neg h

/-- **A file that grows.** Its lines stay, and the tail is read again with what was appended. -/
theorem splitLines_append (bytes more : List UInt8) : splitLines (bytes ++ more) =
      ((splitLines bytes).1 ++ (splitLines ((splitLines bytes).2 ++ more)).1,
        (splitLines ((splitLines bytes).2 ++ more)).2) := by
  induction bytes with
  | nil => rfl
  | cons b bytes ih =>
    by_cases hb : b = newline
    · subst hb
      rw [List.cons_append, splitLines_cons_newline, ih, splitLines_cons_newline]
      rfl
    · rw [List.cons_append, splitLines_cons hb, splitLines_cons hb, ih]
      obtain ⟨lines, tail⟩ := splitLines bytes
      cases lines with
      | nil =>
        -- no line yet: the tail grows at its front
        show consByte b (splitLines (tail ++ more)) = splitLines (b :: (tail ++ more))
        rw [splitLines_cons hb]
      | cons line lines => rfl

theorem flatten_splitLines (bytes : List UInt8) :
    (splitLines bytes).1.flatten ++ (splitLines bytes).2 = bytes := by
  induction bytes with
  | nil => rfl
  | cons b bytes ih =>
    by_cases hb : b = newline
    · subst hb
      rw [splitLines_cons_newline]
      show newline :: ((splitLines bytes).1.flatten ++ (splitLines bytes).2) = newline :: bytes
      rw [ih]
    · rw [splitLines_cons hb]
      generalize splitLines bytes = split at ih ⊢
      obtain ⟨lines, tail⟩ := split
      cases lines with
      | nil => exact congrArg (b :: ·) ih
      | cons line lines => exact congrArg (b :: ·) ih

variable {line bytes : List UInt8}

theorem isLine_cons {b : UInt8} (hb : b ≠ newline) (h : IsLine line) : IsLine (b :: line) := by
  obtain ⟨body, rfl, hbody⟩ := h
  refine ⟨b :: body, rfl, ?_⟩
  rw [List.mem_cons, not_or]
  exact ⟨Ne.symm hb, hbody⟩

theorem isLine_splitLines (bytes : List UInt8) :
    (∀ line ∈ (splitLines bytes).1, IsLine line) ∧ newline ∉ (splitLines bytes).2 := by
  induction bytes with
  | nil => exact ⟨fun _ h => absurd h List.not_mem_nil, List.not_mem_nil⟩
  | cons b bytes ih =>
    obtain ⟨hlines, htail⟩ := ih
    by_cases hb : b = newline
    · subst hb
      rw [splitLines_cons_newline]
      refine ⟨?_, htail⟩
      intro line hline
      rcases List.mem_cons.mp hline with rfl | hline
      · exact ⟨[], rfl, List.not_mem_nil⟩
      · exact hlines line hline
    · rw [splitLines_cons hb]
      generalize splitLines bytes = split at hlines htail ⊢
      obtain ⟨lines, tail⟩ := split
      cases lines with
      | nil =>
        refine ⟨fun _ h => absurd h List.not_mem_nil, ?_⟩
        show newline ∉ b :: tail
        rw [List.mem_cons, not_or]
        exact ⟨Ne.symm hb, htail⟩
      | cons line lines =>
        refine ⟨?_, htail⟩
        intro l hl
        rcases List.mem_cons.mp hl with rfl | hl
        · exact isLine_cons hb (hlines line List.mem_cons_self)
        · exact hlines l (List.mem_cons_of_mem _ hl)

theorem splitLines_line (h : IsLine line) (more : List UInt8) :
    splitLines (line ++ more) = (line :: (splitLines more).1, (splitLines more).2) := by
  obtain ⟨body, rfl, hbody⟩ := h
  induction body with
  | nil => exact splitLines_cons_newline more
  | cons b body ih =>
    rw [List.mem_cons, not_or] at hbody
    rw [List.cons_append, List.cons_append, splitLines_cons (Ne.symm hbody.1), ih hbody.2]
    rfl

theorem splitLines_of_not_mem (h : newline ∉ bytes) : splitLines bytes = ([], bytes) := by
  induction bytes with
  | nil => rfl
  | cons b bytes ih =>
    rw [List.mem_cons, not_or] at h
    rw [splitLines_cons (Ne.symm h.1), ih h.2]
    rfl

theorem exists_line (h : newline ∈ bytes) : ∃ line more, IsLine line ∧ bytes = line ++ more := by
  obtain ⟨body, more, rfl, hbody⟩ := List.eq_append_cons_of_mem h
  refine ⟨body ++ [newline], more, ⟨body, rfl, hbody⟩, ?_⟩
  rw [List.append_assoc, List.singleton_append]

theorem IsLine.ne_nil (h : IsLine line) : line ≠ [] := by
  obtain ⟨body, rfl, -⟩ := h
  simp

theorem IsLine.drop (h : IsLine line) {n : Nat} (hn : n < line.length) : IsLine (line.drop n) := by
  obtain ⟨body, rfl, hbody⟩ := h
  rw [List.length_append, List.length_singleton] at hn
  refine ⟨body.drop n, List.drop_append_of_le_length (by omega), ?_⟩
  intro hmem
  exact hbody (List.mem_of_mem_drop hmem)

theorem readUntil_of_not_mem (h : newline ∉ bytes) (n : Nat) :
    readUntil n bytes = bytes.take n := by
  induction bytes generalizing n with
  | nil => cases n <;> rfl
  | cons b bytes ih =>
    rw [List.mem_cons, not_or] at h
    cases n with
    | zero => rfl
    | succ n =>
      rw [readUntil, if_neg (Ne.symm h.1), ih h.2, List.take_succ_cons]

theorem readUntil_line (h : IsLine line) (rest : List UInt8) (n : Nat) :
    readUntil n (line ++ rest) = line.take n := by
  obtain ⟨body, rfl, hbody⟩ := h
  induction body generalizing n with
  | nil =>
    cases n with
    | zero => rfl
    | succ n =>
      show (if newline = newline then [newline] else _) = _
      rw [if_pos rfl]
      simp
  | cons b body ih =>
    rw [List.mem_cons, not_or] at hbody
    cases n with
    | zero => rfl
    | succ n =>
      rw [List.cons_append, List.cons_append, readUntil, if_neg (Ne.symm hbody.1),
        ih n hbody.2, List.take_succ_cons]

theorem endsLine_take (h : IsLine line) (n : Nat) :
    endsLine (line.take n) = decide (line.length ≤ n) := by
  obtain ⟨body, rfl, hbody⟩ := h
  by_cases hn : (body ++ [newline]).length ≤ n
  · rw [List.take_of_length_le hn, decide_eq_true hn]
    simp [endsLine]
  · rw [decide_eq_false hn]
    rw [List.length_append, List.length_singleton] at hn
    rw [List.take_append_of_le_length (by omega)]
    simp only [endsLine, decide_eq_false_iff_not]
    intro hlast
    exact hbody (List.mem_of_mem_take (List.mem_of_getLast? hlast))

theorem endsLine_of_not_mem (h : newline ∉ bytes) : endsLine bytes = false := by
  simp only [endsLine, decide_eq_false_iff_not]
  intro hlast
  exact h (List.mem_of_getLast? hlast)

end Wakterm.Machine
