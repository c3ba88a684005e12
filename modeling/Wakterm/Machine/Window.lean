import Mathlib.Data.List.Nodup

/-!
# Paging through a numbered sequence

A sequence whose entries carry increasing numbers is read in pages: at most `n` entries past a
cursor, and the number of the last of them is the next cursor.
-/

namespace Wakterm.Machine

variable {α : Type*} (seq : α → Nat)

def Increasing (l : List α) : Prop := l.Pairwise fun x y => seq x < seq y

/-- The entries past `a`. -/
def past (l : List α) (a : Nat) : List α := l.filter fun x => decide (a < seq x)

/-- The entries past `a` and up to `b`. -/
def window (l : List α) (a b : Nat) : List α :=
  l.filter fun x => decide (a < seq x ∧ seq x ≤ b)

/-- The cursor behind a page that was read from `a`. -/
def nextCursor (page : List α) (a : Nat) : Nat := (page.getLast?.map seq).getD a

variable {seq} {l m : List α} {a b c n : Nat}

variable {x : α}

theorem mem_past : x ∈ past seq l a ↔ x ∈ l ∧ a < seq x := by
  simp [past]

theorem mem_window : x ∈ window seq l a b ↔ x ∈ l ∧ a < seq x ∧ seq x ≤ b := by
  simp [window]

theorem Increasing.window (h : Increasing seq l) (a b : Nat) : Increasing seq (window seq l a b) :=
  h.sublist List.filter_sublist

theorem Increasing.past (h : Increasing seq l) (a : Nat) : Increasing seq (past seq l a) :=
  h.sublist List.filter_sublist

theorem Increasing.nodup (h : Increasing seq l) : l.Nodup := by
  refine h.imp ?_
  intro x y hxy heq
  rw [heq] at hxy
  exact Nat.lt_irrefl _ hxy

theorem Increasing.concat (h : Increasing seq l) (hx : ∀ y ∈ l, seq y < seq x) :
    Increasing seq (l ++ [x]) := by
  refine List.pairwise_append.mpr ⟨h, List.pairwise_singleton _ _, ?_⟩
  intro y hy z hz
  rw [List.mem_singleton] at hz
  subst hz
  exact hx y hy

theorem window_append_left (l m : List α) (a b : Nat) :
    window seq (l ++ m) a b = window seq l a b ++ window seq m a b :=
  List.filter_append ..

theorem past_append (l m : List α) (a : Nat) : past seq (l ++ m) a = past seq l a ++ past seq m a :=
  List.filter_append ..

theorem window_concat_of_not (h : ¬ (a < seq x ∧ seq x ≤ b)) :
    window seq (l ++ [x]) a b = window seq l a b := by
  rw [window_append_left]
  simp [window, h]

theorem past_concat_of_lt (h : a < seq x) : past seq (l ++ [x]) a = past seq l a ++ [x] := by
  rw [past_append]
  simp [past, h]

theorem past_past (h : a ≤ b) : past seq (past seq l a) b = past seq l b := by
  unfold past
  rw [List.filter_filter]
  apply List.filter_congr
  intro x _
  by_cases hb : b < seq x
  · simp [hb, Nat.lt_of_le_of_lt h hb]
  · simp [hb]

theorem window_append_window (h : Increasing seq l) (hab : a ≤ b) (hbc : b ≤ c) :
    window seq l a b ++ window seq l b c = window seq l a c := by
  induction l with
  | nil => rfl
  | cons x xs ih =>
    obtain ⟨hx, hxs⟩ := List.pairwise_cons.mp h
    have ih := ih hxs
    -- Past the meeting point the first window is over.
    have hnil : b < seq x → window seq xs a b = [] := by
      intro hlt
      unfold window
      rw [List.filter_eq_nil_iff]
      intro y hy
      have := hx y hy
      simp only [decide_eq_true_eq]
      omega
    unfold window at ih hnil ⊢
    simp only [List.filter_cons, decide_eq_true_eq]
    by_cases h₁ : seq x ≤ a
    · rw [if_neg (by omega), if_neg (by omega), if_neg (by omega)]
      exact ih
    · by_cases h₂ : seq x ≤ b
      · rw [if_pos (by omega), if_neg (by omega), if_pos (by omega), List.cons_append, ih]
      · rw [hnil (by omega), List.nil_append] at ih
        rw [if_neg (by omega), hnil (by omega), List.nil_append]
        by_cases h₃ : seq x ≤ c
        · rw [if_pos (by omega), if_pos (by omega), ih]
        · rw [if_neg (by omega), if_neg (by omega), ih]

theorem take_eq_filter_le (h : Increasing seq l) (ha : ∀ x ∈ l, a < seq x) (n : Nat) :
    l.take n = l.filter fun x => decide (seq x ≤ nextCursor seq (l.take n) a) := by
  induction l generalizing a n with
  | nil => simp
  | cons x xs ih =>
    obtain ⟨hx, hxs⟩ := List.pairwise_cons.mp h
    cases n with
    | zero =>
      symm
      show List.filter _ _ = []
      rw [List.filter_eq_nil_iff]
      intro y hy
      have := ha y hy
      have hcur : nextCursor seq ((x :: xs).take 0) a = a := rfl
      rw [hcur, decide_eq_true_eq]
      omega
    | succ n =>
      have hnext : nextCursor seq ((x :: xs).take (n + 1)) a =
          nextCursor seq (xs.take n) (seq x) := by
        unfold nextCursor
        rw [List.take_succ_cons, List.getLast?_cons]
        cases (xs.take n).getLast? <;> rfl
      have hle : seq x ≤ nextCursor seq (xs.take n) (seq x) := by
        unfold nextCursor
        cases hlast : (xs.take n).getLast? with
        | none => exact Nat.le_refl _
        | some y =>
          have := hx y (List.mem_of_mem_take (List.mem_of_getLast? hlast))
          exact Nat.le_of_lt this
      rw [hnext, List.take_succ_cons, List.filter_cons, if_pos (by simpa using hle)]
      congr 1
      exact ih hxs hx n

/-- **A page is the window from its cursor to the next one.** -/
theorem page_eq_window (h : Increasing seq l) (a n : Nat) :
    (past seq l a).take n = window seq l a (nextCursor seq ((past seq l a).take n) a) := by
  have hpage := take_eq_filter_le (h.past a) (fun x hx => (mem_past.mp hx).2) n
  conv_lhs => rw [hpage]
  unfold window past
  rw [List.filter_filter]
  apply List.filter_congr
  intro x _
  simp only [Bool.decide_and, Bool.and_comm]

theorem le_nextCursor (seq : α → Nat) (l : List α) (a n : Nat) :
    a ≤ nextCursor seq ((past seq l a).take n) a := by
  unfold nextCursor
  cases hlast : ((past seq l a).take n).getLast? with
  | none => exact Nat.le_refl _
  | some x =>
    have hx := List.mem_of_mem_take (List.mem_of_getLast? hlast)
    exact Nat.le_of_lt (mem_past.mp hx).2

theorem nextCursor_eq_or_mem (seq : α → Nat) (l : List α) (a n : Nat) :
    nextCursor seq ((past seq l a).take n) a = a ∨
      ∃ x ∈ l, nextCursor seq ((past seq l a).take n) a = seq x := by
  unfold nextCursor
  cases hlast : ((past seq l a).take n).getLast? with
  | none => exact .inl rfl
  | some x =>
    have hx := List.mem_of_mem_take (List.mem_of_getLast? hlast)
    exact .inr ⟨x, (mem_past.mp hx).1, rfl⟩

theorem length_window_nextCursor_lt (h : Increasing seq l) (hx : x ∈ l) (hax : a < seq x)
    (hn : 0 < n) (hnext : nextCursor seq ((past seq l a).take n) a < seq x) :
    (window seq l (nextCursor seq ((past seq l a).take n) a) (seq x)).length <
      (window seq l a (seq x)).length := by
  have hjoin := window_append_window h (le_nextCursor seq l a n) (Nat.le_of_lt hnext)
  rw [← hjoin, List.length_append, ← page_eq_window h]
  have hmem : x ∈ past seq l a := mem_past.mpr ⟨hx, hax⟩
  have hpos : 0 < (past seq l a).length := List.length_pos_of_mem hmem
  rw [List.length_take]
  omega

end Wakterm.Machine
