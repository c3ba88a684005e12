import Mathlib.Data.List.Basic

/-!
# An ordered index

A collection of references kept in the order of a key that is read from what they refer to, as an
intrusive search tree keeps them.
-/

namespace Wakterm.Machine

/-- An insertion into a sequence ordered by `key`, and what it promises. -/
structure OrderedIndex where
  insert : (key : Nat → Nat) → Nat → List Nat → List Nat
  insert_perm : ∀ key p l, (insert key p l).Perm (p :: l)
  insert_sorted : ∀ key p l, l.Pairwise (fun a b => key a ≤ key b) →
    (insert key p l).Pairwise (fun a b => key a ≤ key b)

namespace OrderedIndex

/-- Behind all that have the same key. -/
def insertLast (key : Nat → Nat) (p : Nat) : List Nat → List Nat
  | [] => [p]
  | q :: qs => if key p < key q then p :: q :: qs else q :: insertLast key p qs

theorem insertLast_perm (key : Nat → Nat) (p : Nat) (l : List Nat) :
    (insertLast key p l).Perm (p :: l) := by
  induction l with
  | nil => exact List.Perm.refl _
  | cons q qs ih =>
    unfold insertLast
    split
    · exact List.Perm.refl _
    · exact (List.Perm.cons q ih).trans (List.Perm.swap p q qs)

theorem insertLast_sorted (key : Nat → Nat) (p : Nat) (l : List Nat)
    (h : l.Pairwise fun a b => key a ≤ key b) :
    (insertLast key p l).Pairwise fun a b => key a ≤ key b := by
  induction l with
  | nil => exact List.pairwise_singleton _ _
  | cons q qs ih =>
    obtain ⟨hq, hqs⟩ := List.pairwise_cons.mp h
    unfold insertLast
    split
    · rename_i hlt
      refine List.pairwise_cons.mpr ⟨?_, h⟩
      intro x hx
      rcases List.mem_cons.mp hx with rfl | hx
      · omega
      · have := hq x hx
        omega
    · refine List.pairwise_cons.mpr ⟨?_, ih hqs⟩
      intro x hx
      rcases List.mem_cons.mp ((insertLast_perm key p qs).mem_iff.mp hx) with rfl | hx
      · omega
      · exact hq x hx

/-- An index that keeps equal keys in the order of insertion. -/
def stable : OrderedIndex where
  insert := insertLast
  insert_perm := insertLast_perm
  insert_sorted := insertLast_sorted

end OrderedIndex

end Wakterm.Machine

/-!
## Binary search over a list

Rust's `slice::binary_search_by`: a loop halves the part in which the last element that is not too
great can be, and one more comparison decides.
-/

namespace Wakterm.Machine

variable {α : Type}

/-- The loop, with fuel for its rounds: `base` is where the part of `size`
elements begins that is still to be searched. -/
def searchLoop (f : α → Option Ordering) (l : List α) : Nat → Nat → Nat → Option Nat
  | 0, _, _ => none
  | fuel + 1, size, base =>
    if 1 < size then do
      let half := size / 2
      let mid := base + half
      let x ← l[mid]?
      let cmp ← f x
      searchLoop f l fuel (size - half) (if cmp = .gt then base else mid)
    else some base

def binarySearchBy (f : α → Option Ordering) (l : List α) : Option (Except Nat Nat) :=
  if l.length = 0 then some (.error 0)
  else do
    let base ← searchLoop f l l.length l.length 0
    let x ← l[base]?
    let cmp ← f x
    match cmp with
    | .eq => some (.ok base)
    | .lt => some (.error (base + 1))
    | .gt => some (.error base)

section Search

variable {f : α → Option Ordering} {cmp : α → Ordering} {l : List α}

theorem searchLoop_bounds (hf : ∀ x ∈ l, f x = some (cmp x)) (fuel : Nat) :
    ∀ size base, size ≤ fuel → 0 < size → base + size ≤ l.length →
    ∃ b, searchLoop f l fuel size base = some b ∧ base ≤ b ∧ b < base + size := by
  induction fuel with
  | zero =>
    intro size base hfuel hsize
    omega
  | succ fuel ih =>
    intro size base hfuel hsize hlen
    unfold searchLoop
    by_cases hone : 1 < size
    · have hmid : base + size / 2 < l.length := by omega
      have hx := hf _ (List.getElem_mem hmid)
      simp only [if_pos hone, List.getElem?_eq_getElem hmid, Option.bind_eq_bind,
        Option.bind_some, hx]
      split_ifs
      · obtain ⟨b, hrun, hb⟩ := ih (size - size / 2) base (by omega) (by omega) (by omega)
        exact ⟨b, hrun, by omega, by omega⟩
      · obtain ⟨b, hrun, hb⟩ := ih (size - size / 2) (base + size / 2) (by omega) (by omega)
          (by omega)
        exact ⟨b, hrun, by omega, by omega⟩
    · rw [if_neg hone]
      exact ⟨base, rfl, Nat.le_refl base, by omega⟩

theorem searchLoop_append {low high : List α}
    (hf : ∀ x ∈ low ++ high, f x = some (cmp x)) (hlow : ∀ x ∈ low, cmp x ≠ .gt)
    (hhigh : ∀ x ∈ high, cmp x = .gt) (fuel : Nat) :
    ∀ size base, size ≤ fuel → 0 < size → base + size ≤ (low ++ high).length →
    base < low.length ∨ base = 0 → low.length ≤ base + size →
    searchLoop f (low ++ high) fuel size base = some (low.length - 1) := by
  induction fuel with
  | zero =>
    intro size base hfuel hsize
    omega
  | succ fuel ih =>
    intro size base hfuel hsize hlen hbase hreach
    unfold searchLoop
    by_cases hone : 1 < size
    · have hmid : base + size / 2 < (low ++ high).length := by omega
      have hx := hf _ (List.getElem_mem hmid)
      simp only [if_pos hone, List.getElem?_eq_getElem hmid, Option.bind_eq_bind,
        Option.bind_some, hx]
      by_cases hlt : base + size / 2 < low.length
      · have hcmp : cmp (low ++ high)[base + size / 2] ≠ .gt := by
          rw [List.getElem_append_left hlt]
          exact hlow _ (List.getElem_mem hlt)
        rw [if_neg hcmp]
        exact ih _ _ (by omega) (by omega) (by omega) (.inl hlt) (by omega)
      · have hcmp : cmp (low ++ high)[base + size / 2] = .gt := by
          rw [List.getElem_append_right (by omega)]
          exact hhigh _ (List.getElem_mem _)
        rw [if_pos hcmp]
        exact ih _ _ (by omega) (by omega) (by omega) hbase (by omega)
    · rw [if_neg hone, Option.some.injEq]
      omega

theorem binarySearchBy_bounds (hf : ∀ x ∈ l, f x = some (cmp x)) :
    ∃ res, binarySearchBy f l = some res ∧
      (∀ i, res = .ok i → i < l.length) ∧ ∀ i, res = .error i → i ≤ l.length := by
  unfold binarySearchBy
  by_cases hnil : l.length = 0
  · rw [if_pos hnil]
    refine ⟨_, rfl, nofun, ?_⟩
    rintro i ⟨⟩
    omega
  · obtain ⟨b, hrun, -, hb⟩ := searchLoop_bounds hf l.length l.length 0 (Nat.le_refl _) (by omega)
      (by omega)
    have hlt : b < l.length := by omega
    have hx := hf _ (List.getElem_mem hlt)
    simp only [if_neg hnil, hrun, List.getElem?_eq_getElem hlt, Option.bind_eq_bind,
      Option.bind_some, hx]
    cases cmp l[b] with
    | lt =>
      refine ⟨_, rfl, nofun, ?_⟩
      rintro i ⟨⟩
      exact hlt
    | eq =>
      refine ⟨_, rfl, ?_, nofun⟩
      rintro i ⟨⟩
      exact hlt
    | gt =>
      refine ⟨_, rfl, nofun, ?_⟩
      rintro i ⟨⟩
      exact Nat.le_of_lt hlt

/-- **The documented case**: the elements that are too great come last, and only
the last of the others can be equal. -/
theorem binarySearchBy_append {low high : List α}
    (hf : ∀ x ∈ low ++ high, f x = some (cmp x)) (hlow : ∀ x ∈ low, cmp x ≠ .gt)
    (hhigh : ∀ x ∈ high, cmp x = .gt) :
    binarySearchBy f (low ++ high) = some
      (match low.getLast? with
        | some x => if cmp x = .eq then .ok (low.length - 1) else .error low.length
        | none => .error 0) := by
  unfold binarySearchBy
  by_cases hnil : (low ++ high).length = 0
  · obtain ⟨rfl, rfl⟩ := List.append_eq_nil_iff.mp (List.length_eq_zero_iff.mp hnil)
    rfl
  · have hrun := searchLoop_append hf hlow hhigh (low ++ high).length (low ++ high).length 0
      (Nat.le_refl _) (by omega) (by omega) (.inr rfl) (by simp)
    rw [if_neg hnil, hrun]
    rcases List.eq_nil_or_concat low with rfl | ⟨init, x, rfl⟩
    · -- nothing is small enough: the first element is too great
      cases high with
      | nil => exact absurd rfl hnil
      | cons y high =>
        have hy := hf y (by simp)
        simp [hy, hhigh y (by simp)]
    · have hx := hf x (by simp)
      have hne := hlow x (by simp)
      cases hcmp : cmp x with
      | lt => simp [hx, hcmp]
      | eq => simp [hx, hcmp]
      | gt => exact absurd hcmp hne

end Search

end Wakterm.Machine
