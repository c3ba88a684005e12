import Mathlib.Data.List.Nodup

/-!
# A cache that forgets what was not used

Entries under keys, the one used last in front.
-/

namespace Wakterm.Machine

/-- The cache: no key has two entries, and there are never more than fit. -/
structure Lru (K V : Type) where
  entries : List (K × V)
  capacity : Option Nat
  nodup : (entries.map Prod.fst).Nodup
  fits : ∀ n ∈ capacity, 0 < n ∧ entries.length ≤ n

namespace Lru

variable {K V : Type}

def empty (capacity : Option Nat) (h : ∀ n ∈ capacity, 0 < n) : Lru K V where
  entries := []
  capacity := capacity
  nodup := List.nodup_nil
  fits := fun n hn => ⟨h n hn, Nat.zero_le n⟩

/-- An empty cache that takes any number of entries. -/
def unbounded : Lru K V := empty none fun _ h => absurd h (by simp)

variable [DecidableEq K]

/-- The entry under a key. -/
def peek (c : Lru K V) (k : K) : Option V := (c.entries.find? fun e => e.1 = k).map Prod.snd

/-- The entries under other keys. -/
def others (c : Lru K V) (k : K) : List (K × V) := c.entries.filter fun e => e.1 ≠ k

theorem nodup_others (c : Lru K V) (k : K) : ((c.others k).map Prod.fst).Nodup :=
  c.nodup.sublist (List.filter_sublist.map _)

theorem not_mem_others (c : Lru K V) (k : K) : k ∉ (c.others k).map Prod.fst := by
  intro hk
  obtain ⟨e, he, rfl⟩ := List.mem_map.mp hk
  exact of_decide_eq_true (List.mem_filter.mp he).2 rfl

/-- The cache without the entry under a key. -/
def erase (c : Lru K V) (k : K) : Lru K V where
  entries := c.others k
  capacity := c.capacity
  nodup := c.nodup_others k
  fits := fun n hn => ⟨(c.fits n hn).1,
    Nat.le_trans (List.length_filter_le _ _) (c.fits n hn).2⟩

/-- `take` with the capacity. -/
def cut (capacity : Option Nat) (l : List (K × V)) : List (K × V) :=
  match capacity with
  | none => l
  | some n => l.take n

omit [DecidableEq K] in
theorem cut_sublist (capacity : Option Nat) (l : List (K × V)) : (cut capacity l).Sublist l := by
  cases capacity with
  | none => exact List.Sublist.refl l
  | some n => exact List.take_sublist n l

/-- The entry is put in front of the others. -/
def put (c : Lru K V) (k : K) (v : V) : Lru K V where
  entries := cut c.capacity ((k, v) :: c.others k)
  capacity := c.capacity
  nodup := List.Nodup.sublist ((cut_sublist _ _).map _)
    (List.nodup_cons.mpr ⟨c.not_mem_others k, c.nodup_others k⟩)
  fits := by
    intro n hn
    refine ⟨(c.fits n hn).1, ?_⟩
    have hcap : c.capacity = some n := hn
    rw [hcap]
    exact List.length_take_le _ _

/-- The entry under a key is used. -/
def touch (c : Lru K V) (k : K) : Lru K V :=
  match c.peek k with
  | none => c
  | some v => c.put k v

variable {c : Lru K V} {k k' : K} {v w : V}

theorem peek_eq_some : c.peek k = some v ↔ (k, v) ∈ c.entries := by
  unfold peek
  have nodup := c.nodup
  generalize c.entries = entries at nodup ⊢
  induction entries with
  | nil => simp
  | cons e l ih =>
    obtain ⟨hnew, hrest⟩ := List.nodup_cons.mp nodup
    by_cases hk : e.1 = k
    · rw [List.find?_cons_of_pos (by simpa using hk)]
      constructor
      · intro h
        cases h
        rw [← hk]
        exact List.mem_cons_self
      · intro h
        rcases List.mem_cons.mp h with rfl | h
        · rfl
        · exact absurd (List.mem_map_of_mem h) (hk ▸ hnew)
    · rw [List.find?_cons_of_neg (by simpa using hk)]
      refine (ih hrest).trans ⟨List.mem_cons_of_mem e, ?_⟩
      intro h
      rcases List.mem_cons.mp h with rfl | h
      · exact absurd rfl hk
      · exact h

theorem peek_erase_self (c : Lru K V) (k : K) : (c.erase k).peek k = none := by
  rw [Option.eq_none_iff_forall_ne_some]
  intro v hv
  exact c.not_mem_others k (List.mem_map.mpr ⟨(k, v), peek_eq_some.mp hv, rfl⟩)

theorem peek_erase_of_ne (c : Lru K V) (h : k' ≠ k) : (c.erase k).peek k' = c.peek k' := by
  have hmem : ∀ v, (c.erase k).peek k' = some v ↔ c.peek k' = some v := by
    intro v
    rw [peek_eq_some, peek_eq_some]
    show _ ∈ c.others k ↔ _
    rw [others, List.mem_filter, decide_eq_true_iff]
    exact ⟨fun hv => hv.1, fun hv => ⟨hv, h⟩⟩
  exact Option.ext hmem

theorem peek_put_self (c : Lru K V) (k : K) (v : V) : (c.put k v).peek k = some v := by
  rw [peek_eq_some]
  show _ ∈ cut c.capacity ((k, v) :: c.others k)
  cases hcap : c.capacity with
  | none => exact List.mem_cons_self
  | some n =>
    obtain ⟨hpos, -⟩ := c.fits n hcap
    obtain ⟨m, rfl⟩ := Nat.exists_eq_succ_of_ne_zero (Nat.pos_iff_ne_zero.mp hpos)
    exact List.mem_cons_self

theorem peek_put_of_ne (h : k' ≠ k) (hw : (c.put k v).peek k' = some w) : c.peek k' = some w := by
  rw [peek_eq_some] at hw ⊢
  have hin := (cut_sublist _ _).subset hw
  rcases List.mem_cons.mp hin with hsame | hin
  · exact absurd (Prod.mk.inj hsame).1 h
  · exact (List.mem_filter.mp hin).1

theorem peek_put_cases (hw : (c.put k v).peek k' = some w) :
    (k' = k ∧ w = v) ∨ (k' ≠ k ∧ c.peek k' = some w) := by
  by_cases h : k' = k
  · subst h
    rw [peek_put_self] at hw
    exact .inl ⟨rfl, (Option.some.inj hw).symm⟩
  · exact .inr ⟨h, peek_put_of_ne h hw⟩

theorem peek_replace (hk : c.peek k = some w) (h : k' ≠ k) :
    ((c.erase k).put k v).peek k' = c.peek k' := by
  have hroom : ∀ n ∈ c.capacity, ((k, v) :: (c.erase k).others k).length ≤ n := by
    intro n hn
    have hless : (c.others k).length < c.entries.length :=
      List.length_filter_lt_length_iff_exists.mpr ⟨(k, w), peek_eq_some.mp hk, by simp⟩
    have hagain : ((c.erase k).others k).length ≤ (c.others k).length := List.length_filter_le _ _
    have hfits := (c.fits n hn).2
    rw [List.length_cons]
    omega
  have hall : ((c.erase k).put k v).entries = (k, v) :: (c.erase k).others k := by
    show cut c.capacity _ = _
    cases hcap : c.capacity with
    | none => rfl
    | some n => exact List.take_of_length_le (hroom n hcap)
  refine Option.ext fun u => ?_
  rw [peek_eq_some, hall, List.mem_cons, ← peek_erase_of_ne c h, peek_eq_some]
  constructor
  · rintro (hsame | hin)
    · exact absurd (Prod.mk.inj hsame).1 h
    · exact (List.mem_filter.mp hin).1
  · intro hin
    exact .inr (List.mem_filter.mpr ⟨hin, by simpa using h⟩)

theorem peek_touch (hw : (c.touch k).peek k' = some w) : c.peek k' = some w := by
  unfold touch at hw
  split at hw
  · exact hw
  · next v hv =>
    rcases peek_put_cases hw with ⟨rfl, rfl⟩ | ⟨-, h⟩
    · exact hv
    · exact h

end Lru

end Wakterm.Machine
