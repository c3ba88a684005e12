import Mathlib.Data.List.Basic
import Mathlib.Data.List.Forall2

/-!
# Loops that may fail

A step is a function to `Except`: it fails with a reason or goes on with a new state.
-/

namespace Wakterm.Machine

universe u v

variable {ε : Type u} {α β : Type v}

/-- A loop of `n` rounds. -/
def rounds (n : Nat) (f : α → Except ε α) (a : α) : Except ε α :=
  match n with
  | 0 => .ok a
  | n + 1 => f a >>= rounds n f

/-- A loop over `n` rows from `start` on. -/
def rowsFrom (start n : Nat) (f : Nat → α → Except ε α) (a : α) : Except ε α :=
  match n with
  | 0 => .ok a
  | n + 1 => f start a >>= rowsFrom (start + 1) n f

theorem bind_eq_ok {x : Except ε α} {f : α → Except ε β} {b : β} :
    x >>= f = .ok b ↔ ∃ a, x = .ok a ∧ f a = .ok b := by
  cases x with
  | error e =>
    constructor
    · intro h
      cases h
    · rintro ⟨a, ha, -⟩
      cases ha
  | ok a =>
    constructor
    · intro h
      exact ⟨a, rfl, h⟩
    · rintro ⟨a', ha, h⟩
      cases ha
      exact h

theorem map_eq_ok {x : Except ε α} {f : α → β} {b : β} :
    x.map f = .ok b ↔ ∃ a, x = .ok a ∧ f a = b := by
  cases x with
  | error e =>
    constructor
    · intro h
      cases h
    · rintro ⟨a, ha, -⟩
      cases ha
  | ok a =>
    constructor
    · intro h
      exact ⟨a, rfl, Except.ok.inj h⟩
    · rintro ⟨a', ha, rfl⟩
      cases ha
      rfl

/-- If the computation ends well, it ends in a state that is related to `a`. -/
def Ends {γ : Type v} (R : γ → α → Prop) (a : γ) (x : Except ε α) : Prop := ∀ b, x = .ok b → R a b

section Ends

variable {γ : Type v} {R : α → α → Prop} {a b : α} {x : Except ε α}

theorem ends_ok (h : R a b) : Ends R a (.ok b : Except ε α) := by
  intro c hc
  cases hc
  exact h

theorem ends_error (e : ε) : Ends R a (.error e : Except ε α) := by
  intro c hc
  cases hc

theorem Ends.bind [IsTrans α R] {f : α → Except ε α} (h : Ends R a x)
    (hf : ∀ b, Ends R b (f b)) : Ends R a (x >>= f) := by
  intro c hc
  obtain ⟨b, hb, hfb⟩ := bind_eq_ok.mp hc
  exact trans_of R (h b hb) (hf b c hfb)

theorem Ends.map [IsTrans α R] {f : α → α} (h : Ends R a x) (hf : ∀ b, R b (f b)) :
    Ends R a (x.map f) := by
  intro c hc
  obtain ⟨b, hb, rfl⟩ := map_eq_ok.mp hc
  exact trans_of R (h b hb) (hf b)

theorem ends_rounds [Std.Refl R] [IsTrans α R] {n : Nat} {f : α → Except ε α}
    (hf : ∀ b, Ends R b (f b)) : Ends R a (rounds n f a) := by
  induction n generalizing a with
  | zero => exact ends_ok (refl_of R a)
  | succ n ih => exact (hf a).bind fun b => ih

theorem ends_rowsFrom [Std.Refl R] [IsTrans α R] {start n : Nat} {f : Nat → α → Except ε α}
    (hf : ∀ i b, Ends R b (f i b)) : Ends R a (rowsFrom start n f a) := by
  induction n generalizing start a with
  | zero => exact ends_ok (refl_of R a)
  | succ n ih => exact (hf start a).bind fun b => ih

theorem ends_foldlM [Std.Refl R] [IsTrans α R] {ι : Type*} {f : α → ι → Except ε α} {is : List ι}
    (hf : ∀ i b, Ends R b (f b i)) : Ends R a (is.foldlM f a) := by
  induction is generalizing a with
  | nil => exact ends_ok (refl_of R a)
  | cons i is ih =>
    rw [List.foldlM_cons]
    exact (hf i a).bind fun b => ih

end Ends

end Wakterm.Machine

/-!
## Side by side

A relation between states is lifted to the computations that end in them: `Both` says that they fail
with the same reason, or end in states that are related.
-/

namespace Wakterm.Machine

universe u v

variable {ε : Type u} {α β : Type v}

/-- Both fail with the same reason, or both end, in states that are related. -/
inductive Both {γ : Type v} (R : α → γ → Prop) : Except ε α → Except ε γ → Prop
  | ok {a : α} {b : γ} (h : R a b) : Both R (.ok a) (.ok b)
  | error (e : ε) : Both R (.error e) (.error e)

section Both

variable {γ δ : Type v} {R : α → γ → Prop} {S : β → δ → Prop}

variable {x : Except ε α} {y : Except ε γ}

theorem Both.bind {f : α → Except ε β} {g : γ → Except ε δ} (h : Both R x y)
    (hf : ∀ a b, R a b → Both S (f a) (g b)) : Both S (x >>= f) (y >>= g) := by
  cases h with
  | ok hab => exact hf _ _ hab
  | error e => exact .error e

theorem Both.ok_bind {f : γ → Except ε δ} {z : Except ε β} {a : α} (h : Both R (.ok a) y)
    (hf : ∀ b, R a b → Both S z (f b)) : Both S z (y >>= f) := by
  cases h with
  | ok hab => exact hf _ hab

theorem Both.map {f : α → β} {g : γ → δ} (h : Both R x y) (hf : ∀ a b, R a b → S (f a) (g b)) :
    Both S (x.map f) (y.map g) := by
  cases h with
  | ok hab => exact .ok (hf _ _ hab)
  | error e => exact .error e

theorem Both.mono {R' : α → γ → Prop} (h : Both R x y) (himp : ∀ a b, R a b → R' a b) :
    Both R' x y := by
  cases h with
  | ok hab => exact .ok (himp _ _ hab)
  | error e => exact .error e

theorem both_rounds {n : Nat} {f : α → Except ε α} {g : γ → Except ε γ} {a : α} {b : γ}
    (hf : ∀ a b, R a b → Both R (f a) (g b)) (h : R a b) :
    Both R (rounds n f a) (rounds n g b) := by
  induction n generalizing a b with
  | zero => exact .ok h
  | succ n ih => exact (hf a b h).bind fun _ _ hab => ih hab

theorem both_rowsFrom {start n : Nat} {f : Nat → α → Except ε α} {g : Nat → γ → Except ε γ}
    {a : α} {b : γ} (hf : ∀ i a b, R a b → Both R (f i a) (g i b)) (h : R a b) :
    Both R (rowsFrom start n f a) (rowsFrom start n g b) := by
  induction n generalizing start a b with
  | zero => exact .ok h
  | succ n ih => exact (hf start a b h).bind fun _ _ hab => ih hab

theorem both_foldlM {ι : Type*} {f : α → ι → Except ε α} {g : γ → ι → Except ε γ} {is : List ι}
    {a : α} {b : γ} (hf : ∀ i ∈ is, ∀ a b, R a b → Both R (f a i) (g b i)) (h : R a b) :
    Both R (is.foldlM f a) (is.foldlM g b) := by
  induction is generalizing a b with
  | nil => exact .ok h
  | cons i is ih =>
    rw [List.foldlM_cons, List.foldlM_cons]
    refine (hf i List.mem_cons_self a b h).bind fun _ _ hab => ?_
    exact ih (fun j hj => hf j (List.mem_cons_of_mem i hj)) hab

theorem Both.map_eq {f : α → β} {g : γ → β} (h : Both R x y) (hf : ∀ a b, R a b → f a = g b) :
    x.map f = y.map g := by
  cases h with
  | ok hab => exact congrArg Except.ok (hf _ _ hab)
  | error e => rfl

end Both

section Lists

open List

variable {γ : Type v} {R : α → γ → Prop} {as : List α} {bs : List γ} {a : α} {b : γ}

theorem forall₂_set (h : Forall₂ R as bs) (hab : R a b) (i : Nat) :
    Forall₂ R (as.set i a) (bs.set i b) := by
  induction h generalizing i with
  | nil => exact .nil
  | cons hhead htail ih =>
    cases i with
    | zero => exact .cons hab htail
    | succ i => exact .cons hhead (ih i)

theorem forall₂_eraseIdx (h : Forall₂ R as bs) (i : Nat) :
    Forall₂ R (as.eraseIdx i) (bs.eraseIdx i) := by
  induction h generalizing i with
  | nil => exact .nil
  | cons hhead htail ih =>
    cases i with
    | zero => exact htail
    | succ i => exact .cons hhead (ih i)

theorem forall₂_insertIdx (h : Forall₂ R as bs) (hab : R a b) (i : Nat) :
    Forall₂ R (as.insertIdx i a) (bs.insertIdx i b) := by
  induction h generalizing i with
  | nil =>
    cases i with
    | zero => exact .cons hab .nil
    | succ i => exact .nil
  | cons hhead htail ih =>
    cases i with
    | zero => exact .cons hab (.cons hhead htail)
    | succ i => exact .cons hhead (ih i)

theorem insertIdx_length_append (front back : List α) (a : α) :
    (front ++ back).insertIdx front.length a = front ++ a :: back := by
  induction front with
  | nil => rfl
  | cons b front ih => simp [ih]

theorem forall₂_modify {f : α → α} {g : γ → γ} (h : Forall₂ R as bs)
    (hfg : ∀ a b, R a b → R (f a) (g b)) (i : Nat) : Forall₂ R (as.modify i f) (bs.modify i g) := by
  induction h generalizing i with
  | nil =>
    cases i with
    | zero => exact .nil
    | succ i => exact .nil
  | cons hhead htail ih =>
    cases i with
    | zero => exact .cons (hfg _ _ hhead) htail
    | succ i => exact .cons hhead (ih i)

theorem forall₂_getElem? (h : Forall₂ R as bs) (i : Nat) : Option.Rel R as[i]? bs[i]? := by
  induction h generalizing i with
  | nil => exact .none
  | cons hhead htail ih =>
    cases i with
    | zero => exact .some hhead
    | succ i => exact ih i

end Lists

end Wakterm.Machine
