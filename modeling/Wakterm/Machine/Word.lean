import Mathlib.Algebra.Group.Nat.Defs
import Mathlib.Algebra.Order.Group.Int
import Mathlib.Data.List.Basic
import Mathlib.Tactic.Ring

/-!
# 64-bit machine integers

`usize` values are natural numbers and `isize` values integers; the operations that can leave the
machine range say here what becomes of the result.
-/

namespace Wakterm.Machine

/-- `usize + usize`. -/
def uadd (a b : Nat) : Nat := (a + b) % 2 ^ 64

/-- `usize * usize`. -/
def umul (a b : Nat) : Nat := (a * b) % 2 ^ 64

/-- `usize::saturating_add`. -/
def usatAdd (a b : Nat) : Nat := min (a + b) (2 ^ 64 - 1)

/-- `usize::saturating_mul`. -/
def usatMul (a b : Nat) : Nat := min (a * b) (2 ^ 64 - 1)

/-- `usize as isize`: the same 64 bits read as a signed number. -/
def asIsize (n : Nat) : Int := Int.bmod n (2 ^ 64)

/-- `isize as usize`. -/
def asUsize (i : Int) : Nat := (i % 2 ^ 64).toNat

/-- An `isize` result wrapped to 64 bits. -/
def iwrap (i : Int) : Int := Int.bmod i (2 ^ 64)

/-- An `isize` result saturated at the bounds of the type. -/
def isat (i : Int) : Int := max (-(2 ^ 63)) (min i (2 ^ 63 - 1))

theorem uadd_of_lt {a b : Nat} (h : a + b < 2 ^ 64) : uadd a b = a + b :=
  Nat.mod_eq_of_lt h

theorem asIsize_of_lt {n : Nat} (h : n < 2 ^ 63) : asIsize n = n := by
  unfold asIsize
  rw [Int.bmod_def]
  omega

theorem asUsize_of_nonneg {i : Int} (h0 : 0 ≤ i) (h : i < 2 ^ 64) : asUsize i = i.toNat := by
  unfold asUsize
  rw [Int.emod_eq_of_lt h0 h]

theorem iwrap_of_mem {i : Int} (h0 : -(2 ^ 63) ≤ i) (h : i < 2 ^ 63) : iwrap i = i := by
  unfold iwrap
  rw [Int.bmod_def]
  omega

theorem isat_of_mem {i : Int} (h0 : -(2 ^ 63) ≤ i) (h : i < 2 ^ 63) : isat i = i := by
  unfold isat
  omega

end Wakterm.Machine

/-!
## Bit strings

The low bits of a number as a list, the lowest first.
-/

namespace Wakterm.Machine

/-- The lowest `w` bits of `x`. -/
def bitsOf : Nat → Nat → List Bool
  | 0, _ => []
  | w + 1, x => (x % 2 == 1) :: bitsOf w (x / 2)

@[simp] theorem length_bitsOf (w x : Nat) : (bitsOf w x).length = w := by
  induction w generalizing x with
  | zero => rfl
  | succ w ih => simp [bitsOf, ih]

@[simp] theorem bitsOf_zero (x : Nat) : bitsOf 0 x = [] := rfl

theorem bitsOf_add (a b x : Nat) : bitsOf (a + b) x = bitsOf a x ++ bitsOf b (x / 2 ^ a) := by
  induction a generalizing x with
  | zero => simp
  | succ a ih =>
    have hwidth : a + 1 + b = (a + b) + 1 := by omega
    have hdiv : x / 2 / 2 ^ a = x / 2 ^ (a + 1) := by
      rw [Nat.div_div_eq_div_mul, pow_succ, Nat.mul_comm]
    rw [hwidth]
    simp only [bitsOf, List.cons_append, ih (x / 2), hdiv]

theorem bitsOf_add_mul (w x y : Nat) : bitsOf w (x + y * 2 ^ w) = bitsOf w x := by
  induction w generalizing x y with
  | zero => rfl
  | succ w ih =>
    have hsplit : y * 2 ^ (w + 1) = 2 * (y * 2 ^ w) := by ring
    have hmod : (x + y * 2 ^ (w + 1)) % 2 = x % 2 := by omega
    have hdiv : (x + y * 2 ^ (w + 1)) / 2 = x / 2 + y * 2 ^ w := by omega
    simp only [bitsOf, hmod, hdiv, ih]

theorem bitsOf_mod (w x : Nat) : bitsOf w (x % 2 ^ w) = bitsOf w x := by
  have h := bitsOf_add_mul w (x % 2 ^ w) (x / 2 ^ w)
  rw [Nat.mod_add_div'] at h
  exact h.symm

theorem or_shiftLeft {n x : Nat} (y : Nat) (h : x < 2 ^ n) : x ||| (y <<< n) = x + y * 2 ^ n := by
  rw [Nat.or_comm, Nat.shiftLeft_eq, Nat.mul_comm, ← Nat.two_pow_add_eq_or_of_lt h, Nat.add_comm,
    Nat.mul_comm]

theorem bitsOf_or {n x : Nat} (k y : Nat) (h : x < 2 ^ n) :
    bitsOf (n + k) (x + y * 2 ^ n) = bitsOf n x ++ bitsOf k y := by
  have hdiv : (x + y * 2 ^ n) / 2 ^ n = y := by
    rw [Nat.add_mul_div_right _ _ (Nat.two_pow_pos n), Nat.div_eq_of_lt h, Nat.zero_add]
  rw [bitsOf_add, bitsOf_add_mul, hdiv]

theorem bitsOf_inj {w x y : Nat} (hx : x < 2 ^ w) (hy : y < 2 ^ w)
    (h : bitsOf w x = bitsOf w y) : x = y := by
  induction w generalizing x y with
  | zero => omega
  | succ w ih =>
    simp only [bitsOf, List.cons.injEq] at h
    obtain ⟨hlow, hrest⟩ := h
    rw [pow_succ] at hx hy
    have hhalf : x / 2 = y / 2 := ih (by omega) (by omega) hrest
    have hbit : x % 2 = y % 2 := by
      rcases Nat.mod_two_eq_zero_or_one x with h0 | h0 <;>
        rcases Nat.mod_two_eq_zero_or_one y with h1 | h1 <;> simp_all
    omega

def bytesBits (bytes : List UInt8) : List Bool :=
  bytes.flatMap fun b => bitsOf 8 b.toNat

@[simp] theorem bytesBits_nil : bytesBits [] = [] := rfl

@[simp] theorem bytesBits_append (xs ys : List UInt8) :
    bytesBits (xs ++ ys) = bytesBits xs ++ bytesBits ys := List.flatMap_append

theorem bytesBits_cons (b : UInt8) (bytes : List UInt8) :
    bytesBits (b :: bytes) = bitsOf 8 b.toNat ++ bytesBits bytes := rfl

@[simp] theorem length_bytesBits (bytes : List UInt8) :
    (bytesBits bytes).length = 8 * bytes.length := by
  induction bytes with
  | nil => rfl
  | cons b bytes ih =>
    rw [bytesBits_cons, List.length_append, length_bitsOf, ih, List.length_cons]
    omega

/-- **A byte string is determined by its bits.** -/
theorem bytesBits_inj {xs ys : List UInt8} (h : bytesBits xs = bytesBits ys) : xs = ys := by
  induction xs generalizing ys with
  | nil =>
    have hlen := congrArg List.length h
    rw [length_bytesBits, length_bytesBits] at hlen
    cases ys with
    | nil => rfl
    | cons y ys => simp at hlen
  | cons x xs ih =>
    cases ys with
    | nil =>
      have hlen := congrArg List.length h
      rw [length_bytesBits, length_bytesBits] at hlen
      simp at hlen
    | cons y ys =>
      rw [bytesBits_cons, bytesBits_cons] at h
      obtain ⟨hhead, htail⟩ := List.append_inj h (by simp)
      have hbyte : x.toNat = y.toNat := bitsOf_inj x.toNat_lt y.toNat_lt hhead
      rw [UInt8.toNat_inj.mp hbyte, ih htail]

end Wakterm.Machine
