import Mathlib.Logic.Function.Iterate
import Mathlib.Order.Lattice
import Mathlib.Tactic.Common

/-!
# Nested splits along one axis

Dividing a row of cells among nested panes. Along one axis a tree of splits has nodes *along* the axis,
whose two children share the cells with a divider between them, and nodes *across* it, whose children
have all the cells. Each node remembers what it gave to its children; the root is told its own number.

* `Fills` and `Roomy` say when the numbers add up and leave every pane a cell; `least` is the smallest
  number of cells a roomy layout can have.
* `squeeze` and `pushDown` carry a new number of cells down: `squeeze` cuts the first child so that the
  second keeps a cell, `pushDown` never touches it (`pushDown_roomy_iff`).
* `growBy` and `shrinkBy` change a layout from the inside, one cell at a time. Growing keeps it roomy;
  shrinking does when every child can spare its part (`squeeze_shrinkBy_roomy_iff`).
-/

namespace Wakterm.Layout

/-- A tree of splits seen along one axis. -/
inductive Span where
  | pane
  | split (along : Bool) (first second : Nat) (l r : Span)
  deriving DecidableEq

namespace Span

/-- The fewest cells that leave one to every pane. -/
def least : Span → Nat
  | .pane => 1
  | .split true _ _ l r => l.least + 1 + r.least
  | .split false _ _ l r => max l.least r.least

/-- The remembered numbers add up to the allocation, at every node. -/
def Fills : Span → Nat → Prop
  | .pane, _ => True
  | .split true f s l r, a => f + 1 + s = a ∧ l.Fills f ∧ r.Fills s
  | .split false f s l r, a => f = a ∧ s = a ∧ l.Fills f ∧ r.Fills s

/-- The numbers add up and every pane has a cell. -/
def Roomy : Span → Nat → Prop
  | .pane, a => 1 ≤ a
  | .split true f s l r, a => f + 1 + s = a ∧ l.Roomy f ∧ r.Roomy s
  | .split false f s l r, a => f = a ∧ s = a ∧ l.Roomy f ∧ r.Roomy s

/-- All remembered numbers stay below a bound. -/
def Below (b : Nat) : Span → Prop
  | .pane => True
  | .split _ f s l r => f < b ∧ s < b ∧ l.Below b ∧ r.Below b

theorem one_le_least (t : Span) : 1 ≤ t.least := by
  induction t with
  | pane => exact Nat.le_refl 1
  | split along f s l r ihl ihr =>
    cases along <;> simp only [least] <;> omega

variable {t : Span} {a b f s n : Nat}

theorem Roomy.fills (h : t.Roomy a) : t.Fills a := by
  induction t generalizing a with
  | pane => trivial
  | split along f s l r ihl ihr =>
    cases along with
    | true => exact ⟨h.1, ihl h.2.1, ihr h.2.2⟩
    | false => exact ⟨h.1, h.2.1, ihl h.2.2.1, ihr h.2.2.2⟩

theorem Roomy.least_le (h : t.Roomy a) : t.least ≤ a := by
  induction t generalizing a with
  | pane => exact h
  | split along f s l r ihl ihr =>
    cases along with
    | true =>
      have hl := ihl h.2.1
      have hr := ihr h.2.2
      have := h.1
      simp only [least]
      omega
    | false =>
      have hl := ihl h.2.2.1
      have hr := ihr h.2.2.2
      have := h.1
      have := h.2.1
      simp only [least]
      omega

theorem Roomy.pos (h : t.Roomy a) : 1 ≤ a :=
  Nat.le_trans (one_le_least t) h.least_le

theorem Fills.below (h : t.Fills a) (hab : a < b) : t.Below b := by
  induction t generalizing a with
  | pane => trivial
  | split along f s l r ihl ihr =>
    cases along with
    | true =>
      have := h.1
      exact ⟨by omega, by omega, ihl h.2.1 (by omega), ihr h.2.2 (by omega)⟩
    | false =>
      have := h.1
      have := h.2.1
      exact ⟨by omega, by omega, ihl h.2.2.1 (by omega), ihr h.2.2.2 (by omega)⟩

/-! ## Carrying an allocation down from the root -/

/-- Give the node `a` cells: across the axis both children get them, along it
the first child keeps its number unless the second would be left without. -/
def squeeze : Span → Nat → Span
  | .pane, _ => .pane
  | .split true f _ l r, a =>
    let f' := if f + 2 > a then a - 2 else f
    .split true f' (a - (1 + f')) (l.squeeze f') (r.squeeze (a - (1 + f')))
  | .split false _ _ l r, a => .split false a a (l.squeeze a) (r.squeeze a)

/-- Give the node `a` cells without ever changing the first child's number. -/
def pushDown : Span → Nat → Span
  | .pane, _ => .pane
  | .split true f _ l r, a =>
    .split true f (a - (1 + f)) (l.pushDown f) (r.pushDown (a - (1 + f)))
  | .split false _ _ l r, a => .split false a a (l.pushDown a) (r.pushDown a)

/-- How many cells `pushDown` needs: a first child gives up nothing, so only
the last child along the axis can shrink. -/
def need : Span → Nat
  | .pane => 1
  | .split true f _ _ r => f + 1 + r.need
  | .split false _ _ l r => max l.need r.need

@[simp] theorem least_squeeze (t : Span) (a : Nat) : (t.squeeze a).least = t.least := by
  induction t generalizing a with
  | pane => rfl
  | split along f s l r ihl ihr => cases along <;> simp [squeeze, least, ihl, ihr]

theorem Roomy.squeeze_eq (h : t.Roomy a) : t.squeeze a = t := by
  induction t generalizing a with
  | pane => rfl
  | split along f s l r ihl ihr =>
    cases along with
    | true =>
      obtain ⟨hsum, hl, hr⟩ := h
      have := hr.pos
      have hkeep : (if f + 2 > a then a - 2 else f) = f := if_neg (by omega)
      have hrest : a - (1 + f) = s := by omega
      simp only [squeeze, hkeep, hrest, ihl hl, ihr hr]
    | false =>
      obtain ⟨rfl, rfl, hl, hr⟩ := h
      simp only [squeeze, ihl hl, ihr hr]

theorem Fills.pushDown_eq (h : t.Fills a) : t.pushDown a = t := by
  induction t generalizing a with
  | pane => rfl
  | split along f s l r ihl ihr =>
    cases along with
    | true =>
      obtain ⟨hsum, hl, hr⟩ := h
      have hrest : a - (1 + f) = s := by omega
      simp only [pushDown, hrest, ihl hl, ihr hr]
    | false =>
      obtain ⟨rfl, rfl, hl, hr⟩ := h
      simp only [pushDown, ihl hl, ihr hr]

theorem Roomy.need_le (h : t.Roomy a) : t.need ≤ a := by
  induction t generalizing a with
  | pane => exact h
  | split along f s l r ihl ihr =>
    cases along with
    | true =>
      have hr := ihr h.2.2
      have := h.1
      simp only [need]
      omega
    | false =>
      obtain ⟨rfl, rfl, hl, hr⟩ := h
      simp only [need]
      exact max_le (ihl hl) (ihr hr)

/-- Squeezing never comes to a split along the axis without any cell. -/
def Squeezes : Span → Nat → Prop
  | .pane, _ => True
  | .split true f _ l r, a =>
    let f' := if f + 2 > a then a - 2 else f
    1 ≤ a ∧ l.Squeezes f' ∧ r.Squeezes (a - (1 + f'))
  | .split false _ _ l r, a => l.Squeezes a ∧ r.Squeezes a

instance decidableSqueezes : (t : Span) → (a : Nat) → Decidable (t.Squeezes a)
  | .pane, _ => isTrue trivial
  | .split true f _ l r, a =>
    let f' := if f + 2 > a then a - 2 else f
    haveI := decidableSqueezes l f'
    haveI := decidableSqueezes r (a - (1 + f'))
    inferInstanceAs (Decidable (1 ≤ a ∧ _ ∧ _))
  | .split false _ _ l r, a =>
    haveI := decidableSqueezes l a
    haveI := decidableSqueezes r a
    inferInstanceAs (Decidable (_ ∧ _))

theorem squeeze_fills_iff (t : Span) (a : Nat) : (t.squeeze a).Fills a ↔ t.Squeezes a := by
  induction t generalizing a with
  | pane => exact Iff.rfl
  | split along f s l r ihl ihr =>
    cases along with
    | true =>
      simp only [squeeze, Fills, Squeezes, ihl, ihr]
      refine and_congr_left fun _ => ?_
      split_ifs <;> omega
    | false => simp only [squeeze, Fills, Squeezes, ihl, ihr, true_and]

theorem pushDown_roomy_iff {a₀ : Nat} (h : t.Roomy a₀) (a : Nat) :
    (t.pushDown a).Roomy a ↔ t.need ≤ a := by
  induction t generalizing a₀ a with
  | pane => exact Iff.rfl
  | split along f s l r ihl ihr =>
    cases along with
    | true =>
      obtain ⟨_, hl, hr⟩ := h
      simp only [pushDown, Roomy, need]
      rw [hl.fills.pushDown_eq, ihr hr]
      constructor
      · rintro ⟨hsum, _, hneed⟩
        omega
      · intro hneed
        exact ⟨by omega, hl, by omega⟩
    | false =>
      obtain ⟨rfl, rfl, hl, hr⟩ := h
      simp only [pushDown, Roomy, need, ihl hl, ihr hr, true_and]
      omega

/-- Where the first of the outermost dividers stands: the cells before it. -/
def divider : Span → Option Nat
  | .pane => none
  | .split true f _ _ _ => some f
  | .split false _ _ l r => l.divider.or r.divider

theorem Fills.divider_lt (h : t.Fills a) (hf : f ∈ t.divider) : f < a := by
  induction t generalizing a with
  | pane => exact nomatch hf
  | split along f₁ s l r ihl ihr =>
    cases along with
    | true =>
      cases hf
      have := h.1
      omega
    | false =>
      obtain ⟨rfl, rfl, hl, hr⟩ := h
      rcases Option.or_eq_some_iff.mp hf with hf | ⟨_, hf⟩
      · exact ihl hl hf
      · exact ihr hr hf

/-! ## Growing and shrinking from the inside -/

/-- One more cell: along the axis the first child takes it. -/
def grow1 : Span → Span
  | .pane => .pane
  | .split true f s l r => .split true (f + 1) s l.grow1 r
  | .split false f _ l r => .split false (f + 1) (f + 1) l.grow1 r.grow1

/-- One cell less: along the axis the first child gives it up while it has more
than one, then the second; across it nothing goes below the least size. -/
def shrink1 : Span → Span
  | .pane => .pane
  | .split true f s l r =>
    if 1 < f then .split true (f - 1) s l.shrink1 r
    else if 1 < s then .split true f (s - 1) l r.shrink1
    else .split true f s l r
  | .split false f s l r =>
    if max l.least r.least < f then
      .split false (f - 1) (f - 1) l.shrink1 r.shrink1
    else .split false f s l r

/-- `n` more cells at once: the outermost split along the axis hands them out
alternately, first child first. -/
def growBy (n : Nat) : Span → Span
  | .pane => .pane
  | .split true f s l r =>
    .split true (f + (n + 1) / 2) (s + n / 2) (grow1^[(n + 1) / 2] l) (grow1^[n / 2] r)
  | .split false f _ l r => .split false (f + n) (f + n) (growBy n l) (growBy n r)

/-- How many of `n` cells the first of two children with `f` and `s` cells
gives up when they lose cells in turn and neither goes below one. -/
def firstShare (n f s : Nat) : Nat := min (f - 1) (max ((n + 1) / 2) (n - (s - 1)))

/-- How many the second gives up. -/
def secondShare (n f s : Nat) : Nat := min (s - 1) (max (n / 2) (n - (f - 1)))

/-- `n` cells less at once. -/
def shrinkBy (n : Nat) : Span → Span
  | .pane => .pane
  | .split true f s l r =>
    .split true (f - firstShare n f s) (s - secondShare n f s)
      (shrink1^[firstShare n f s] l) (shrink1^[secondShare n f s] r)
  | .split false f s l r =>
    let k := min n (f - max l.least r.least)
    if k = 0 then .split false f s l r
    else .split false (f - k) (f - k) (shrinkBy k l) (shrinkBy k r)

@[simp] theorem firstShare_zero (f s : Nat) : firstShare 0 f s = 0 := by simp [firstShare]

@[simp] theorem secondShare_zero (f s : Nat) : secondShare 0 f s = 0 := by simp [secondShare]

theorem firstShare_le_self (n f s : Nat) : firstShare n f s ≤ n :=
  Nat.le_trans (Nat.min_le_right _ _) (Nat.max_le.mpr ⟨by omega, by omega⟩)

theorem firstShare_of_le (h : f ≤ 1) (n s : Nat) : firstShare n f s = 0 := by
  simp [firstShare, Nat.sub_eq_zero_of_le h]

theorem secondShare_of_le (h : s ≤ 1) (n f : Nat) : secondShare n f s = 0 := by
  simp [secondShare, Nat.sub_eq_zero_of_le h]

theorem firstShare_alone (h : s ≤ 1) (n f : Nat) : firstShare n f s = min (f - 1) n := by
  rw [firstShare, Nat.sub_eq_zero_of_le h, Nat.sub_zero, Nat.max_eq_right (by omega)]

theorem secondShare_alone (h : f ≤ 1) (n s : Nat) : secondShare n f s = min (s - 1) n := by
  rw [secondShare, Nat.sub_eq_zero_of_le h, Nat.sub_zero, Nat.max_eq_right (by omega)]

theorem firstShare_one (h : 1 < f) (s : Nat) : firstShare 1 f s = 1 := by
  unfold firstShare
  omega

theorem secondShare_one (h : 1 < f) (s : Nat) : secondShare 1 f s = 0 := by
  unfold secondShare
  omega

theorem share_succ (m n f s : Nat) :
    min (f + 1) (max (m + 1) (n + 2 - (s + 1))) = min f (max m (n - s)) + 1 := by
  have hmax : max (m + 1) (n + 2 - (s + 1)) = max m (n - s) + 1 := by omega
  rw [hmax, Nat.add_min_add_right]

theorem firstShare_both (hf : 1 < f) (hs : 1 < s) (n : Nat) :
    firstShare (n + 2) f s = firstShare n (f - 1) (s - 1) + 1 := by
  obtain ⟨f, rfl⟩ : ∃ k, f = k + 2 := ⟨f - 2, by omega⟩
  obtain ⟨s, rfl⟩ : ∃ k, s = k + 2 := ⟨s - 2, by omega⟩
  have hhalf : (n + 2 + 1) / 2 = (n + 1) / 2 + 1 := by omega
  unfold firstShare
  rw [hhalf]
  exact share_succ _ n f s

theorem secondShare_both (hf : 1 < f) (hs : 1 < s) (n : Nat) :
    secondShare (n + 2) f s = secondShare n (f - 1) (s - 1) + 1 := by
  obtain ⟨f, rfl⟩ : ∃ k, f = k + 2 := ⟨f - 2, by omega⟩
  obtain ⟨s, rfl⟩ : ∃ k, s = k + 2 := ⟨s - 2, by omega⟩
  have hhalf : (n + 2) / 2 = n / 2 + 1 := by omega
  unfold secondShare
  rw [hhalf]
  exact share_succ _ n s f

theorem shares_first (hf : 1 < f) (h : n = 0 ∨ s ≤ 1) :
    firstShare (n + 1) f s = firstShare n (f - 1) s + 1 ∧
      secondShare (n + 1) f s = secondShare n (f - 1) s := by
  rcases h with rfl | hs
  · rw [firstShare_zero, secondShare_zero]
    exact ⟨firstShare_one hf s, secondShare_one hf s⟩
  · rw [firstShare_alone hs, firstShare_alone hs, secondShare_of_le hs, secondShare_of_le hs]
    exact ⟨by omega, rfl⟩

theorem shares_second (hf : f ≤ 1) (hs : 1 < s) (n : Nat) :
    firstShare (n + 1) f s = firstShare n f (s - 1) ∧
      secondShare (n + 1) f s = secondShare n f (s - 1) + 1 := by
  rw [firstShare_of_le hf, firstShare_of_le hf, secondShare_alone hf, secondShare_alone hf]
  exact ⟨rfl, by omega⟩

theorem shares_eq (hf : 0 < f) (hs : 0 < s) (h : n + 2 ≤ f + s) :
    secondShare n f s = n - firstShare n f s := by
  unfold secondShare firstShare
  rcases Nat.lt_or_ge ((n + 1) / 2) (n - (s - 1)) with hsecond | hsecond
  · have hmost : s - 1 ≤ max (n / 2) (n - (f - 1)) :=
      Nat.le_trans (show s - 1 ≤ n / 2 by omega) (Nat.le_max_left _ _)
    rw [Nat.max_eq_right (Nat.le_of_lt hsecond),
      Nat.min_eq_right (show n - (s - 1) ≤ f - 1 by omega), Nat.min_eq_left hmost]
    omega
  · rw [Nat.max_eq_left hsecond]
    rcases Nat.le_total (f - 1) ((n + 1) / 2) with hfirst | hfirst
    · rw [Nat.min_eq_left hfirst, Nat.max_eq_right (by omega), Nat.min_eq_right (by omega)]
    · rw [Nat.min_eq_right hfirst, Nat.max_eq_left (by omega), Nat.min_eq_right (by omega)]
      omega

@[simp] theorem least_shrink1 (t : Span) : t.shrink1.least = t.least := by
  induction t with
  | pane => rfl
  | split along f s l r ihl ihr =>
    cases along <;> simp only [shrink1] <;> split_ifs <;> simp [least, ihl, ihr]

@[simp] theorem least_iterate_shrink1 (t : Span) (k : Nat) : (shrink1^[k] t).least = t.least := by
  induction k generalizing t with
  | zero => rfl
  | succ k ih => rw [Function.iterate_succ_apply, ih, least_shrink1]

theorem Roomy.grow1 (h : t.Roomy a) : t.grow1.Roomy (a + 1) := by
  induction t generalizing a with
  | pane => exact Nat.le_succ_of_le h
  | split along f s l r ihl ihr =>
    cases along with
    | true =>
      obtain ⟨hsum, hl, hr⟩ := h
      exact ⟨by omega, ihl hl, hr⟩
    | false =>
      obtain ⟨rfl, rfl, hl, hr⟩ := h
      exact ⟨rfl, rfl, ihl hl, ihr hr⟩

theorem Roomy.iterate_grow1 (h : t.Roomy a) (k : Nat) : (Span.grow1^[k] t).Roomy (a + k) := by
  induction k with
  | zero => exact h
  | succ k ih =>
    rw [Function.iterate_succ_apply']
    exact ih.grow1

theorem growBy_one (t : Span) : t.growBy 1 = t.grow1 := by
  induction t with
  | pane => rfl
  | split along f s l r ihl ihr =>
    cases along with
    | true => rfl
    | false => simp only [Span.growBy, Span.grow1, ihl, ihr]

theorem Roomy.growBy_zero (h : t.Roomy a) : t.growBy 0 = t := by
  induction t generalizing a with
  | pane => rfl
  | split along f s l r ihl ihr =>
    cases along with
    | true => rfl
    | false =>
      obtain ⟨rfl, rfl, hl, hr⟩ := h
      simp only [Span.growBy, ihl hl, ihr hr, Nat.add_zero]

theorem Roomy.growBy (h : t.Roomy a) (n : Nat) : (t.growBy n).Roomy (a + n) := by
  induction t generalizing a with
  | pane => exact Nat.le_add_right_of_le h
  | split along f s l r ihl ihr =>
    cases along with
    | true =>
      obtain ⟨hsum, hl, hr⟩ := h
      exact ⟨by omega, hl.iterate_grow1 _, hr.iterate_grow1 _⟩
    | false =>
      obtain ⟨rfl, rfl, hl, hr⟩ := h
      exact ⟨rfl, rfl, ihl hl, ihr hr⟩

theorem shrinkBy_zero (t : Span) : t.shrinkBy 0 = t := by
  match t with
  | .pane => rfl
  | .split true f s l r => simp [shrinkBy, firstShare, secondShare]
  | .split false f s l r => simp [shrinkBy]

theorem shrinkBy_one (t : Span) : t.shrinkBy 1 = t.shrink1 := by
  induction t with
  | pane => rfl
  | split along f s l r ihl ihr =>
    cases along with
    | true =>
      simp only [shrinkBy, shrink1]
      split_ifs with hf hs
      · rw [firstShare_one hf, secondShare_one hf]
        rfl
      · obtain ⟨hfirst, hsecond⟩ := shares_second (Nat.le_of_not_lt hf) hs 0
        rw [hfirst, hsecond, firstShare_zero, secondShare_zero]
        rfl
      · rw [firstShare_of_le (Nat.le_of_not_lt hf), secondShare_of_le (Nat.le_of_not_lt hs)]
        rfl
    | false =>
      simp only [shrinkBy, shrink1]
      split_ifs with h0 hf hf
      · omega
      · rfl
      · have hk : min 1 (f - max l.least r.least) = 1 := by omega
        rw [hk, ihl, ihr]
      · omega

/-- A node across the axis has at least its least size. -/
def Ample : Span → Prop
  | .pane => True
  | .split true _ _ l r => l.Ample ∧ r.Ample
  | .split false f _ l r => max l.least r.least ≤ f ∧ l.Ample ∧ r.Ample

theorem Roomy.ample (h : t.Roomy a) : t.Ample := by
  induction t generalizing a with
  | pane => trivial
  | split along f s l r ihl ihr =>
    cases along with
    | true => exact ⟨ihl h.2.1, ihr h.2.2⟩
    | false =>
      obtain ⟨rfl, rfl, hl, hr⟩ := h
      exact ⟨max_le hl.least_le hr.least_le, ihl hl, ihr hr⟩

theorem Ample.shrink1 (h : t.Ample) : t.shrink1.Ample := by
  induction t with
  | pane => trivial
  | split along f s l r ihl ihr =>
    cases along with
    | true =>
      obtain ⟨hl, hr⟩ := h
      simp only [Span.shrink1]
      split_ifs
      · exact ⟨ihl hl, hr⟩
      · exact ⟨hl, ihr hr⟩
      · exact ⟨hl, hr⟩
    | false =>
      obtain ⟨hf, hl, hr⟩ := h
      simp only [Span.shrink1]
      split_ifs
      · refine ⟨?_, ihl hl, ihr hr⟩
        simp only [least_shrink1]
        omega
      · exact ⟨hf, hl, hr⟩

theorem Below.shrink1 (h : t.Below b) : t.shrink1.Below b := by
  induction t with
  | pane => trivial
  | split along f s l r ihl ihr =>
    obtain ⟨hf, hs, hl, hr⟩ := h
    cases along with
    | true =>
      simp only [Span.shrink1]
      split_ifs
      · exact ⟨by omega, hs, ihl hl, hr⟩
      · exact ⟨hf, by omega, hl, ihr hr⟩
      · exact ⟨hf, hs, hl, hr⟩
    | false =>
      simp only [Span.shrink1]
      split_ifs
      · exact ⟨by omega, by omega, ihl hl, ihr hr⟩
      · exact ⟨hf, hs, hl, hr⟩

theorem Below.iterate_shrink1 (h : t.Below b) (k : Nat) : (Span.shrink1^[k] t).Below b := by
  induction k with
  | zero => exact h
  | succ k ih =>
    rw [Function.iterate_succ_apply']
    exact ih.shrink1

theorem Below.shrinkBy (h : t.Below b) (n : Nat) : (t.shrinkBy n).Below b := by
  induction t generalizing n with
  | pane => trivial
  | split along f s l r ihl ihr =>
    obtain ⟨hf, hs, hl, hr⟩ := h
    cases along with
    | true => exact ⟨by omega, by omega, hl.iterate_shrink1 _, hr.iterate_shrink1 _⟩
    | false =>
      simp only [Span.shrinkBy]
      split_ifs
      · exact ⟨hf, hs, hl, hr⟩
      · exact ⟨by omega, by omega, ihl hl _, ihr hr _⟩

/-! ## When shrinking is safe -/

/-- Every child can spare its part of `k` cells taken one at a time: along the
axis the first child gives while it has more than one cell. -/
def Spares : Nat → Span → Prop
  | _, .pane => True
  | k, .split true f s l r =>
    l.least ≤ f - min k (f - 1) ∧ r.least ≤ s - (k - min k (f - 1)) ∧
      Spares (min k (f - 1)) l ∧ Spares (k - min k (f - 1)) r
  | k, .split false _ _ l r => Spares k l ∧ Spares k r

/-- Every child can spare its part of `n` cells taken at once: the outermost
split along the axis shares the loss between its children in turn. -/
def SparesAtOnce : Nat → Span → Prop
  | _, .pane => True
  | n, .split true f s l r =>
    l.least ≤ f - firstShare n f s ∧ r.least ≤ s - (n - firstShare n f s) ∧
      Spares (firstShare n f s) l ∧ Spares (n - firstShare n f s) r
  | n, .split false _ _ l r => SparesAtOnce n l ∧ SparesAtOnce n r

instance decidableSpares : (k : Nat) → (t : Span) → Decidable (Spares k t)
  | _, .pane => isTrue trivial
  | k, .split true f s l r =>
    haveI := decidableSpares (min k (f - 1)) l
    haveI := decidableSpares (k - min k (f - 1)) r
    inferInstanceAs (Decidable (l.least ≤ f - min k (f - 1) ∧
      r.least ≤ s - (k - min k (f - 1)) ∧ _ ∧ _))
  | k, .split false _ _ l r =>
    haveI := decidableSpares k l
    haveI := decidableSpares k r
    inferInstanceAs (Decidable (_ ∧ _))

instance decidableSparesAtOnce : (n : Nat) → (t : Span) → Decidable (SparesAtOnce n t)
  | _, .pane => isTrue trivial
  | n, .split true f s l r =>
    inferInstanceAs (Decidable (l.least ≤ f - firstShare n f s ∧
      r.least ≤ s - (n - firstShare n f s) ∧ Spares (firstShare n f s) l ∧
      Spares (n - firstShare n f s) r))
  | n, .split false _ _ l r =>
    haveI := decidableSparesAtOnce n l
    haveI := decidableSparesAtOnce n r
    inferInstanceAs (Decidable (_ ∧ _))

theorem iterate_shrink1_along (k f s : Nat) (l r : Span) (hk : k ≤ (f - 1) + (s - 1)) :
    shrink1^[k] (.split true f s l r) = .split true (f - min k (f - 1)) (s - (k - min k (f - 1)))
        (shrink1^[min k (f - 1)] l) (shrink1^[k - min k (f - 1)] r) := by
  induction k generalizing f s l r with
  | zero => simp
  | succ k ih =>
    rw [Function.iterate_succ_apply, shrink1]
    by_cases hf : 1 < f
    · have hmin : min (k + 1) (f - 1) = min k (f - 1 - 1) + 1 := by omega
      have hrest : k + 1 - (min k (f - 1 - 1) + 1) = k - min k (f - 1 - 1) := by omega
      have hfirst : f - (min k (f - 1 - 1) + 1) = f - 1 - min k (f - 1 - 1) := by omega
      rw [if_pos hf, ih _ _ _ _ (by omega), hmin, hrest, hfirst,
        Function.iterate_succ_apply]
    · have hs : 1 < s := by omega
      have hmin : min (k + 1) (f - 1) = 0 := by omega
      have hmin' : min k (f - 1) = 0 := by omega
      rw [if_neg hf, if_pos hs, ih _ _ _ _ (by omega), hmin, hmin']
      simp only [Nat.sub_zero, Function.iterate_zero, id]
      rw [Function.iterate_succ_apply, Nat.sub_sub, Nat.add_comm 1 k]

theorem iterate_shrink1_across (k a : Nat) (l r : Span) (hk : k + max l.least r.least ≤ a) :
    shrink1^[k] (.split false a a l r) =
      .split false (a - k) (a - k) (shrink1^[k] l) (shrink1^[k] r) := by
  induction k generalizing a l r with
  | zero => rfl
  | succ k ih =>
    rw [Function.iterate_succ_apply, shrink1, if_pos (by omega),
      ih _ _ _ (by simp only [least_shrink1]; omega), Function.iterate_succ_apply,
      Function.iterate_succ_apply, Nat.sub_sub, Nat.add_comm 1 k]

theorem not_squeeze_roomy (h : a < t.least) : ¬ (t.squeeze a).Roomy a := by
  intro hr
  have := hr.least_le
  rw [least_squeeze] at this
  omega

/-- A node along the axis whose children lost `j` and `k` cells is roomy after
`squeeze` exactly when both can spare them. `hl` and `hr` are what is known of
the children on their own. -/
theorem squeeze_along_roomy_iff {j k : Nat} {l r : Span} (hsum : f + 1 + s = a) (hj : j ≤ f - 1)
    (hk : k ≤ s - 1) (hpos : 1 ≤ f ∧ 1 ≤ s)
    (hl : j + l.least ≤ f → (((shrink1^[j] l).squeeze (f - j)).Roomy (f - j) ↔ Spares j l))
    (hr : k + r.least ≤ s → (((shrink1^[k] r).squeeze (s - k)).Roomy (s - k) ↔ Spares k r)) :
    ((Span.split true (f - j) (s - k) (shrink1^[j] l) (shrink1^[k] r)).squeeze
        (a - (j + k))).Roomy (a - (j + k)) ↔
      l.least ≤ f - j ∧ r.least ≤ s - k ∧ Spares j l ∧ Spares k r := by
  have hkeep : (if f - j + 2 > a - (j + k) then a - (j + k) - 2 else f - j) = f - j :=
    if_neg (by omega)
  have hrest : a - (j + k) - (1 + (f - j)) = s - k := by omega
  have htotal : f - j + 1 + (s - k) = a - (j + k) := by omega
  simp only [squeeze, hkeep, hrest, Roomy, htotal, true_and]
  -- a child squeezed below its least size fails on both sides
  by_cases hfl : l.least ≤ f - j
  · by_cases hsr : r.least ≤ s - k
    · rw [hl (by omega), hr (by omega)]
      simp only [hfl, hsr, true_and]
    · have hbad := not_squeeze_roomy (t := shrink1^[k] r) (a := s - k)
        (by rw [least_iterate_shrink1]; omega)
      simp only [hbad, hsr, and_false, false_and]
  · have hbad := not_squeeze_roomy (t := shrink1^[j] l) (a := f - j)
      (by rw [least_iterate_shrink1]; omega)
    simp only [hbad, hfl, false_and]

theorem squeeze_iterate_shrink1_roomy_iff (h : t.Roomy a) (k : Nat) (hk : k + t.least ≤ a) :
    ((shrink1^[k] t).squeeze (a - k)).Roomy (a - k) ↔ Spares k t := by
  induction t generalizing a k with
  | pane =>
    have hpane : shrink1^[k] Span.pane = .pane := by
      induction k with
      | zero => rfl
      | succ k ih =>
        rw [Function.iterate_succ_apply', ih (by omega)]
        rfl
    simp only [least] at hk
    rw [hpane]
    simp only [squeeze, Roomy, Spares, iff_true]
    omega
  | split along f s l r ihl ihr =>
    cases along with
    | true =>
      obtain ⟨hsum, hl, hr⟩ := h
      simp only [least] at hk
      have hl1 := one_le_least l
      have hr1 := one_le_least r
      have hsplit : a - k = a - (min k (f - 1) + (k - min k (f - 1))) := by omega
      rw [iterate_shrink1_along k f s l r (by omega), hsplit]
      exact squeeze_along_roomy_iff hsum (by omega) (by omega) ⟨hl.pos, hr.pos⟩
        (ihl hl _) (ihr hr _)
    | false =>
      obtain ⟨rfl, rfl, hl, hr⟩ := h
      simp only [least] at hk
      rw [iterate_shrink1_across k s l r (by omega)]
      simp only [squeeze, Roomy, Spares, true_and]
      rw [ihl hl k (by omega), ihr hr k (by omega)]

/-- Shrinking a roomy layout by `n` cells, down to no less than its least size,
leaves it roomy exactly when every child can spare its part. -/
theorem squeeze_shrinkBy_roomy_iff (h : t.Roomy a) (n : Nat) (hn : n + t.least ≤ a) :
    ((t.shrinkBy n).squeeze (a - n)).Roomy (a - n) ↔ SparesAtOnce n t := by
  induction t generalizing a with
  | pane =>
    simp only [least] at hn
    simp only [shrinkBy, squeeze, Roomy, SparesAtOnce, iff_true]
    omega
  | split along f s l r ihl ihr =>
    cases along with
    | true =>
      obtain ⟨hsum, hl, hr⟩ := h
      simp only [least] at hn
      have hl1 := one_le_least l
      have hr1 := one_le_least r
      have hpos := hl.pos
      have hpos' := hr.pos
      have hshare := shares_eq hpos hpos' (show n + 2 ≤ f + s by omega)
      have hle := firstShare_le_self n f s
      have hfirst : firstShare n f s ≤ f - 1 := Nat.min_le_left _ _
      have hsecond : n - firstShare n f s ≤ s - 1 := hshare ▸ Nat.min_le_left _ _
      have hsplit : a - n = a - (firstShare n f s + (n - firstShare n f s)) := by omega
      simp only [shrinkBy, hshare, SparesAtOnce]
      rw [hsplit]
      exact squeeze_along_roomy_iff hsum (by omega) (by omega) ⟨hl.pos, hr.pos⟩
        (squeeze_iterate_shrink1_roomy_iff hl _) (squeeze_iterate_shrink1_roomy_iff hr _)
    | false =>
      obtain ⟨rfl, rfl, hl, hr⟩ := h
      simp only [least] at hn
      have hk : min n (s - max l.least r.least) = n := by omega
      simp only [shrinkBy, hk, SparesAtOnce]
      rw [← ihl hl (by omega), ← ihr hr (by omega)]
      split_ifs with h0
      · -- nothing to take: both sides are about the layout as it was
        subst h0
        simp only [squeeze, Roomy, Nat.sub_zero, true_and, shrinkBy_zero]
      · simp only [squeeze, Roomy, true_and]

theorem Roomy.sparesAtOnce_zero (h : t.Roomy a) : SparesAtOnce 0 t := by
  have hle := h.least_le
  rw [← squeeze_shrinkBy_roomy_iff h 0 (by omega), shrinkBy_zero, Nat.sub_zero, h.squeeze_eq]
  exact h

end Span

end Wakterm.Layout
