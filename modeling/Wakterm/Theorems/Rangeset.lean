import Mathlib.Algebra.Order.Ring.Int
import Mathlib.Data.Set.Card
import Mathlib.Logic.Relation
import Wakterm.Rangeset.Logic.Order

/-!
# Range sets over whole runs

Whatever is done to a range set, its ranges stand for the set of integers they should
(`setAlgebra_exact`).
-/

namespace Wakterm.Theorems.Rangeset

open Wakterm.Rangeset

/-- The operations that change a range set, with their arguments. -/
inductive SetOp (T : Type) where
  | add (value : T)
  | addRange (range : Range T)
  | addRangeUnchecked (range : Range T)
  | addSet (other : RangeSet T)
  | remove (value : T)
  | removeRange (range : Range T)
  | removeSet (other : RangeSet T)

section Runs

variable {T : Type} [LinearOrder T] [Add T] [One T]

/-- Run an operation. -/
def SetOp.apply (set : RangeSet T) : SetOp T → Option (RangeSet T)
  | .add value => set.add value
  | .addRange range => set.addRange range
  | .addRangeUnchecked range => some (set.addRangeUnchecked range)
  | .addSet other => set.addSet other
  | .remove value => set.remove value
  | .removeRange range => set.removeRange range
  | .removeSet other => set.removeSet other

/-- No range among the arguments ends before it starts. -/
def SetOp.Proper : SetOp T → Prop
  | .add value => (RangeSet.single value).Proper
  | .addRange range => range.Proper
  | .addRangeUnchecked range => range.Proper
  | .addSet other => other.Proper
  | .remove value => (RangeSet.single value).Proper
  | .removeRange range => range.Proper
  | .removeSet other => other.Proper

/-- The sets that a run of operations makes of an empty one. -/
def Reaches (allowed : RangeSet T → SetOp T → Prop) (set : RangeSet T) : Prop :=
  Relation.ReflTransGen
    (fun set set' => ∃ op : SetOp T, op.Proper ∧ allowed set op ∧ op.apply set = some set')
    RangeSet.new set

/-! ## Exact set algebra -/

/-- What the operations answer, as sets of integers. -/
structure SetAlgebra (set other : RangeSet T) (range : Range T) : Prop where
  addRange : ∃ out, set.addRange range = some out ∧
    ∀ x, out.contains x = true ↔ set.contains x = true ∨ range.contains x = true
  addRangeUnchecked : ∀ x, (set.addRangeUnchecked range).contains x = true ↔
    set.contains x = true ∨ range.contains x = true
  addSet : ∃ out, set.addSet other = some out ∧
    ∀ x, out.contains x = true ↔ set.contains x = true ∨ other.contains x = true
  removeRange : ∃ out, set.removeRange range = some out ∧
    ∀ x, out.contains x = true ↔ set.contains x = true ∧ ¬ range.contains x = true
  removeSet : ∃ out, set.removeSet other = some out ∧
    ∀ x, out.contains x = true ↔ set.contains x = true ∧ ¬ other.contains x = true
  difference : ∃ out, set.difference other = some out ∧
    ∀ x, out.contains x = true ↔ set.contains x = true ∧ ¬ other.contains x = true
  intersection : ∃ out, set.intersection other = some out ∧
    ∀ x, out.contains x = true ↔ set.contains x = true ∧ other.contains x = true
  intersectionWithRange : ∃ out, set.intersectionWithRange range = some out ∧
    ∀ x, out.contains x = true ↔ set.contains x = true ∧ range.contains x = true

omit [Add T] [One T] in
theorem setAlgebra_of_proper {set other : RangeSet T} (hset : set.Proper)
    (hother : other.Proper) {range : Range T} (hrange : range.Proper) :
    SetAlgebra set other range := by
  have hremoved : ∃ out, other.ranges.foldlM RangeSet.removeRange set = some out ∧
      ∀ x, out.contains x = true ↔ set.contains x = true ∧ ¬ other.contains x = true := by
    obtain ⟨out, hrun, -, -, hcovers⟩ := RangeSet.foldlM_removeRange other.ranges set hset
    exact ⟨out, hrun, by simpa only [RangeSet.contains_iff] using hcovers⟩
  refine
    { addRange := ?_, addRangeUnchecked := ?_, addSet := ?_, removeRange := ?_,
      removeSet := hremoved, difference := hremoved, intersection := ?_,
      intersectionWithRange := ?_ }
  · obtain ⟨out, hrun, hadded⟩ := RangeSet.addRange_added hset hrange
    exact ⟨out, hrun, by simpa only [RangeSet.contains_iff] using hadded.covers⟩
  · intro x
    simp only [RangeSet.contains_iff, RangeSet.addRangeUnchecked, covers_append, covers_cons,
      covers_nil, or_false]
  · obtain ⟨out, hrun, -, -, hcovers⟩ := RangeSet.foldlM_addRange other.ranges set hset hother
    exact ⟨out, hrun, by simpa only [RangeSet.contains_iff] using hcovers⟩
  · obtain ⟨out, hrun, -, -, hcovers⟩ := RangeSet.removeRange_spec hset range
    exact ⟨out, hrun, by simpa only [RangeSet.contains_iff] using hcovers⟩
  · obtain ⟨out, hrun, -, hcovers⟩ :=
      RangeSet.foldlM_addIntersections set other.ranges RangeSet.new RangeSet.proper_new
    refine ⟨out, hrun, fun x => ?_⟩
    rw [RangeSet.contains_iff, hcovers, RangeSet.contains_iff, RangeSet.contains_iff]
    exact or_iff_right covers_nil
  · obtain ⟨out, hrun, -, hcovers⟩ :=
      RangeSet.addIntersections_spec set range RangeSet.new RangeSet.proper_new
    refine ⟨out, hrun, fun x => ?_⟩
    rw [RangeSet.contains_iff, hcovers, RangeSet.contains_iff]
    exact or_iff_right covers_nil

theorem proper_step {set set' : RangeSet T} (hset : set.Proper) {op : SetOp T}
    (hop : op.Proper) (hrun : op.apply set = some set') : set'.Proper := by
  have hadd : ∀ range : Range T, range.Proper → set.addRange range = some set' →
      set'.Proper := by
    intro range hrange hrun
    obtain ⟨out, hout, hadded⟩ := RangeSet.addRange_added hset hrange
    cases hrun.symm.trans hout
    exact hadded.proper
  have hremove : ∀ range : Range T, set.removeRange range = some set' → set'.Proper := by
    intro range hrun
    obtain ⟨out, hout, hproper, -⟩ := RangeSet.removeRange_spec hset range
    cases hrun.symm.trans hout
    exact hproper
  cases op with
  | add value => exact hadd _ hop hrun
  | addRange range => exact hadd range hop hrun
  | addRangeUnchecked range =>
    cases hrun
    intro r hr
    rcases List.mem_append.mp hr with hr | hr
    · exact hset r hr
    · exact (List.mem_singleton.mp hr) ▸ hop
  | addSet other =>
    obtain ⟨out, hout, hproper, -⟩ := RangeSet.foldlM_addRange other.ranges set hset hop
    cases hrun.symm.trans hout
    exact hproper
  | remove value => exact hremove _ hrun
  | removeRange range => exact hremove range hrun
  | removeSet other =>
    obtain ⟨out, hout, hproper, -⟩ := RangeSet.foldlM_removeRange other.ranges set hset
    cases hrun.symm.trans hout
    exact hproper

theorem Reaches.proper {allowed : RangeSet T → SetOp T → Prop} {set : RangeSet T}
    (h : Reaches allowed set) : set.Proper := by
  induction h with
  | refl => exact RangeSet.proper_new
  | tail _ hstep ih =>
    obtain ⟨op, hop, -, hrun⟩ := hstep
    exact proper_step ih hop hrun

/-- **Membership is exact set algebra** on every set that can be reached: the
operations answer, without a panic and without running on, a set that contains
what it should. -/
theorem setAlgebra_exact {set other : RangeSet T} (hset : Reaches (fun _ _ => True) set)
    (hother : Reaches (fun _ _ => True) other) {range : Range T} (hrange : range.Proper) :
    SetAlgebra set other range :=
  setAlgebra_of_proper hset.proper hother.proper hrange

end Runs

/-- Two ranges stored unchecked, out of order and on top of each other. -/
def shuffled : RangeSet ℤ :=
  ⟨[⟨10, 20⟩, ⟨5, 12⟩], true⟩

theorem setAlgebra_shuffled : SetAlgebra shuffled shuffled ⟨11, 13⟩ := by
  have hreach : Reaches (fun _ _ => True) shuffled := by
    refine .tail (.tail .refl ⟨.addRangeUnchecked ⟨10, 20⟩, ?_, trivial, rfl⟩)
      ⟨.addRangeUnchecked ⟨5, 12⟩, ?_, trivial, rfl⟩
    · show (10 : ℤ) ≤ 20
      decide
    · show (5 : ℤ) ≤ 12
      decide
  exact setAlgebra_exact hreach hreach (show (11 : ℤ) ≤ 13 by decide)

/-! ## Order -/

/-- The stored ranges are not empty, sorted and apart, `len` is the number of
integers in the set, and `iter_values` lists each of them once, in order. -/
structure Orderly (set : RangeSet ℤ) : Prop where
  nonempty : ∀ r ∈ set.ranges, r.start < r.stop
  apart : set.ranges.Pairwise fun a b => a.stop ≤ b.start
  len : set.len = ({x | set.contains x = true} : Set ℤ).ncard
  increasing : set.iterValues.Pairwise (· < ·)
  values : ∀ x, x ∈ set.iterValues ↔ set.contains x = true

theorem numRange_increasing (start stop : ℤ) : (RangeSet.numRange start stop).Pairwise (· < ·) := by
  unfold RangeSet.numRange
  rw [List.pairwise_map]
  refine List.Pairwise.imp ?_ List.pairwise_lt_range
  intro a b hab
  omega

theorem iterValues_increasing {l : List (Range ℤ)} (h : Ordered l) :
    (l.flatMap fun r => RangeSet.numRange r.start r.stop).Pairwise (· < ·) := by
  induction l with
  | nil => exact List.Pairwise.nil
  | cons r l ih =>
    obtain ⟨-, hbehind, hrest⟩ := ordered_cons.mp h
    rw [List.flatMap_cons]
    refine List.pairwise_append.mpr ⟨numRange_increasing _ _, ih hrest, ?_⟩
    intro x hx y hy
    obtain ⟨r', hr', hy⟩ := List.mem_flatMap.mp hy
    have hle := hbehind r' hr'
    rw [RangeSet.mem_numRange] at hx hy
    omega

theorem len_eq_length {set : RangeSet ℤ} (h : set.Proper) : set.len = set.iterValues.length := by
  have hfold : ∀ (l : List (Range ℤ)) (total : ℤ), (∀ r ∈ l, r.Proper) →
      l.foldl (fun total r => total + r.stop - r.start) total =
        total + (l.flatMap fun r => RangeSet.numRange r.start r.stop).length := by
    intro l
    induction l with
    | nil =>
      intro total _
      simp
    | cons r l ih =>
      intro total hl
      have hr : r.start ≤ r.stop := hl r (by simp)
      rw [List.foldl_cons, ih _ fun q hq => hl q (List.mem_cons_of_mem _ hq)]
      simp only [List.flatMap_cons, List.length_append, RangeSet.numRange, List.length_map,
        List.length_range]
      push_cast
      omega
  simpa [RangeSet.len, RangeSet.iterValues] using hfold set.ranges 0 h

theorem mem_iterValues {set : RangeSet ℤ} {x : ℤ} : x ∈ set.iterValues ↔ set.contains x = true := by
  simp only [RangeSet.iterValues, List.mem_flatMap, RangeSet.mem_numRange, RangeSet.contains_iff, Covers,
    Range.contains_iff]

theorem orderly_of_inOrder {set : RangeSet ℤ} (h : set.InOrder) : Orderly set where
  nonempty := h.ordered.nonempty
  apart := h.ordered.apart
  len := by
    have hset : {x | set.contains x = true} = (set.iterValues.toFinset : Set ℤ) := by
      ext x
      simp [mem_iterValues]
    have hnodup : set.iterValues.Nodup := (iterValues_increasing h.ordered).imp fun h => ne_of_lt h
    rw [len_eq_length h.proper, hset, Set.ncard_coe_finset,
      List.toFinset_card_of_nodup hnodup]
  increasing := iterValues_increasing h.ordered
  values := fun _ => mem_iterValues

/-- A range that can be added: it starts in the set or right behind a member,
or it starts before all members, or it meets none. -/
def CleanRange (members : ℤ → Prop) (range : Range ℤ) : Prop :=
  members range.start ∨ members (range.start - 1) ∨ (∀ x, members x → range.start ≤ x) ∨
    ∀ x, members x → ¬ range.contains x = true

/-- The condition on a step: every range that is added is clean when it is its
turn. `add_range_unchecked` is not among the steps. -/
def OrderSafe (set : RangeSet ℤ) : SetOp ℤ → Prop
  | .add _ => True
  | .addRange range => CleanRange (fun x => set.contains x = true) range
  | .addRangeUnchecked _ => False
  | .addSet other => ∀ before range after, other.ranges = before ++ range :: after →
      CleanRange (fun x => set.contains x = true ∨ Covers before x) range
  | .remove _ => True
  | .removeRange _ => True
  | .removeSet _ => True

theorem clean_of_cleanRange {range : Range ℤ} {low high : List (Range ℤ)}
    (h : Ordered (low ++ high)) (hat : SplitAt range.start low high)
    (hclean : CleanRange (Covers (low ++ high)) range) : Clean range low high := by
  intro q hq hlt g hg
  obtain ⟨pre, rfl⟩ := List.getLast?_eq_some_iff.mp hq
  have hqmem : q ∈ pre ++ [q] ++ high := by simp
  have hqne := h.nonempty q hqmem
  have hqstart := hat.low q (by simp)
  -- a range that holds something just below or at the start would be `q`
  have hbefore : ∀ p ∈ pre ++ [q] ++ high, p.start ≤ range.start → p.stop < range.start := by
    intro p hp hpstart
    rcases List.mem_append.mp hp with hp | hp
    · rcases List.mem_append.mp hp with hp | hp
      · have hpq := (ordered_append.mp (ordered_append.mp h).1).2.2 p hp q (by simp)
        omega
      · exact (List.mem_singleton.mp hp) ▸ hlt
    · have := hat.high p hp
      omega
  rcases hclean with ⟨p, hp, hx⟩ | ⟨p, hp, hx⟩ | hall | hdisj
  · rw [Range.contains_iff] at hx
    have := hbefore p hp hx.1
    omega
  · rw [Range.contains_iff] at hx
    have := hbefore p hp (by omega)
    omega
  · have := hall q.start ⟨q, hqmem, Range.contains_iff.mpr ⟨le_rfl, hqne⟩⟩
    omega
  · refine RangeSet.clean_of_disjoint ?_ hat (fun x hx hcov => hdisj x hcov hx) q hq hlt g hg
    exact fun b hb => h.nonempty b (List.mem_append_right _ hb)

theorem inOrder_addRange {set set' : RangeSet ℤ} (h : set.InOrder) {range : Range ℤ}
    (hrange : range.Proper) (hclean : CleanRange (Covers set.ranges) range)
    (hrun : set.addRange range = some set') : set'.InOrder := by
  refine RangeSet.addRange_inOrder h hrange ?_ hrun
  intro low high hsplit hat
  exact clean_of_cleanRange (hsplit ▸ h.ordered) hat (hsplit ▸ hclean)

theorem inOrder_addSet (l : List (Range ℤ)) :
    ∀ set : RangeSet ℤ, set.InOrder → (∀ r ∈ l, r.Proper) →
    (∀ before range after, l = before ++ range :: after →
      CleanRange (fun x => Covers set.ranges x ∨ Covers before x) range) →
    ∀ set', l.foldlM RangeSet.addRange set = some set' → set'.InOrder := by
  induction l with
  | nil =>
    intro set h _ _ set' hrun
    cases hrun
    exact h
  | cons r l ih =>
    intro set h hl hclean set' hrun
    obtain ⟨set₁, hadd, hadded⟩ := RangeSet.addRange_added h.proper (hl r (by simp))
    have h₁ : set₁.InOrder := by
      refine inOrder_addRange h (hl r (by simp)) ?_ hadd
      have hfirst := hclean [] r l rfl
      simpa only [covers_nil, or_false] using hfirst
    simp only [List.foldlM_cons, hadd, Option.bind_eq_bind, Option.bind_some] at hrun
    refine ih set₁ h₁ (fun q hq => hl q (List.mem_cons_of_mem _ hq)) ?_ set' hrun
    intro before range after hsplit
    have hnext := hclean (r :: before) range after (by rw [hsplit]; rfl)
    simpa only [hadded.covers, covers_cons, or_assoc] using hnext

theorem inOrder_removeSet (l : List (Range ℤ)) : ∀ set : RangeSet ℤ, set.InOrder →
    ∀ set', l.foldlM RangeSet.removeRange set = some set' → set'.InOrder := by
  induction l with
  | nil =>
    intro set h set' hrun
    cases hrun
    exact h
  | cons r l ih =>
    intro set h set' hrun
    simp only [List.foldlM_cons, Option.bind_eq_bind, Option.bind_eq_some_iff] at hrun
    obtain ⟨set₁, hremove, hrun⟩ := hrun
    exact ih set₁ (RangeSet.removeRange_inOrder h hremove) set' hrun

theorem inOrder_step {set set' : RangeSet ℤ} (h : set.InOrder) {op : SetOp ℤ}
    (hop : op.Proper) (hsafe : OrderSafe set op) (hrun : op.apply set = some set') :
    set'.InOrder := by
  cases op with
  | add value =>
    refine inOrder_addRange h hop ?_ hrun
    by_cases hmem : Covers set.ranges value
    · exact .inl hmem
    · refine .inr (.inr (.inr ?_))
      intro x hx hin
      rw [Range.contains_iff] at hin
      obtain rfl : x = value := by
        simp only [RangeSet.single] at hin
        omega
      exact hmem hx
  | addRange range =>
    refine inOrder_addRange h hop ?_ hrun
    simpa only [OrderSafe, RangeSet.contains_iff] using hsafe
  | addRangeUnchecked range => exact hsafe.elim
  | addSet other =>
    refine inOrder_addSet other.ranges set h hop ?_ set' hrun
    simpa only [OrderSafe, RangeSet.contains_iff] using hsafe
  | remove value => exact RangeSet.removeRange_inOrder h hrun
  | removeRange range => exact RangeSet.removeRange_inOrder h hrun
  | removeSet other => exact inOrder_removeSet other.ranges set h set' hrun

/-- **The order is kept in every run** whose steps meet the condition. -/
theorem orderly_of_reaches {set : RangeSet ℤ} (h : Reaches OrderSafe set) : Orderly set := by
  refine orderly_of_inOrder ?_
  induction h with
  | refl => exact RangeSet.inOrder_new
  | tail _ hstep ih =>
    obtain ⟨op, hop, hsafe, hrun⟩ := hstep
    exact inOrder_step ih hop hsafe hrun

/-- Two ranges and one that joins them. -/
theorem orderly_joined : ∃ set : RangeSet ℤ, set.ranges = [⟨1, 12⟩] ∧ Orderly set := by
  have hone : Reaches OrderSafe (⟨[⟨1, 3⟩], false⟩ : RangeSet ℤ) := by
    refine .tail .refl ⟨.addRange ⟨1, 3⟩, show (1 : ℤ) ≤ 3 by decide, ?_, rfl⟩
    exact .inr (.inr (.inl (by simp [RangeSet.new, RangeSet.contains])))
  have htwo : Reaches OrderSafe (⟨[⟨1, 3⟩, ⟨10, 12⟩], false⟩ : RangeSet ℤ) := by
    refine .tail hone ⟨.addRange ⟨10, 12⟩, show (10 : ℤ) ≤ 12 by decide, ?_, by decide⟩
    refine .inr (.inr (.inr ?_))
    intro x hx hin
    simp only [RangeSet.contains, List.any_cons, List.any_nil, Bool.or_false,
      Range.contains_iff] at hx hin
    omega
  refine ⟨⟨[⟨1, 12⟩], false⟩, rfl, orderly_of_reaches (.tail htwo
    ⟨.addRange ⟨2, 11⟩, show (2 : ℤ) ≤ 11 by decide, .inl (by decide), by decide⟩)⟩

/-- A range that meets the second of two ranges is stored on top of it. -/
theorem order_lost_overlap :
    ¬ ∀ set : RangeSet ℤ, Reaches (fun _ op => ∀ range, op ≠ .addRangeUnchecked range) set →
      Orderly set := by
  intro hall
  have hreach : Reaches (fun _ op => ∀ range, op ≠ .addRangeUnchecked range)
      (⟨[⟨1, 3⟩, ⟨5, 11⟩, ⟨10, 12⟩], false⟩ : RangeSet ℤ) := by
    refine .tail (.tail (.tail .refl
      ⟨.addRange ⟨1, 3⟩, show (1 : ℤ) ≤ 3 by decide, nofun, rfl⟩)
      ⟨.addRange ⟨10, 12⟩, show (10 : ℤ) ≤ 12 by decide, nofun, rfl⟩)
      ⟨.addRange ⟨5, 11⟩, show (5 : ℤ) ≤ 11 by decide, nofun, by decide⟩
  have hapart := (hall _ hreach).apart
  revert hapart
  decide

end Wakterm.Theorems.Rangeset
