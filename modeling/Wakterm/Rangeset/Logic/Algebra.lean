import Mathlib.Order.MinMax
import Wakterm.Rangeset.RangeSet

/-!
# What the stored ranges denote

Every operation is exact on the set of integers the ranges stand for, whatever their order and
however they overlap: a range is merged only with one it meets or follows (`contains_rangeUnion`),
and where nothing is merged it is stored as it is.
-/

namespace Wakterm.Rangeset

open Wakterm.Machine

variable {T : Type} [LinearOrder T]

/-! ## Ranges -/

/-- A range does not end before it starts. -/
def Range.Proper (r : Range T) : Prop :=
  r.start ≤ r.stop

variable {r r1 r2 : Range T} {l l' : List (Range T)}

theorem Range.contains_iff {x : T} : r.contains x = true ↔ r.start ≤ x ∧ x < r.stop := by
  simp [Range.contains]

theorem not_contains_of_isEmpty (h : rangeIsEmpty r = true) (x : T) : ¬ r.contains x = true := by
  have heq : r.start = r.stop := by simpa [rangeIsEmpty] using h
  rw [Range.contains_iff, heq]
  exact fun hx => absurd (hx.1.trans_lt hx.2) (lt_irrefl _)

theorem lt_stop_of_not_isEmpty (hr : r.Proper) (h : ¬ rangeIsEmpty r = true) :
    r.start < r.stop := by
  have hne : r.start ≠ r.stop := by simpa [rangeIsEmpty] using h
  exact lt_of_le_of_ne hr hne

theorem intersectsRange_iff :
    intersectsRange r1 r2 = true ↔ max r1.start r2.start < min r1.stop r2.stop := by
  simp [intersectsRange]

theorem contains_rangeUnion (h1 : r1.Proper) (h2 : r2.Proper) (h12 : r1.start ≤ r2.stop)
    (h21 : r2.start ≤ r1.stop) (x : T) :
    (rangeUnion r1 r2).contains x = true ↔ r1.contains x = true ∨ r2.contains x = true := by
  unfold Range.Proper at h1 h2
  simp only [rangeUnion, rangeIsEmpty, decide_eq_true_eq]
  split_ifs with he1 he2
  · grind [Range.contains_iff]
  · grind [Range.contains_iff]
  · grind [Range.contains_iff]

theorem proper_rangeUnion (h1 : r1.Proper) (h2 : r2.Proper) : (rangeUnion r1 r2).Proper := by
  unfold rangeUnion
  split_ifs
  · exact h2
  · exact h1
  · exact (min_le_left _ _).trans (h1.trans (le_max_left _ _))

theorem rangeIntersection_spec (r1 r2 : Range T) :
    (∀ i, rangeIntersection r1 r2 = some i → i.start < i.stop) ∧
      ∀ x, (∃ i, rangeIntersection r1 r2 = some i ∧ i.contains x = true) ↔
        r1.contains x = true ∧ r2.contains x = true := by
  unfold rangeIntersection
  by_cases h : min r1.stop r2.stop > max r1.start r2.start
  · simp only [if_pos h, Option.some.injEq]
    refine ⟨?_, ?_⟩
    · rintro i rfl
      exact h
    · intro x
      simp only [exists_eq_left', Range.contains_iff, max_le_iff, lt_min_iff]
      tauto
  · simp only [if_neg h, reduceCtorEq, false_and, exists_false, false_iff]
    refine ⟨nofun, ?_⟩
    intro x hx
    simp only [Range.contains_iff] at hx
    exact h (lt_of_le_of_lt (max_le hx.1.1 hx.2.1) (lt_min hx.1.2 hx.2.2))

/-- What is left of a range when another is taken out of it. -/
def pieces (r1 r2 : Range T) : List (Range T) :=
  (rangeSubtract r1 r2).1.toList ++ (rangeSubtract r1 r2).2.toList

theorem contains_pieces (r1 r2 : Range T) (x : T) : (∃ a ∈ pieces r1 r2, a.contains x = true) ↔
      r1.contains x = true ∧ ¬ r2.contains x = true := by
  simp only [pieces, List.mem_append, Option.mem_toList, or_and_right, exists_or]
  unfold rangeSubtract
  by_cases h : min r1.stop r2.stop > max r1.start r2.start
  · simp only [if_pos h]
    split_ifs with ha hb hb
    · grind [Range.contains_iff]
    · grind [Range.contains_iff]
    · grind [Range.contains_iff]
    · grind [Range.contains_iff]
  · simp only [if_neg h, Option.some.injEq, exists_eq_left', reduceCtorEq, false_and,
      exists_false, or_false]
    grind [Range.contains_iff]

theorem proper_of_mem_pieces {a : Range T} (h1 : r1.Proper) (ha : a ∈ pieces r1 r2) : a.Proper := by
  unfold Range.Proper at h1 ⊢
  simp only [pieces, List.mem_append, Option.mem_toList] at ha
  unfold rangeSubtract at ha
  by_cases h : min r1.stop r2.stop > max r1.start r2.start
  · simp only [if_pos h] at ha
    grind
  · simp only [if_neg h, Option.some.injEq, reduceCtorEq, or_false] at ha
    exact ha ▸ h1

/-! ## The set of a list of ranges -/

/-- The integers of a list of ranges. -/
def Covers (l : List (Range T)) (x : T) : Prop :=
  ∃ r ∈ l, r.contains x = true

theorem covers_append {x : T} : Covers (l ++ l') x ↔ Covers l x ∨ Covers l' x := by
  simp only [Covers, List.mem_append, or_and_right, exists_or]

theorem covers_cons {x : T} : Covers (r :: l) x ↔ r.contains x = true ∨ Covers l x := by
  simp only [Covers, List.mem_cons, or_and_right, exists_or, exists_eq_left]

theorem covers_perm (h : l.Perm l') {x : T} : Covers l x ↔ Covers l' x := by
  simp only [Covers, h.mem_iff]

theorem covers_nil {x : T} : ¬ Covers ([] : List (Range T)) x := by
  simp [Covers]

namespace RangeSet

variable {set : RangeSet T} {range : Range T} {idx : Nat}

theorem contains_iff {x : T} : set.contains x = true ↔ Covers set.ranges x := by
  simp [contains, Covers]

/-- No stored range ends before it starts. -/
def Proper (set : RangeSet T) : Prop :=
  ∀ r ∈ set.ranges, r.Proper

theorem exists_append_of_getElem? {α : Type} {l : List α} {i : Nat} {x : α}
    (h : l[i]? = some x) : ∃ pre post, l = pre ++ x :: post ∧ pre.length = i := by
  obtain ⟨hlt, rfl⟩ := List.getElem?_eq_some_iff.mp h
  refine ⟨l.take i, l.drop (i + 1), ?_, by simp; omega⟩
  rw [List.getElem_cons_drop, List.take_append_drop]

/-! ## Adding a range -/

theorem compareRange_isSome (range r : Range T) : ∃ cmp, compareRange range r = some cmp := by
  unfold compareRange
  split_ifs with h1 h2 h3
  · exact ⟨_, rfl⟩
  · exact ⟨_, rfl⟩
  · exact ⟨_, rfl⟩
  · rw [not_lt] at h2 h3
    exact absurd ⟨h2, h3⟩ h1

theorem compareRange_eq_some (range r : Range T) :
    compareRange range r = some ((compareRange range r).getD .eq) := by
  obtain ⟨cmp, hcmp⟩ := compareRange_isSome range r
  rw [hcmp]
  rfl

theorem binarySearchRanges_bounds (set : RangeSet T) (range : Range T) :
    ∃ res, set.binarySearchRanges range = some res ∧ (∀ i, res = .ok i → i < set.ranges.length) ∧
      ∀ i, res = .error i → i ≤ set.ranges.length :=
  binarySearchBy_bounds fun r _ => compareRange_eq_some range r

theorem insertionPoint_bounds (h : set.needsSort = false) (range : Range T) :
    ∃ idx, set.insertionPoint range = some idx ∧ idx ≤ set.ranges.length := by
  obtain ⟨res, hres, hok, herr⟩ := set.binarySearchRanges_bounds range
  simp only [insertionPoint, h, Bool.false_eq_true, if_false, hres, Option.bind_eq_bind,
    Option.bind_some]
  cases res with
  | ok i => exact ⟨i, rfl, (hok i rfl).le⟩
  | error i => exact ⟨i, rfl, herr i rfl⟩

theorem meets_iff {set : RangeSet T} {range : Range T} {idx : Nat} :
    set.meets range idx = true ↔ ∃ r, set.ranges[idx]? = some r ∧
      (intersectsRange r range = true ∨ r.stop = range.start) := by
  unfold meets
  cases set.ranges[idx]? with
  | none => simp
  | some r => simp

theorem gapless_of_meets (hset : set.Proper) (hrange : range.Proper)
    (h : set.meets range idx = true) :
    ∃ pre r post, set.ranges = pre ++ r :: post ∧ pre.length = idx ∧ r.Proper ∧
      r.start ≤ range.stop ∧ range.start ≤ r.stop := by
  obtain ⟨r, hr, hmeets⟩ := meets_iff.mp h
  obtain ⟨pre, post, hsplit, hlen⟩ := exists_append_of_getElem? hr
  have hproper : r.Proper := hset r (by rw [hsplit]; simp)
  refine ⟨pre, r, post, hsplit, hlen, hproper, ?_⟩
  rw [intersectsRange_iff, max_lt_iff, lt_min_iff, lt_min_iff] at hmeets
  rcases hmeets with hmeets | hmeets
  · exact ⟨hmeets.1.2.le, hmeets.2.1.le⟩
  · exact ⟨hproper.trans (hmeets.le.trans hrange), hmeets.ge⟩

theorem intersectionHelper_cases (h : set.needsSort = false) (range : Range T) :
    set.intersectionHelper range = some (none, none) ∨ ∃ a, set.meets range a = true ∧
        (set.intersectionHelper range = some (some a, none) ∨ set.meets range (a + 1) = true ∧
            set.intersectionHelper range = some (some a, some (a + 1))) := by
  obtain ⟨res, hres, -, -⟩ := set.binarySearchRanges_bounds range
  obtain ⟨idx, hidx⟩ : ∃ idx, set.intersectionHelper range =
      if set.meets range (idx + 1) && (if set.meets range idx then some idx else none).isSome then
        some (if set.meets range idx then some idx else none, some (idx + 1))
      else some (if set.meets range idx then some idx else none, none) := by
    cases res with
    | ok i =>
      refine ⟨i, ?_⟩
      simp only [intersectionHelper, h, Bool.false_eq_true, if_false, hres,
        Option.bind_eq_bind, Option.bind_some]
    | error i =>
      refine ⟨i - 1, ?_⟩
      simp only [intersectionHelper, h, Bool.false_eq_true, if_false, hres,
        Option.bind_eq_bind, Option.bind_some]
  rw [hidx]
  cases hfirst : set.meets range idx with
  | false => exact .inl (by simp)
  | true =>
    refine .inr ⟨idx, hfirst, ?_⟩
    cases hsecond : set.meets range (idx + 1) with
    | false => exact .inl (by simp)
    | true => exact .inr ⟨rfl, by simp⟩

theorem sortIfNeeded_needsSort (set : RangeSet T) : set.sortIfNeeded.needsSort = false := by
  unfold sortIfNeeded
  split_ifs with h
  · rfl
  · simpa using h

theorem sortIfNeeded_perm (set : RangeSet T) : set.sortIfNeeded.ranges.Perm set.ranges := by
  unfold sortIfNeeded
  split_ifs
  · exact List.perm_insertionSort _ _
  · exact .refl _

/-- What adding a range comes to: the set is proper again, is not left unsorted,
and holds the range besides what it held. -/
structure Added (set : RangeSet T) (range : Range T) (set' : RangeSet T) : Prop where
  proper : set'.Proper
  sorted : set.needsSort = false → set'.needsSort = false
  covers : ∀ x, Covers set'.ranges x ↔ Covers set.ranges x ∨ range.contains x = true

theorem Added.of_sorted {set' : RangeSet T} (h : Added set.sortIfNeeded range set') :
    Added set range set' where
  proper := h.proper
  sorted := fun _ => h.sorted set.sortIfNeeded_needsSort
  covers := by
    intro x
    rw [h.covers, covers_perm set.sortIfNeeded_perm]

theorem Proper.sortIfNeeded (h : set.Proper) : set.sortIfNeeded.Proper :=
  fun r hr => h r (set.sortIfNeeded_perm.mem_iff.mp hr)

theorem mergeIntoRange_added (hset : set.Proper) (hrange : range.Proper)
    (h : set.meets range idx = true) :
    ∃ set', set.mergeIntoRange idx range = some set' ∧ Added set range set' := by
  obtain ⟨pre, r, post, hsplit, rfl, hr, h1, h2⟩ := gapless_of_meets hset hrange h
  refine ⟨{ set with ranges := pre ++ rangeUnion r range :: post }, ?_, ?_, fun h => h, ?_⟩
  · simp [mergeIntoRange, hsplit]
  · intro q hq
    rcases List.mem_append.mp hq with hq | hq
    · exact hset q (by rw [hsplit]; simp [hq])
    · rcases List.mem_cons.mp hq with rfl | hq
      · exact proper_rangeUnion hr hrange
      · exact hset q (by rw [hsplit]; simp [hq])
  · intro x
    rw [hsplit]
    simp only [covers_append, covers_cons, contains_rangeUnion hr hrange h1 h2]
    tauto

theorem insertAt_added (hset : set.Proper) (hrange : range.Proper) (h : idx ≤ set.ranges.length) :
    ∃ ranges, insertAt set.ranges idx range = some ranges ∧
      Added set range { set with ranges := ranges } := by
  have hperm : (set.ranges.insertIdx idx range).Perm (range :: set.ranges) :=
    List.perm_insertIdx range set.ranges h
  refine ⟨_, if_pos h, ?_, fun h => h, ?_⟩
  · intro q hq
    rcases List.mem_cons.mp (hperm.mem_iff.mp hq) with rfl | hq
    · exact hrange
    · exact hset q hq
  · intro x
    rw [covers_perm hperm, covers_cons, or_comm]

theorem addRangeAux_added (fuel : Nat) :
    ∀ (set : RangeSet T) (range : Range T), set.ranges.length < fuel → set.Proper →
    range.Proper → ∃ set', addRangeAux fuel set range = some set' ∧ Added set range set' := by
  induction fuel with
  | zero =>
    intro set range hfuel
    omega
  | succ fuel ih =>
    intro set range hfuel hset hrange
    unfold addRangeAux
    by_cases hempty : rangeIsEmpty range = true
    · rw [if_pos hempty]
      refine ⟨set, rfl, hset, fun h => h, ?_⟩
      intro x
      simp [not_contains_of_isEmpty hempty x]
    rw [if_neg hempty]
    by_cases hnil : set.ranges.isEmpty = true
    · rw [if_pos hnil]
      rw [List.isEmpty_iff] at hnil
      refine ⟨_, rfl, ?_, fun h => h, ?_⟩
      · intro q hq
        simp only [hnil, List.nil_append, List.mem_singleton] at hq
        exact hq ▸ hrange
      · intro x
        simp only [covers_append, covers_cons, covers_nil, or_false]
    rw [if_neg hnil]
    have hsorted := set.sortIfNeeded_needsSort
    have hproper := hset.sortIfNeeded
    rcases intersectionHelper_cases hsorted range with
      hhelp | ⟨a, hmeets, hhelp | ⟨hmeets', hhelp⟩⟩
    · -- nothing to merge with
      obtain ⟨idx, hidx, hle⟩ := insertionPoint_bounds hsorted range
      obtain ⟨ranges, hins, hadded⟩ := insertAt_added hproper hrange hle
      refine ⟨_, ?_, hadded.of_sorted⟩
      simp only [hhelp, Option.bind_eq_bind, Option.bind_some, hidx, hins]
    · obtain ⟨set', hmerge, hadded⟩ := mergeIntoRange_added hproper hrange hmeets
      refine ⟨set', ?_, hadded.of_sorted⟩
      simp only [hhelp, Option.bind_eq_bind, Option.bind_some, hmerge]
    · -- the second of two neighbours is taken out and added with the range
      obtain ⟨pre, r, post, hsplit, hlen, hr, h1, h2⟩ := gapless_of_meets hproper hrange hmeets'
      have hget : set.sortIfNeeded.ranges[a + 1]? = some r := by
        rw [hsplit, ← hlen]
        simp
      have hlt : a + 1 < set.sortIfNeeded.ranges.length := by
        rw [hsplit, List.length_append, hlen]
        simp
      have herase : set.sortIfNeeded.ranges.eraseIdx (a + 1) = pre ++ post := by
        rw [hsplit, ← hlen, List.eraseIdx_append_of_length_le (Nat.le_refl _)]
        simp
      have hshort : (pre ++ post).length < fuel := by
        have hperm := set.sortIfNeeded_perm.length_eq
        rw [hsplit] at hperm
        simp only [List.length_append, List.length_cons] at hperm ⊢
        omega
      obtain ⟨set', hrec, hadded⟩ := ih { set.sortIfNeeded with ranges := pre ++ post }
        (rangeUnion range r) hshort
        (fun q hq => hproper q (by
          rw [hsplit]
          rcases List.mem_append.mp hq with hq | hq <;> simp [hq]))
        (proper_rangeUnion hrange hr)
      refine ⟨set', ?_, Added.of_sorted ⟨hadded.proper, fun _ => hadded.sorted hsorted, ?_⟩⟩
      · simp only [hhelp, Option.bind_eq_bind, Option.bind_some, if_true, hget, removeAt,
          if_pos hlt, herase, hrec]
      · intro x
        rw [hadded.covers, hsplit]
        simp only [covers_append, covers_cons, contains_rangeUnion hrange hr h2 h1]
        tauto

/-- **Adding a range is exact**, and never panics or runs on. -/
theorem addRange_added (hset : set.Proper) (hrange : range.Proper) :
    ∃ set', set.addRange range = some set' ∧ Added set range set' :=
  addRangeAux_added _ set range (Nat.lt_succ_self _) hset hrange

theorem foldlM_addRange (l : List (Range T)) :
    ∀ set : RangeSet T, set.Proper → (∀ r ∈ l, r.Proper) →
    ∃ set', l.foldlM addRange set = some set' ∧ set'.Proper ∧
      (set.needsSort = false → set'.needsSort = false) ∧
      ∀ x, Covers set'.ranges x ↔ Covers set.ranges x ∨ Covers l x := by
  induction l with
  | nil =>
    intro set hset _
    refine ⟨set, rfl, hset, fun h => h, ?_⟩
    intro x
    simp [covers_nil]
  | cons r l ih =>
    intro set hset hl
    obtain ⟨set₁, hadd, hadded⟩ := addRange_added hset (hl r (by simp))
    obtain ⟨set', hrun, hproper, hsorted, hcovers⟩ :=
      ih set₁ hadded.proper fun q hq => hl q (List.mem_cons_of_mem _ hq)
    refine ⟨set', ?_, hproper, fun h => hsorted (hadded.sorted h), ?_⟩
    · simp only [List.foldlM_cons, hadd, Option.bind_eq_bind, Option.bind_some, hrun]
    · intro x
      rw [hcovers, hadded.covers, covers_cons, or_assoc]

/-! ## Removing a range -/

/-- A stored range that `remove_range` replaces by its pieces. -/
def changed (range r : Range T) : Bool :=
  pieces r range ≠ [r]

/-- The positions of the ranges it replaces, the first range being at `k`. -/
def changedAt (range : Range T) : Nat → List (Range T) → List Nat
  | _, [] => []
  | k, r :: l => if changed range r then k :: changedAt range (k + 1) l
      else changedAt range (k + 1) l

theorem subtractStep_eq (range : Range T) (acc : List (Range T) × List Nat) (r : Range T)
    (idx : Nat) : subtractStep range acc (r, idx) =
      if changed range r then (acc.1 ++ pieces r range, acc.2 ++ [idx]) else acc := by
  rcases hsub : rangeSubtract r range with ⟨_ | a, _ | b⟩
  · simp [subtractStep, changed, pieces, hsub]
  · simp [subtractStep, changed, pieces, hsub]
  · simp [subtractStep, changed, pieces, hsub]
  · simp [subtractStep, changed, pieces, hsub]

theorem foldl_subtractStep (range : Range T) (l : List (Range T)) :
    ∀ (k : Nat) (acc : List (Range T) × List Nat), (l.zipIdx k).foldl (subtractStep range) acc =
      (acc.1 ++ (l.filter (changed range)).flatMap (pieces · range),
        acc.2 ++ changedAt range k l) := by
  induction l with
  | nil =>
    intro k acc
    simp [changedAt]
  | cons r l ih =>
    intro k acc
    rw [List.zipIdx_cons, List.foldl_cons, subtractStep_eq, ih]
    cases h : changed range r with
    | false => simp [changedAt, h]
    | true => simp [changedAt, h]

theorem foldlM_removeAt (range : Range T) (l : List (Range T)) : ∀ pre : List (Range T),
    (changedAt range pre.length l).reverse.foldlM removeAt (pre ++ l) =
      some (pre ++ l.filter fun r => !changed range r) := by
  induction l with
  | nil =>
    intro pre
    simp [changedAt]
  | cons r l ih =>
    intro pre
    have hrest := ih (pre ++ [r])
    simp only [List.length_append, List.length_singleton, List.append_assoc,
      List.singleton_append] at hrest
    cases h : changed range r with
    | false => simpa [changedAt, h] using hrest
    | true =>
      simp only [changedAt, h, if_true, List.reverse_cons, List.foldlM_append, hrest,
        Option.bind_eq_bind, Option.bind_some, List.foldlM_cons, List.foldlM_nil]
      simp [removeAt, h, List.eraseIdx_append_of_length_le]

theorem covers_subtracted (range : Range T) (l : List (Range T)) (x : T) :
    Covers (l.filter fun r => !changed range r) x ∨
        Covers ((l.filter (changed range)).flatMap (pieces · range)) x ↔
      Covers l x ∧ ¬ range.contains x = true := by
  induction l with
  | nil => simp [covers_nil]
  | cons r l ih =>
    have hpieces := contains_pieces r range x
    cases h : changed range r with
    | false =>
      have hsame : pieces r range = [r] := by simpa [changed] using h
      rw [hsame] at hpieces
      simp only [List.mem_singleton, exists_eq_left] at hpieces
      simp only [List.filter_cons, h, Bool.not_false, if_true, Bool.false_eq_true, if_false,
        covers_cons]
      tauto
    | true =>
      simp only [List.filter_cons, h, Bool.not_true, Bool.false_eq_true, if_false, if_true,
        List.flatMap_cons, covers_append, covers_cons]
      have hcov : Covers (pieces r range) x ↔
          r.contains x = true ∧ ¬ range.contains x = true := hpieces
      tauto

theorem removeRange_eq (set : RangeSet T) (range : Range T) : set.removeRange range =
      ((set.ranges.filter (changed range)).flatMap (pieces · range)).foldlM addRange
        { set with ranges := set.ranges.filter fun r => !changed range r } := by
  have hloop := foldl_subtractStep range set.ranges 0 ([], [])
  have hremove := foldlM_removeAt range set.ranges []
  simp only [List.nil_append, List.length_nil] at hloop hremove
  simp only [removeRange, hloop, hremove, Option.bind_eq_bind, Option.bind_some]

/-- **Removing a range is exact**, and never panics. -/
theorem removeRange_spec (hset : set.Proper) (range : Range T) :
    ∃ set', set.removeRange range = some set' ∧ set'.Proper ∧
      (set.needsSort = false → set'.needsSort = false) ∧
      ∀ x, Covers set'.ranges x ↔ Covers set.ranges x ∧ ¬ range.contains x = true := by
  rw [removeRange_eq]
  obtain ⟨set', hrun, hproper, hsorted, hcovers⟩ := foldlM_addRange
    ((set.ranges.filter (changed range)).flatMap (pieces · range))
    { set with ranges := set.ranges.filter fun r => !changed range r }
    (fun r hr => hset r (List.mem_filter.mp hr).1) (by
      intro a ha
      obtain ⟨r, hr, ha⟩ := List.mem_flatMap.mp ha
      exact proper_of_mem_pieces (hset r (List.mem_filter.mp hr).1) ha)
  refine ⟨set', hrun, hproper, hsorted, ?_⟩
  intro x
  rw [hcovers, covers_subtracted]

theorem foldlM_removeRange (l : List (Range T)) : ∀ set : RangeSet T, set.Proper →
    ∃ set', l.foldlM removeRange set = some set' ∧ set'.Proper ∧
      (set.needsSort = false → set'.needsSort = false) ∧
      ∀ x, Covers set'.ranges x ↔ Covers set.ranges x ∧ ¬ Covers l x := by
  induction l with
  | nil =>
    intro set hset
    refine ⟨set, rfl, hset, fun h => h, ?_⟩
    intro x
    simp [covers_nil]
  | cons r l ih =>
    intro set hset
    obtain ⟨set₁, hremove, hproper₁, hsorted₁, hcovers₁⟩ := removeRange_spec hset r
    obtain ⟨set', hrun, hproper, hsorted, hcovers⟩ := ih set₁ hproper₁
    refine ⟨set', ?_, hproper, fun h => hsorted (hsorted₁ h), ?_⟩
    · simp only [List.foldlM_cons, hremove, Option.bind_eq_bind, Option.bind_some, hrun]
    · intro x
      rw [hcovers, hcovers₁, covers_cons, not_or, and_assoc]

/-! ## Intersections -/

theorem addIntersections_spec (set : RangeSet T) (range : Range T) :
    ∀ result : RangeSet T, result.Proper →
    ∃ set', set.addIntersections result range = some set' ∧ set'.Proper ∧
      ∀ x, Covers set'.ranges x ↔
        Covers result.ranges x ∨ Covers set.ranges x ∧ range.contains x = true := by
  obtain ⟨ranges, needsSort⟩ := set
  simp only [addIntersections]
  induction ranges with
  | nil =>
    intro result hresult
    refine ⟨result, rfl, hresult, ?_⟩
    intro x
    simp [covers_nil]
  | cons r l ih =>
    intro result hresult
    obtain ⟨hproper, hcontains⟩ := rangeIntersection_spec r range
    cases hi : rangeIntersection r range with
    | none =>
      obtain ⟨set', hrun, hproper', hcovers⟩ := ih result hresult
      refine ⟨set', ?_, hproper', ?_⟩
      · simp only [List.foldlM_cons, hi, Option.bind_eq_bind, Option.bind_some, hrun]
      · intro x
        have hnone := hcontains x
        simp only [hi, reduceCtorEq, false_and, exists_false, false_iff] at hnone
        rw [hcovers, covers_cons]
        tauto
    | some i =>
      obtain ⟨set₁, hadd, hadded⟩ := addRange_added hresult (hproper i hi).le
      obtain ⟨set', hrun, hproper', hcovers⟩ := ih set₁ hadded.proper
      refine ⟨set', ?_, hproper', ?_⟩
      · simp only [List.foldlM_cons, hi, hadd, Option.bind_eq_bind, Option.bind_some, hrun]
      · intro x
        have hsome := hcontains x
        simp only [hi, Option.some.injEq, exists_eq_left'] at hsome
        rw [hcovers, hadded.covers, covers_cons]
        tauto

theorem foldlM_addIntersections (set : RangeSet T) (l : List (Range T)) :
    ∀ result : RangeSet T, result.Proper →
    ∃ set', l.foldlM set.addIntersections result = some set' ∧ set'.Proper ∧
      ∀ x, Covers set'.ranges x ↔ Covers result.ranges x ∨ Covers set.ranges x ∧ Covers l x := by
  induction l with
  | nil =>
    intro result hresult
    refine ⟨result, rfl, hresult, ?_⟩
    intro x
    simp [covers_nil]
  | cons r l ih =>
    intro result hresult
    obtain ⟨set₁, hadd, hproper₁, hcovers₁⟩ := addIntersections_spec set r result hresult
    obtain ⟨set', hrun, hproper, hcovers⟩ := ih set₁ hproper₁
    refine ⟨set', ?_, hproper, ?_⟩
    · simp only [List.foldlM_cons, hadd, Option.bind_eq_bind, Option.bind_some, hrun]
    · intro x
      rw [hcovers, hcovers₁, covers_cons]
      tauto

theorem proper_new : (new : RangeSet T).Proper :=
  fun _ hr => absurd hr (by simp [new])

/-! ## Values -/

theorem mem_numRange {start stop x : ℤ} : x ∈ numRange start stop ↔ start ≤ x ∧ x < stop := by
  simp only [numRange, List.mem_map, List.mem_range]
  constructor
  · rintro ⟨i, hi, rfl⟩
    omega
  · rintro ⟨h1, h2⟩
    exact ⟨(x - start).toNat, by omega, by omega⟩

theorem numRange_nodup (start stop : ℤ) : (numRange start stop).Nodup := by
  unfold numRange
  refine List.Nodup.map ?_ List.nodup_range
  intro a b hab
  have hab : start + (a : ℤ) = start + (b : ℤ) := hab
  omega

theorem mem_iterValues {set : RangeSet ℤ} {x : ℤ} : x ∈ set.iterValues ↔ Covers set.ranges x := by
  simp only [iterValues, List.mem_flatMap, mem_numRange, Covers, Range.contains_iff]

/-! ## Ranges that end before they start

Such a range holds nothing, but is stored. It may then bring more into the set when it is merged
with others; nothing is lost. -/

theorem contains_rangeUnion_of_or {r1 r2 : Range T} {x : T}
    (h : r1.contains x = true ∨ r2.contains x = true) : (rangeUnion r1 r2).contains x = true := by
  unfold rangeUnion
  split_ifs with h1 h2
  · exact h.resolve_left (not_contains_of_isEmpty h1 x)
  · exact h.resolve_right (not_contains_of_isEmpty h2 x)
  · rw [Range.contains_iff, min_le_iff, lt_max_iff]
    rcases h with h | h
    · rw [Range.contains_iff] at h
      exact ⟨.inl h.1, .inl h.2⟩
    · rw [Range.contains_iff] at h
      exact ⟨.inr h.1, .inr h.2⟩

/-- A set that holds all of another one, and of a range. -/
def Keeps (set : RangeSet T) (range : Range T) (set' : RangeSet T) : Prop :=
  ∀ x, Covers set.ranges x ∨ range.contains x = true → Covers set'.ranges x

theorem mergeIntoRange_keeps (h : set.meets range idx = true) :
    ∃ set', set.mergeIntoRange idx range = some set' ∧ set.Keeps range set' := by
  obtain ⟨r, hr, -⟩ := meets_iff.mp h
  obtain ⟨pre, post, hsplit, rfl⟩ := exists_append_of_getElem? hr
  refine ⟨{ set with ranges := pre ++ rangeUnion r range :: post }, ?_, ?_⟩
  · simp [mergeIntoRange, hsplit]
  · intro x hx
    rw [hsplit, covers_append, covers_cons] at hx
    rw [covers_append, covers_cons]
    rcases hx with (hx | hx | hx) | hx
    · exact .inl hx
    · exact .inr (.inl (contains_rangeUnion_of_or (.inl hx)))
    · exact .inr (.inr hx)
    · exact .inr (.inl (contains_rangeUnion_of_or (.inr hx)))

theorem addRangeAux_keeps (fuel : Nat) :
    ∀ (set : RangeSet T) (range : Range T), set.ranges.length < fuel →
    ∃ set', addRangeAux fuel set range = some set' ∧ set.Keeps range set' := by
  induction fuel with
  | zero =>
    intro set range hfuel
    omega
  | succ fuel ih =>
    intro set range hfuel
    unfold addRangeAux
    by_cases hempty : rangeIsEmpty range = true
    · rw [if_pos hempty]
      exact ⟨set, rfl, fun x hx => hx.resolve_right (not_contains_of_isEmpty hempty x)⟩
    rw [if_neg hempty]
    by_cases hnil : set.ranges.isEmpty = true
    · rw [if_pos hnil]
      refine ⟨_, rfl, ?_⟩
      intro x hx
      rw [covers_append, covers_cons]
      exact hx.imp_right .inl
    rw [if_neg hnil]
    have hsorted := set.sortIfNeeded_needsSort
    have hsame : ∀ set', set.sortIfNeeded.Keeps range set' → set.Keeps range set' := by
      intro set' hkeeps x hx
      exact hkeeps x (hx.imp_left (covers_perm set.sortIfNeeded_perm).mpr)
    rcases intersectionHelper_cases hsorted range with
      hhelp | ⟨a, hmeets, hhelp | ⟨hmeets', hhelp⟩⟩
    · obtain ⟨idx, hidx, hle⟩ := insertionPoint_bounds hsorted range
      refine ⟨{ set.sortIfNeeded with ranges := set.sortIfNeeded.ranges.insertIdx idx range },
        ?_, hsame _ ?_⟩
      · simp only [hhelp, Option.bind_eq_bind, Option.bind_some, hidx, insertAt, if_pos hle]
      · intro x hx
        rw [covers_perm (List.perm_insertIdx range _ hle), covers_cons]
        exact hx.symm
    · obtain ⟨set', hmerge, hkeeps⟩ := mergeIntoRange_keeps hmeets
      refine ⟨set', ?_, hsame _ hkeeps⟩
      simp only [hhelp, Option.bind_eq_bind, Option.bind_some, hmerge]
    · obtain ⟨r, hget, -⟩ := meets_iff.mp hmeets'
      obtain ⟨pre, post, hsplit, hlen⟩ := exists_append_of_getElem? hget
      have hlt : a + 1 < set.sortIfNeeded.ranges.length := by
        rw [hsplit, List.length_append, hlen]
        simp
      have herase : set.sortIfNeeded.ranges.eraseIdx (a + 1) = pre ++ post := by
        rw [hsplit, ← hlen, List.eraseIdx_append_of_length_le (Nat.le_refl _)]
        simp
      have hshort : (pre ++ post).length < fuel := by
        have hperm := set.sortIfNeeded_perm.length_eq
        rw [hsplit] at hperm
        simp only [List.length_append, List.length_cons] at hperm ⊢
        omega
      obtain ⟨set', hrec, hkeeps⟩ := ih { set.sortIfNeeded with ranges := pre ++ post }
        (rangeUnion range r) hshort
      refine ⟨set', ?_, hsame _ ?_⟩
      · simp only [hhelp, Option.bind_eq_bind, Option.bind_some, if_true, hget, removeAt,
          if_pos hlt, herase, hrec]
      · intro x hx
        refine hkeeps x ?_
        rw [hsplit, covers_append, covers_cons] at hx
        rw [covers_append]
        rcases hx with (hx | hx | hx) | hx
        · exact .inl (.inl hx)
        · exact .inr (contains_rangeUnion_of_or (.inr hx))
        · exact .inl (.inr hx)
        · exact .inr (contains_rangeUnion_of_or (.inl hx))

theorem addRange_keeps (set : RangeSet T) (range : Range T) :
    ∃ set', set.addRange range = some set' ∧ set.Keeps range set' :=
  addRangeAux_keeps _ set range (Nat.lt_succ_self _)

theorem foldlM_addRange_keeps (l : List (Range T)) :
    ∀ set : RangeSet T, ∃ set', l.foldlM addRange set = some set' ∧
      ∀ x, Covers set.ranges x ∨ Covers l x → Covers set'.ranges x := by
  induction l with
  | nil =>
    intro set
    exact ⟨set, rfl, fun x hx => hx.resolve_right covers_nil⟩
  | cons r l ih =>
    intro set
    obtain ⟨set₁, hadd, hkeeps₁⟩ := addRange_keeps set r
    obtain ⟨set', hrun, hkeeps⟩ := ih set₁
    refine ⟨set', ?_, ?_⟩
    · simp only [List.foldlM_cons, hadd, Option.bind_eq_bind, Option.bind_some, hrun]
    · intro x hx
      rw [covers_cons, ← or_assoc] at hx
      exact hkeeps x (hx.imp_left (hkeeps₁ x))

theorem removeRange_keeps (set : RangeSet T) (range : Range T) :
    ∃ set', set.removeRange range = some set' ∧
      ∀ x, Covers set.ranges x → ¬ range.contains x = true → Covers set'.ranges x := by
  rw [removeRange_eq]
  obtain ⟨set', hrun, hkeeps⟩ := foldlM_addRange_keeps
    ((set.ranges.filter (changed range)).flatMap (pieces · range))
    { set with ranges := set.ranges.filter fun r => !changed range r }
  refine ⟨set', hrun, ?_⟩
  intro x hx hout
  exact hkeeps x ((covers_subtracted range set.ranges x).mpr ⟨hx, hout⟩)

end RangeSet

end Wakterm.Rangeset
