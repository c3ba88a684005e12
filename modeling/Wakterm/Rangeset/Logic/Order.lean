import Wakterm.Machine.Loop
import Wakterm.Rangeset.Logic.Algebra

/-!
# The order of the stored ranges

`add_range` looks for something to merge with at the last stored range that does not start behind
the new one, or at the first range if there is none, and at the one after it, but at that one only
when it has found something at the first (`intersection_helper`).
-/

namespace Wakterm.Rangeset

open Wakterm.Machine

variable {T : Type} [LinearOrder T]

/-- The ranges are not empty, do not meet, and come in increasing order. -/
structure Ordered (l : List (Range T)) : Prop where
  nonempty : ∀ r ∈ l, r.start < r.stop
  apart : l.Pairwise fun a b => a.stop ≤ b.start

theorem ordered_nil : Ordered ([] : List (Range T)) where
  nonempty := fun _ hr => absurd hr (by simp)
  apart := List.Pairwise.nil

variable {l l' : List (Range T)}

theorem ordered_append :
    Ordered (l ++ l') ↔ Ordered l ∧ Ordered l' ∧ ∀ a ∈ l, ∀ b ∈ l', a.stop ≤ b.start := by
  constructor
  · rintro ⟨hne, hapart⟩
    obtain ⟨h1, h2, h3⟩ := List.pairwise_append.mp hapart
    exact ⟨⟨fun r hr => hne r (by simp [hr]), h1⟩, ⟨fun r hr => hne r (by simp [hr]), h2⟩, h3⟩
  · rintro ⟨⟨hne1, h1⟩, ⟨hne2, h2⟩, h3⟩
    refine ⟨?_, List.pairwise_append.mpr ⟨h1, h2, h3⟩⟩
    intro r hr
    exact (List.mem_append.mp hr).elim (hne1 r) (hne2 r)

theorem ordered_cons {r : Range T} :
    Ordered (r :: l) ↔ r.start < r.stop ∧ (∀ b ∈ l, r.stop ≤ b.start) ∧ Ordered l := by
  constructor
  · rintro ⟨hne, hapart⟩
    obtain ⟨h1, h2⟩ := List.pairwise_cons.mp hapart
    exact ⟨hne r (by simp), h1, ⟨fun q hq => hne q (by simp [hq]), h2⟩⟩
  · rintro ⟨hr, h1, hne, h2⟩
    refine ⟨?_, List.pairwise_cons.mpr ⟨h1, h2⟩⟩
    intro q hq
    rcases List.mem_cons.mp hq with rfl | hq
    · exact hr
    · exact hne q hq

theorem Ordered.proper (h : Ordered l) : ∀ r ∈ l, r.Proper :=
  fun r hr => (h.nonempty r hr).le

theorem Ordered.sublist (h : Ordered l) (hsub : l'.Sublist l) : Ordered l' :=
  ⟨fun r hr => h.nonempty r (hsub.subset hr), h.apart.sublist hsub⟩

theorem Ordered.le_start {g : Range T} (h : Ordered (g :: l)) {a : T} (ha : a ≤ g.start) :
    ∀ b ∈ g :: l, a ≤ b.start := by
  obtain ⟨hg, hl, -⟩ := ordered_cons.mp h
  intro b hb
  rcases List.mem_cons.mp hb with rfl | hb
  · exact ha
  · exact ha.trans (hg.le.trans (hl b hb))

/-- The ranges up to a start and those behind it. -/
structure SplitAt (a : T) (low high : List (Range T)) : Prop where
  low : ∀ r ∈ low, r.start ≤ a
  high : ∀ r ∈ high, a < r.start

theorem Ordered.exists_splitAt (h : Ordered l) (a : T) :
    ∃ low high, l = low ++ high ∧ SplitAt a low high := by
  induction l with
  | nil => exact ⟨[], [], rfl, ⟨by simp, by simp⟩⟩
  | cons r l ih =>
    obtain ⟨hr, hl, hrest⟩ := ordered_cons.mp h
    by_cases hstart : r.start ≤ a
    · obtain ⟨low, high, rfl, hlow, hhigh⟩ := ih hrest
      refine ⟨r :: low, high, rfl, ⟨?_, hhigh⟩⟩
      intro q hq
      rcases List.mem_cons.mp hq with rfl | hq
      · exact hstart
      · exact hlow q hq
    · refine ⟨[], r :: l, rfl, ⟨by simp, ?_⟩⟩
      rw [not_le] at hstart
      intro q hq
      rcases List.mem_cons.mp hq with rfl | hq
      · exact hstart
      · exact hstart.trans_le (hr.le.trans (hl q hq))

/-- The range meets or follows the last range that does not start behind it, or
keeps clear of those that do. -/
def Clean (range : Range T) (low high : List (Range T)) : Prop :=
  ∀ q, low.getLast? = some q → q.stop < range.start → ∀ g ∈ high, range.stop ≤ g.start

namespace RangeSet

/-! ## The search -/

variable {range r q : Range T} {low high l : List (Range T)} {set set' : RangeSet T}

theorem binarySearchRanges_append (h : SplitAt range.start low high) :
    binarySearchRanges ⟨low ++ high, false⟩ range = some
      (match low.getLast? with
        | some q => if range.stop ≤ q.stop then .ok (low.length - 1) else .error low.length
        | none => .error 0) := by
  have hlow : ∀ r ∈ low, compareRange range r =
      some (if range.stop ≤ r.stop then .eq else .lt) := by
    intro r hr
    have hstart := h.low r hr
    unfold compareRange
    by_cases hle : range.stop ≤ r.stop
    · rw [if_pos ⟨hstart, hle⟩, if_pos hle]
    · rw [if_neg fun h1 => hle h1.2, if_neg (not_lt.mpr hstart), if_pos (not_le.mp hle),
        if_neg hle]
  have hhigh : ∀ r ∈ high, compareRange range r = some .gt := by
    intro r hr
    have hstart := h.high r hr
    unfold compareRange
    rw [if_neg fun h1 => absurd h1.1 (not_le.mpr hstart), if_pos hstart]
  have hsearch := @binarySearchBy_append (Range T) (compareRange range)
    (fun r => (compareRange range r).getD .eq) low high
    (fun r _ => compareRange_eq_some range r)
    (by
      intro r hr
      rw [hlow r hr]
      dsimp only [Option.getD_some]
      split_ifs <;> simp)
    (by
      intro r hr
      rw [hhigh r hr]
      rfl)
  refine Eq.trans hsearch ?_
  cases hq : low.getLast? with
  | none => rfl
  | some q =>
    have hmem := List.mem_of_getLast? hq
    simp only [hlow q hmem, Option.getD_some]
    by_cases hle : range.stop ≤ q.stop
    · simp [hle]
    · simp [hle]

theorem intersectionHelper_append (h : SplitAt range.start low high) :
    intersectionHelper ⟨low ++ high, false⟩ range =
      if meets ⟨low ++ high, false⟩ range (low.length - 1) then
        if meets ⟨low ++ high, false⟩ range (low.length - 1 + 1) then
          some (some (low.length - 1), some (low.length - 1 + 1))
        else some (some (low.length - 1), none) else some (none, none) := by
  have hidx : (match binarySearchRanges ⟨low ++ high, false⟩ range with
      | some (.ok idx) => idx
      | some (.error idx) => idx - 1
      | none => 0) = low.length - 1 := by
    rw [binarySearchRanges_append h]
    cases hq : low.getLast? with
    | none =>
      rw [List.getLast?_eq_none_iff] at hq
      rw [hq]
      rfl
    | some q => by_cases hle : range.stop ≤ q.stop <;> simp [hle]
  obtain ⟨res, hres, -, -⟩ := binarySearchRanges_bounds ⟨low ++ high, false⟩ range
  rw [hres] at hidx
  simp only [intersectionHelper, Bool.false_eq_true, if_false, hres, Option.bind_eq_bind,
    Option.bind_some]
  cases res with
  | ok idx =>
    obtain rfl : idx = low.length - 1 := hidx
    dsimp only
    cases meets ⟨low ++ high, false⟩ range (low.length - 1) with
    | false => simp
    | true => simp
  | error idx =>
    obtain hidx : idx - 1 = low.length - 1 := hidx
    simp only [hidx]
    cases meets ⟨low ++ high, false⟩ range (low.length - 1) with
    | false => simp
    | true => simp

theorem insertionPoint_append (h : SplitAt range.start low high)
    (hout : ∀ q, low.getLast? = some q → q.stop < range.stop) :
    insertionPoint ⟨low ++ high, false⟩ range = some low.length := by
  simp only [insertionPoint, Bool.false_eq_true, if_false, binarySearchRanges_append h,
    Option.bind_eq_bind, Option.bind_some]
  cases hq : low.getLast? with
  | none =>
    rw [List.getLast?_eq_none_iff] at hq
    rw [hq]
    rfl
  | some q => simp [not_le.mpr (hout q hq)]

theorem meets_of_getElem? {idx : Nat} (h : set.ranges[idx]? = some r) :
    set.meets range idx = (intersectsRange r range || decide (r.stop = range.start)) := by
  simp only [meets, h]

theorem touches_low (hrange : range.start < range.stop) (h : q.start ≤ range.start) :
    (intersectsRange q range || decide (q.stop = range.start)) =
      decide (range.start ≤ q.stop) := by
  rw [Bool.eq_iff_iff, Bool.or_eq_true, intersectsRange_iff, decide_eq_true_eq,
    decide_eq_true_eq, max_eq_right h]
  grind

theorem touches_high {g : Range T} (hg : g.start < g.stop) (h : range.start < g.start) :
    (intersectsRange g range || decide (g.stop = range.start)) =
      decide (g.start < range.stop) := by
  rw [Bool.eq_iff_iff, Bool.or_eq_true, intersectsRange_iff, decide_eq_true_eq,
    decide_eq_true_eq, max_eq_left h.le]
  grind

theorem rangeUnion_eq {r1 r2 : Range T} (h1 : r1.start < r1.stop) (h2 : r2.start < r2.stop) :
    rangeUnion r1 r2 = ⟨min r1.start r2.start, max r1.stop r2.stop⟩ := by
  simp [rangeUnion, rangeIsEmpty, h1.ne, h2.ne]

/-! ## Adding to ordered ranges -/

/-- One round of `add_range`: `q` is the range it looks at first, and `touch`
says whether it meets or follows it. -/
theorem addRangeAux_append (hrange : range.start < range.stop) (h : SplitAt range.start low high)
    (pre : List (Range T)) (q : Range T) (post : List (Range T))
    (hsplit : low ++ high = pre ++ q :: post) (hidx : pre.length = low.length - 1)
    (hpost : ∀ g ∈ post, g.start < g.stop ∧ range.start < g.start) {touch : Prop} [Decidable touch]
    (htouch : (intersectsRange q range || decide (q.stop = range.start)) = decide touch)
    (hout : ¬ touch → ∀ r, low.getLast? = some r → r.stop < range.stop) (fuel : Nat) :
    addRangeAux (fuel + 1) ⟨low ++ high, false⟩ range =
      if touch then
        match post with
        | [] => some ⟨pre ++ [rangeUnion q range], false⟩
        | g :: rest =>
          if g.start < range.stop then
            addRangeAux fuel ⟨pre ++ q :: rest, false⟩ (rangeUnion range g)
          else some ⟨pre ++ rangeUnion q range :: g :: rest, false⟩
      else some ⟨low ++ range :: high, false⟩ := by
  have hempty : rangeIsEmpty range = false := by simpa [rangeIsEmpty] using hrange.ne
  have hnil : (low ++ high).isEmpty = false := by
    rw [hsplit]
    simp
  have hfirst : meets ⟨low ++ high, false⟩ range pre.length = decide touch := by
    rw [← htouch, meets_of_getElem?]
    show (low ++ high)[pre.length]? = some q
    rw [hsplit]
    simp
  have hmerge : mergeIntoRange ⟨low ++ high, false⟩ pre.length range =
      some ⟨pre ++ rangeUnion q range :: post, false⟩ := by
    simp [mergeIntoRange, hsplit]
  rw [addRangeAux]
  simp only [hempty, hnil, Bool.false_eq_true, if_false, sortIfNeeded, Option.bind_eq_bind,
    intersectionHelper_append h, ← hidx, hfirst]
  by_cases ht : touch
  · rw [if_pos ht, if_pos (by simpa using ht)]
    cases post with
    | nil =>
      have hsecond : meets ⟨low ++ high, false⟩ range (pre.length + 1) = false := by
        simp [meets, hsplit]
      simp only [hsecond, Bool.false_eq_true, if_false, Option.bind_some, hmerge]
    | cons g rest =>
      obtain ⟨hg, hgt⟩ := hpost g (by simp)
      have hget : (low ++ high)[pre.length + 1]? = some g := by
        rw [hsplit, List.getElem?_append_right (by omega)]
        simp
      have hsecond : meets ⟨low ++ high, false⟩ range (pre.length + 1) =
          decide (g.start < range.stop) := by
        rw [← touches_high hg hgt]
        exact meets_of_getElem? hget
      by_cases hlt : g.start < range.stop
      · have hremove : removeAt (low ++ high) (pre.length + 1) = some (pre ++ q :: rest) := by
          rw [removeAt, hsplit, if_pos (by simp)]
          rw [List.eraseIdx_append_of_length_le (by omega)]
          simp
        simp only [hsecond, hlt, decide_true, if_true, Option.bind_some, hget, hremove]
      · simp only [hsecond, hlt, decide_false, Bool.false_eq_true, if_false, Option.bind_some,
          hmerge]
  · rw [if_neg ht, if_neg (by simpa using ht)]
    simp only [Option.bind_some, insertionPoint_append h (hout ht), insertAt,
      List.length_append, Nat.le_add_right, if_true, insertIdx_length_append]

theorem ordered_merge {pre post : List (Range T)} (h : Ordered (pre ++ q :: post))
    (hrange : range.start < range.stop) (hpre : ∀ p ∈ pre, p.stop ≤ range.start)
    (hpost : ∀ g ∈ post, range.stop ≤ g.start) : Ordered (pre ++ rangeUnion q range :: post) := by
  obtain ⟨hp, hq, hacross⟩ := ordered_append.mp h
  obtain ⟨hne, hbehind, hrest⟩ := ordered_cons.mp hq
  rw [rangeUnion_eq hne hrange]
  refine ordered_append.mpr ⟨hp, ordered_cons.mpr ⟨?_, ?_, hrest⟩, ?_⟩
  · exact (min_le_left _ _).trans_lt (hne.trans_le (le_max_left _ _))
  · exact fun g hg => max_le (hbehind g hg) (hpost g hg)
  · intro p hp' b hb
    rcases List.mem_cons.mp hb with rfl | hb
    · exact le_min (hacross p hp' q (by simp)) (hpre p hp')
    · exact hacross p hp' b (List.mem_cons_of_mem _ hb)

theorem ordered_insert_iff (hrange : range.start < range.stop) (h : Ordered (low ++ high))
    (hlow : ∀ p ∈ low, p.stop ≤ range.start) :
    Ordered (low ++ range :: high) ↔ ∀ g ∈ high, range.stop ≤ g.start := by
  obtain ⟨hl, hh, hacross⟩ := ordered_append.mp h
  constructor
  · intro hord
    exact (ordered_cons.mp (ordered_append.mp hord).2.1).2.1
  · intro hclear
    refine ordered_append.mpr ⟨hl, ordered_cons.mpr ⟨hrange, hclear, hh⟩, ?_⟩
    intro p hp b hb
    rcases List.mem_cons.mp hb with rfl | hb
    · exact hlow p hp
    · exact hacross p hp b hb

/-- **When the order is kept**: in every case but the one `Clean` excludes. -/
theorem addRangeAux_ordered_iff (fuel : Nat) :
    ∀ (low high : List (Range T)) (range : Range T), (low ++ high).length < fuel →
    Ordered (low ++ high) → range.start < range.stop → SplitAt range.start low high →
    ∃ l', addRangeAux fuel ⟨low ++ high, false⟩ range = some ⟨l', false⟩ ∧
      (Ordered l' ↔ Clean range low high) := by
  induction fuel with
  | zero =>
    intro low high range hfuel
    omega
  | succ fuel ih =>
    intro low high range hfuel hord hrange hsplit
    -- the range is joined with a second one and added again, in the same place
    have hagain : ∀ (rest : List (Range T)) (g : Range T), g.start < g.stop →
        range.start < g.start → (low ++ rest).length < fuel → Ordered (low ++ rest) →
        SplitAt range.start low rest →
        (∀ r, low.getLast? = some r → range.start ≤ r.stop) →
        ∃ l', addRangeAux fuel ⟨low ++ rest, false⟩ (rangeUnion range g) =
          some ⟨l', false⟩ ∧ Ordered l' := by
      intro rest g hg hgt hlen hord' hsplit' htouch
      have hunion := rangeUnion_eq hrange hg
      rw [min_eq_left hgt.le] at hunion
      rw [hunion]
      obtain ⟨l', hrun, hiff⟩ := ih low rest ⟨range.start, max range.stop g.stop⟩ hlen hord'
        (hrange.trans_le (le_max_left _ _)) hsplit'
      refine ⟨l', hrun, hiff.mpr ?_⟩
      intro r hr hlt
      exact absurd (htouch r hr) (not_le.mpr hlt)
    obtain ⟨hlowOrd, hhighOrd, hacross⟩ := ordered_append.mp hord
    rcases List.eq_nil_or_concat low with rfl | ⟨pre, q, rfl⟩
    · -- nothing starts before the range
      have hclean : Clean range [] high := fun _ hr => by cases hr
      cases high with
      | nil =>
        refine ⟨[range], ?_, iff_of_true ?_ hclean⟩
        · have hempty : rangeIsEmpty range = false := by
            simpa [rangeIsEmpty] using hrange.ne
          simp [addRangeAux, hempty]
        · exact ordered_cons.mpr ⟨hrange, by simp, ordered_nil⟩
      | cons q post =>
        have hq := hhighOrd.nonempty q (by simp)
        have hstep := addRangeAux_append hrange hsplit [] q post rfl rfl
          (fun g hg => ⟨hhighOrd.nonempty g (by simp [hg]), hsplit.high g (by simp [hg])⟩)
          (touches_high hq (hsplit.high q (by simp))) (fun _ r hr => absurd hr (by simp)) fuel
        rw [hstep]
        by_cases ht : q.start < range.stop
        · rw [if_pos ht]
          cases post with
          | nil =>
            exact ⟨_, rfl, iff_of_true (ordered_merge hord hrange (by simp) (by simp))
              hclean⟩
          | cons g rest =>
            obtain ⟨-, hqg, hgrest⟩ := ordered_cons.mp hhighOrd
            by_cases hlt : g.start < range.stop
            · simp only [if_pos hlt]
              obtain ⟨l', hrun, hord'⟩ := hagain (q :: rest) g
                (hhighOrd.nonempty g (by simp)) (hsplit.high g (by simp))
                (by simpa using hfuel)
                (hhighOrd.sublist (by simp))
                ⟨by simp, fun r hr => hsplit.high r (by
                  rcases List.mem_cons.mp hr with rfl | hr <;> simp [*])⟩
                (fun r hr => absurd hr (by simp))
              exact ⟨l', hrun, iff_of_true hord' hclean⟩
            · simp only [if_neg hlt]
              exact ⟨_, rfl, iff_of_true (ordered_merge hord hrange (by simp)
                (hgrest.le_start (not_lt.mp hlt))) hclean⟩
        · rw [if_neg ht]
          exact ⟨_, rfl, iff_of_true ((ordered_insert_iff hrange hord (by simp)).mpr
            (hhighOrd.le_start (not_lt.mp ht))) hclean⟩
    · -- `q` is the last that does not start behind it
      have hqstart := hsplit.low q (by simp)
      have hlast : ∀ r, (pre.concat q).getLast? = some r → r = q := by
        intro r hr
        simpa [eq_comm] using hr
      have hpre : ∀ p ∈ pre, p.stop ≤ range.start := by
        intro p hp
        have hpq := (ordered_append.mp (by simpa using hlowOrd)).2.2 p hp q (by simp)
        exact hpq.trans hqstart
      have hstep := addRangeAux_append hrange hsplit pre q high (by simp) (by simp)
        (fun g hg => ⟨hhighOrd.nonempty g hg, hsplit.high g hg⟩)
        (touches_low hrange hqstart)
        (fun hnot r hr => hlast r hr ▸ (not_le.mp hnot).trans hrange) fuel
      rw [hstep]
      have hord' : Ordered (pre ++ q :: high) := by simpa using hord
      by_cases ht : range.start ≤ q.stop
      · have hclean : Clean range (pre.concat q) high := by
          intro r hr hlt
          exact absurd ht (not_le.mpr (hlast r hr ▸ hlt))
        rw [if_pos ht]
        cases high with
        | nil =>
          exact ⟨_, rfl, iff_of_true (ordered_merge hord' hrange hpre (by simp)) hclean⟩
        | cons g rest =>
          by_cases hlt : g.start < range.stop
          · simp only [if_pos hlt]
            obtain ⟨l', hrun, hord''⟩ := hagain rest g (hhighOrd.nonempty g (by simp))
              (hsplit.high g (by simp)) (by simp at hfuel ⊢; omega)
              (hord.sublist (by simp))
              ⟨hsplit.low, fun r hr => hsplit.high r (List.mem_cons_of_mem _ hr)⟩
              (fun r hr => hlast r hr ▸ ht)
            refine ⟨l', ?_, iff_of_true hord'' hclean⟩
            simpa using hrun
          · simp only [if_neg hlt]
            exact ⟨_, rfl, iff_of_true (ordered_merge hord' hrange hpre
              (hhighOrd.le_start (not_lt.mp hlt))) hclean⟩
      · rw [if_neg ht]
        rw [not_le] at ht
        refine ⟨_, rfl, (ordered_insert_iff hrange hord ?_).trans ?_⟩
        · intro p hp
          rcases List.mem_append.mp (by simpa using hp : p ∈ pre ++ [q]) with hp | hp
          · exact hpre p hp
          · exact (List.mem_singleton.mp hp) ▸ ht.le
        · constructor
          · exact fun h _ _ _ => h
          · exact fun h => h q (by simp) ht

/-- The stored ranges are in order, and known to be. -/
structure InOrder (set : RangeSet T) : Prop where
  sorted : set.needsSort = false
  ordered : Ordered set.ranges

theorem inOrder_new : (new : RangeSet T).InOrder where
  sorted := rfl
  ordered := ordered_nil

theorem InOrder.proper (h : set.InOrder) : set.Proper :=
  h.ordered.proper

theorem addRange_inOrder (h : set.InOrder) (hrange : range.Proper)
    (hclean : ∀ low high, set.ranges = low ++ high → SplitAt range.start low high →
      Clean range low high) (hrun : set.addRange range = some set') : set'.InOrder := by
  by_cases hempty : rangeIsEmpty range = true
  · simp only [addRange, addRangeAux, if_pos hempty, Option.some.injEq] at hrun
    exact hrun ▸ h
  · have hlt := lt_stop_of_not_isEmpty hrange hempty
    obtain ⟨low, high, hsplit, hat⟩ := h.ordered.exists_splitAt range.start
    obtain ⟨l', hrun', hiff⟩ := addRangeAux_ordered_iff (set.ranges.length + 1) low high range
      (by rw [← hsplit]; exact Nat.lt_succ_self _) (hsplit ▸ h.ordered) hlt hat
    have hset : set = ⟨low ++ high, false⟩ := by rw [← hsplit, ← h.sorted]
    rw [addRange, hset] at hrun
    rw [hsplit] at hrun'
    cases hrun.symm.trans hrun'
    exact ⟨rfl, hiff.mpr (hclean low high hsplit hat)⟩

theorem clean_of_disjoint (hhigh : ∀ g ∈ high, g.start < g.stop)
    (hat : SplitAt range.start low high)
    (hdisj : ∀ x, range.contains x = true → ¬ Covers (low ++ high) x) : Clean range low high := by
  intro q hq hlt g hg
  refine le_of_not_gt fun hstart => hdisj g.start ?_ ?_
  · exact Range.contains_iff.mpr ⟨(hat.high g hg).le, hstart⟩
  · exact ⟨g, List.mem_append_right _ hg, Range.contains_iff.mpr ⟨le_rfl, hhigh g hg⟩⟩

theorem addRange_inOrder_of_disjoint (h : set.InOrder) (hrange : range.Proper)
    (hdisj : ∀ x, range.contains x = true → ¬ Covers set.ranges x)
    (hrun : set.addRange range = some set') : set'.InOrder := by
  refine addRange_inOrder h hrange ?_ hrun
  intro low high hsplit hat
  refine clean_of_disjoint ?_ hat (hsplit ▸ hdisj)
  exact fun g hg => h.ordered.nonempty g (by rw [hsplit]; simp [hg])

theorem foldlM_addRange_inOrder (l : List (Range T)) : ∀ set : RangeSet T, set.InOrder → Ordered l →
    (∀ a ∈ l, ∀ x, a.contains x = true → ¬ Covers set.ranges x) →
    ∀ set', l.foldlM addRange set = some set' → set'.InOrder := by
  induction l with
  | nil =>
    intro set h _ _ set' hrun
    cases hrun
    exact h
  | cons a l ih =>
    intro set h hl hdisj set' hrun
    obtain ⟨ha, hbehind, hrest⟩ := ordered_cons.mp hl
    obtain ⟨set₁, hadd, hadded⟩ := addRange_added h.proper (le_of_lt ha : a.Proper)
    have h₁ := addRange_inOrder_of_disjoint h ha.le (hdisj a (by simp)) hadd
    simp only [List.foldlM_cons, hadd, Option.bind_eq_bind, Option.bind_some] at hrun
    refine ih set₁ h₁ hrest ?_ set' hrun
    intro b hb x hx
    rw [hadded.covers, not_or]
    refine ⟨hdisj b (by simp [hb]) x hx, ?_⟩
    rw [Range.contains_iff] at hx ⊢
    exact fun hax => absurd (hax.2.trans_le (hbehind b hb)) (not_lt.mpr hx.1)

/-! ## Removing from ordered ranges -/

theorem pieces_inside {a : Range T} (hr : r.start < r.stop) (ha : a ∈ pieces r range) :
    r.start ≤ a.start ∧ a.start < a.stop ∧ a.stop ≤ r.stop := by
  simp only [pieces, List.mem_append, Option.mem_toList] at ha
  unfold rangeSubtract at ha
  by_cases h : min r.stop range.stop > max r.start range.start
  · simp only [if_pos h] at ha
    grind
  · simp only [if_neg h, Option.some.injEq, reduceCtorEq, or_false] at ha
    exact ha ▸ ⟨le_rfl, hr, le_rfl⟩

theorem ordered_pieces (hr : r.start < r.stop) : Ordered (pieces r range) := by
  refine ⟨fun a ha => (pieces_inside hr ha).2.1, ?_⟩
  unfold pieces rangeSubtract
  by_cases h : min r.stop range.stop > max r.start range.start
  · simp only [if_pos h]
    split_ifs
    · simp
    · simp
    · simp
    · simp only [Option.toList_some, List.singleton_append, List.pairwise_cons,
        List.mem_singleton, forall_eq, List.not_mem_nil, false_imp_iff, implies_true,
        List.Pairwise.nil, and_true]
      grind
  · simp only [if_neg h]
    simp

theorem ordered_flatMap_pieces (h : Ordered l) : Ordered (l.flatMap (pieces · range)) := by
  induction l with
  | nil => exact ordered_nil
  | cons r l ih =>
    obtain ⟨hr, hbehind, hrest⟩ := ordered_cons.mp h
    rw [List.flatMap_cons]
    refine ordered_append.mpr ⟨ordered_pieces hr, ih hrest, ?_⟩
    intro a ha b hb
    obtain ⟨r', hr', hb⟩ := List.mem_flatMap.mp hb
    have hain := pieces_inside hr ha
    have hbin := pieces_inside (hrest.nonempty r' hr') hb
    exact hain.2.2.trans ((hbehind r' hr').trans hbin.1)

theorem eq_of_contains (h : Ordered l) {r' : Range T} (hr : r ∈ l) (hr' : r' ∈ l) {x : T}
    (hx : r.contains x = true) (hx' : r'.contains x = true) : r = r' := by
  rw [Range.contains_iff] at hx hx'
  induction l with
  | nil => cases hr
  | cons q l ih =>
    obtain ⟨-, hbehind, hrest⟩ := ordered_cons.mp h
    rcases List.mem_cons.mp hr with rfl | hr₁
    · rcases List.mem_cons.mp hr' with rfl | hr₁'
      · rfl
      · exact absurd (hx.2.trans_le ((hbehind r' hr₁').trans hx'.1)) (lt_irrefl x)
    · rcases List.mem_cons.mp hr' with rfl | hr₁'
      · exact absurd (hx'.2.trans_le ((hbehind r hr₁).trans hx.1)) (lt_irrefl x)
      · exact ih hrest hr₁ hr₁'

theorem removeRange_inOrder (h : set.InOrder) (hrun : set.removeRange range = some set') :
    set'.InOrder := by
  rw [removeRange_eq] at hrun
  have hstay : Ordered (set.ranges.filter fun r => !changed range r) :=
    h.ordered.sublist List.filter_sublist
  have hgone : Ordered (set.ranges.filter (changed range)) := h.ordered.sublist List.filter_sublist
  have hstart : InOrder { set with ranges := set.ranges.filter fun r => !changed range r } :=
    ⟨h.sorted, hstay⟩
  refine foldlM_addRange_inOrder _ _ hstart (ordered_flatMap_pieces hgone) ?_ set' hrun
  -- a piece belongs to a range that was taken out
  intro a ha x hx
  rintro ⟨r', hr', hx'⟩
  obtain ⟨r, hr, ha⟩ := List.mem_flatMap.mp ha
  obtain ⟨hrmem, hrch⟩ := List.mem_filter.mp hr
  obtain ⟨hrmem', hrch'⟩ := List.mem_filter.mp hr'
  have hin := pieces_inside (h.ordered.nonempty r hrmem) ha
  rw [Range.contains_iff] at hx
  have hxr : r.contains x = true := Range.contains_iff.mpr ⟨hin.1.trans hx.1, hx.2.trans_le hin.2.2⟩
  obtain rfl := eq_of_contains h.ordered hrmem hrmem' hxr hx'
  rw [hrch] at hrch'
  cases hrch'

end RangeSet

end Wakterm.Rangeset
