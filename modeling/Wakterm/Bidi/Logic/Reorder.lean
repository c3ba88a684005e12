import Mathlib.Data.List.Nodup
import Wakterm.Bidi.Logic.Marks
import Wakterm.Bidi.Logic.Reverse

/-!
# The order of a line

The levels that the passes go over are those of rule L2, but where no level is odd: then the code
still goes over the level after `MAX_DEPTH`.
-/

namespace Wakterm.Bidi

open Machine

def charLevels (chars : List (Level × Nat)) : List Int := chars.map fun char => char.1.val

theorem mem_oddLevels {chars : List (Level × Nat)} {n : Int} :
    n ∈ Uax9.oddLevels chars ↔ n ∈ charLevels chars ∧ n % 2 = 1 := by
  unfold Uax9.oddLevels
  rw [List.mem_filter, decide_eq_true_eq]
  rfl

theorem charLevels_lineChars (levels : List Level) (start : Nat) :
    charLevels (Uax9.lineChars levels start) =
      (levels.filter fun level => !level.removedByX9).map Level.val := by
  unfold charLevels Uax9.lineChars
  induction levels generalizing start with
  | nil => rfl
  | cons first levels ih =>
    rw [List.zipIdx_cons, List.filter_cons, List.filter_cons]
    cases first.removedByX9 with
    | true => exact ih (start + 1)
    | false => exact congrArg (first.val :: ·) (ih (start + 1))

theorem mem_charLevels {levels : List Level} {start : Nat} {n : Int} :
    n ∈ charLevels (Uax9.lineChars levels start) ↔
      ∃ level ∈ levels, level.removedByX9 = false ∧ level.val = n := by
  rw [charLevels_lineChars, List.mem_map]
  simp only [List.mem_filter, Bool.not_eq_true', and_assoc]

structure Bounds (levels : List Level) (init bounds : Int × Int) : Prop where
  highest_init : init.1 ≤ bounds.1
  highest : ∀ level ∈ levels, level.removedByX9 = false → level.val ≤ bounds.1
  highest_mem : bounds.1 = init.1 ∨
    ∃ level ∈ levels, level.removedByX9 = false ∧ level.val = bounds.1
  lowest_init : bounds.2 ≤ init.2
  lowest : ∀ level ∈ levels, level.removedByX9 = false → level.val.tmod 2 = 1 → bounds.2 ≤ level.val
  lowest_mem : bounds.2 = init.2 ∨
    ∃ level ∈ levels, level.removedByX9 = false ∧ level.val.tmod 2 = 1 ∧ level.val = bounds.2

theorem Bounds.cons {first : Level} {levels : List Level} {init mid bounds : Int × Int}
    (hfirst : Bounds [first] init mid) (h : Bounds levels mid bounds) :
    Bounds (first :: levels) init bounds where
  highest_init := hfirst.highest_init.trans h.highest_init
  highest := by
    refine List.forall_mem_cons.mpr ⟨fun hkept => ?_, h.highest⟩
    exact (hfirst.highest first List.mem_cons_self hkept).trans h.highest_init
  highest_mem := by
    rcases h.highest_mem with heq | ⟨level, hmem, hlevel⟩
    · rcases hfirst.highest_mem with heq' | ⟨level, hmem, hkept, hval⟩
      · exact .inl (heq.trans heq')
      · obtain rfl := List.mem_singleton.mp hmem
        exact .inr ⟨level, List.mem_cons_self, hkept, hval.trans heq.symm⟩
    · exact .inr ⟨level, List.mem_cons_of_mem _ hmem, hlevel⟩
  lowest_init := h.lowest_init.trans hfirst.lowest_init
  lowest := by
    refine List.forall_mem_cons.mpr ⟨fun hkept hodd => ?_, h.lowest⟩
    exact h.lowest_init.trans (hfirst.lowest first List.mem_cons_self hkept hodd)
  lowest_mem := by
    rcases h.lowest_mem with heq | ⟨level, hmem, hlevel⟩
    · rcases hfirst.lowest_mem with heq' | ⟨level, hmem, hkept, hodd, hval⟩
      · exact .inl (heq.trans heq')
      · obtain rfl := List.mem_singleton.mp hmem
        exact .inr ⟨level, List.mem_cons_self, hkept, hodd, hval.trans heq.symm⟩
    · exact .inr ⟨level, List.mem_cons_of_mem _ hmem, hlevel⟩

/-- What one level makes of the bounds. -/
def boundsStep (bounds : Int × Int) (level : Level) : Int × Int :=
  if level.removedByX9 then bounds
  else
    (max bounds.1 level.val,
      if level.val.tmod 2 = 1 ∧ level.val < bounds.2 then level.val else bounds.2)

theorem boundsStep_bounds (init : Int × Int) (first : Level) :
    Bounds [first] init (boundsStep init first) := by
  unfold boundsStep
  cases hfirst : first.removedByX9 with
  | true =>
    have hnot : ∀ {P : Prop}, first.removedByX9 = false → P := fun h =>
      absurd (hfirst.symm.trans h) (by simp)
    exact ⟨le_rfl, List.forall_mem_singleton.mpr hnot, .inl rfl, le_rfl,
      List.forall_mem_singleton.mpr hnot, .inl rfl⟩
  | false =>
    rw [if_neg (by simp)]
    refine ⟨le_max_left _ _, List.forall_mem_singleton.mpr fun _ => le_max_right _ _, ?_, ?_,
      List.forall_mem_singleton.mpr fun _ hodd => ?_, ?_⟩
    · rcases le_total first.val init.1 with hle | hle
      · exact .inl (max_eq_left hle)
      · exact .inr ⟨first, List.mem_singleton_self first, hfirst, (max_eq_right hle).symm⟩
    · show (if _ then _ else _) ≤ _
      split
      · next h => exact h.2.le
      · exact le_rfl
    · show (if _ then _ else _) ≤ _
      split
      · exact le_rfl
      · next h => exact not_lt.mp fun hlt => h ⟨hodd, hlt⟩
    · show (if _ then _ else _) = _ ∨ _
      split
      · next h => exact .inr ⟨first, List.mem_singleton_self first, hfirst, h.1, rfl⟩
      · exact .inl rfl

theorem foldl_bounds (levels : List Level) (init : Int × Int) :
    Bounds levels init (levels.foldl boundsStep init) := by
  induction levels generalizing init with
  | nil => exact ⟨le_rfl, by simp, .inl rfl, le_rfl, by simp, .inl rfl⟩
  | cons first levels ih => exact .cons (boundsStep_bounds init first) (ih _)

theorem levelBounds_spec (levels : List Level) :
    Bounds levels (0, maxDepth + 1) (levelBounds levels) :=
  foldl_bounds levels _

/-- Is the order of the passes that of the rule? There is an odd level, or no two neighbours have a
level after `MAX_DEPTH`. -/
def Orderly (chars : List (Level × Nat)) : Prop :=
  Uax9.oddLevels chars ≠ [] ∨
    chars.IsChain fun a b => ¬((maxDepth : Int) < a.1.val ∧ (maxDepth : Int) < b.1.val)

section Order

variable {line : List Level} {start : Nat}

theorem nodup_lineChars (levels : List Level) (start : Nat) :
    ((Uax9.lineChars levels start).map Prod.snd).Nodup := by
  have hsub : ((Uax9.lineChars levels start).map Prod.snd).Sublist
      ((levels.zipIdx start).map Prod.snd) := List.filter_sublist.map Prod.snd
  rw [List.zipIdx_map_snd] at hsub
  exact hsub.nodup List.nodup_range'

theorem reverseLevel_map_eq_iff (level : Int) {chars : List (Level × Nat)}
    (hnodup : (chars.map Prod.snd).Nodup) :
    (Uax9.reverseLevel chars level).map Prod.snd = chars.map Prod.snd ↔
      chars.IsChain fun a b => ¬(level ≤ a.1.val ∧ level ≤ b.1.val) := by
  have hperm : (Uax9.reverseLevel chars level).Perm chars := reverseRuns_perm _ chars
  have hself : (Uax9.reverseLevel chars level).map Prod.snd = chars.map Prod.snd ↔
      Uax9.reverseLevel chars level = chars := by
    refine ⟨fun heq => List.ext_getElem hperm.length_eq fun i hi hi' => ?_, fun heq => by rw [heq]⟩
    have hindex : (Uax9.reverseLevel chars level)[i].2 = chars[i].2 := by
      have hat := congrArg (·[i]?) heq
      simpa [List.getElem?_eq_getElem hi, List.getElem?_eq_getElem hi'] using hat
    exact List.inj_on_of_nodup_map hnodup (hperm.mem_iff.mp (List.getElem_mem hi))
      (List.getElem_mem hi') hindex
  rw [hself]
  refine (reverseRuns_eq_self_iff hnodup.of_map).trans ?_
  simp only [decide_eq_true_eq]

theorem charLevels_resolved (hlevels : ∀ level ∈ line, level.removedByX9 = false → level.Resolved)
    {n : Int} (h : n ∈ charLevels (Uax9.lineChars line start)) : 0 ≤ n ∧ n ≤ maxDepth + 1 := by
  obtain ⟨level, hmem, hkept, rfl⟩ := mem_charLevels.mp h
  exact hlevels level hmem hkept

theorem bounds_chars (hlevels : ∀ level ∈ line, level.removedByX9 = false → level.Resolved) :
    (∀ n ∈ charLevels (Uax9.lineChars line start), n ≤ (levelBounds line).1) ∧
      ((levelBounds line).1 = 0 ∨ (levelBounds line).1 ∈ charLevels (Uax9.lineChars line start)) ∧
      (∀ n ∈ Uax9.oddLevels (Uax9.lineChars line start), (levelBounds line).2 ≤ n) ∧
      ((levelBounds line).2 = maxDepth + 1 ∨
        (levelBounds line).2 ∈ Uax9.oddLevels (Uax9.lineChars line start)) := by
  have h := levelBounds_spec line
  refine ⟨fun n hn => ?_, h.highest_mem.imp_right fun hmem => mem_charLevels.mpr hmem,
    fun n hn => ?_, h.lowest_mem.imp_right fun hmem => ?_⟩
  · obtain ⟨level, hmem, hkept, rfl⟩ := mem_charLevels.mp hn
    exact h.highest level hmem hkept
  · obtain ⟨hmem, hodd⟩ := mem_oddLevels.mp hn
    obtain ⟨level, hline, hkept, rfl⟩ := mem_charLevels.mp hmem
    exact h.lowest level hline hkept ((tmod_two (hlevels level hline hkept).1).trans hodd)
  · obtain ⟨level, hmem, hkept, hodd, hval⟩ := hmem
    refine mem_oddLevels.mpr ⟨mem_charLevels.mpr ⟨level, hmem, hkept, hval⟩, ?_⟩
    rw [← hval, ← tmod_two (hlevels level hmem hkept).1]
    exact hodd

theorem visualOrder_of_odd (hlevels : ∀ level ∈ line, level.removedByX9 = false → level.Resolved)
    (hodd : Uax9.oddLevels (Uax9.lineChars line start) ≠ []) :
    Uax9.visualOrder (Uax9.lineChars line start) =
      ((levelsDown (levelBounds line).2 (levelBounds line).1).foldl Uax9.reverseLevel
        (Uax9.lineChars line start)).map Prod.snd := by
  obtain ⟨hhighest, hhighest_mem, hlowest, hlowest_mem⟩ := @bounds_chars line start hlevels
  obtain ⟨n, hn⟩ := List.exists_mem_of_ne_nil _ hodd
  obtain ⟨hn_mem, hn_odd⟩ := mem_oddLevels.mp hn
  have hn_bound := charLevels_resolved hlevels hn_mem
  have hdepth : (maxDepth : Int) = 125 := rfl
  have hlow : (levelBounds line).2 ∈ Uax9.oddLevels (Uax9.lineChars line start) := by
    refine hlowest_mem.resolve_left fun heq => ?_
    have hle := hlowest n hn
    omega
  have hhigh : (levelBounds line).1 ∈ charLevels (Uax9.lineChars line start) := by
    refine hhighest_mem.resolve_left fun heq => ?_
    have hle := hhighest n hn_mem
    omega
  have hmin : (Uax9.oddLevels (Uax9.lineChars line start)).min? = some (levelBounds line).2 :=
    List.min?_eq_some_iff.mpr ⟨hlow, hlowest⟩
  have hmax : ((Uax9.lineChars line start).map fun char => char.1.val).max? =
      some (levelBounds line).1 :=
    List.max?_eq_some_iff.mpr ⟨hhigh, hhighest⟩
  unfold Uax9.visualOrder
  rw [hmin, hmax]

theorem visualOrder_of_even {chars : List (Level × Nat)} (heven : Uax9.oddLevels chars = []) :
    Uax9.visualOrder chars = chars.map Prod.snd := by
  unfold Uax9.visualOrder
  rw [heven]
  rfl

theorem passes_eq_visualOrder_iff
    (hlevels : ∀ level ∈ line, level.removedByX9 = false → level.Resolved) :
    ((levelsDown (levelBounds line).2 (levelBounds line).1).foldl Uax9.reverseLevel
        (Uax9.lineChars line start)).map Prod.snd = Uax9.visualOrder (Uax9.lineChars line start) ↔
      Orderly (Uax9.lineChars line start) := by
  by_cases heven : Uax9.oddLevels (Uax9.lineChars line start) = []
  · obtain ⟨hhighest, hhighest_mem, -, hlowest_mem⟩ := @bounds_chars line start hlevels
    have hdepth : (maxDepth : Int) = 125 := rfl
    have hlow : (levelBounds line).2 = maxDepth + 1 :=
      hlowest_mem.resolve_right fun hmem => by
        rw [heven] at hmem
        exact absurd hmem List.not_mem_nil
    have hhigh : (levelBounds line).1 ≤ maxDepth + 1 := by
      rcases hhighest_mem with hzero | hmem
      · omega
      · exact (charLevels_resolved hlevels hmem).2
    rw [visualOrder_of_even heven, hlow]
    unfold Orderly
    rw [or_iff_right (not_not.mpr heven)]
    have hdeep : ∀ n : Int, (maxDepth : Int) < n ↔ maxDepth + 1 ≤ n := fun n => by omega
    simp only [hdeep]
    rcases Int.lt_or_eq_of_le hhigh with hlt | heq
    · -- no level is so deep
      have hnone : levelsDown (maxDepth + 1) (levelBounds line).1 = [] := by
        refine List.eq_nil_iff_forall_not_mem.mpr fun n hn => ?_
        have hn := mem_levelsDown.mp hn
        omega
      rw [hnone]
      refine iff_of_true rfl ?_
      refine List.Pairwise.isChain (List.pairwise_iff_forall_sublist.mpr fun {a b} hsub => ?_)
      rintro ⟨hdeep, -⟩
      have hmem : a ∈ Uax9.lineChars line start := hsub.subset List.mem_cons_self
      have hle := hhighest a.1.val (List.mem_map.mpr ⟨a, hmem, rfl⟩)
      omega
    · rw [heq]
      have hone : levelsDown ((maxDepth : Int) + 1) (maxDepth + 1) = [(maxDepth : Int) + 1] := by
        decide
      rw [hone]
      exact reverseLevel_map_eq_iff _ (nodup_lineChars line start)
  · rw [visualOrder_of_odd hlevels heven]
    exact iff_of_true rfl (.inl heven)

end Order

/-- The indices of a line whose classes rule X9 does not remove. -/
def lineIndices (types : List BidiClass) (start stop : Nat) : List Nat :=
  ((((types.drop start).take (stop - start)).zipIdx start).filter fun place =>
    !place.1.isRemoved).map Prod.snd

theorem Fits.removed_iff {bc : BidiClass} {level : Level} (h : Fits bc level) :
    level.removedByX9 = bc.isRemoved := by
  cases hbc : bc.isRemoved with
  | true =>
    rw [h.1 hbc]
    rfl
  | false => exact (h.2 hbc).not_removed

variable {line : List Level}

theorem lineChars_indices {types : List BidiClass} (h : List.Forall₂ Fits types line) (start : Nat)
    : (Uax9.lineChars line start).map Prod.snd =
      ((types.zipIdx start).filter fun place => !place.1.isRemoved).map Prod.snd := by
  unfold Uax9.lineChars
  induction h generalizing start with
  | nil => rfl
  | cons hfirst _ ih =>
    rw [List.zipIdx_cons, List.zipIdx_cons, List.filter_cons, List.filter_cons,
      hfirst.removed_iff]
    split
    · exact congrArg (start :: ·) (ih (start + 1))
    · exact ih (start + 1)

theorem fits_resolved {types : List BidiClass} (h : List.Forall₂ Fits types line) :
    ∀ level ∈ line, level.removedByX9 = false → level.Resolved := by
  induction h with
  | nil => simp
  | @cons bc level _ _ hfirst _ ih =>
    refine List.forall_mem_cons.mpr ⟨fun hkept => hfirst.2 ?_, ih⟩
    rw [← hfirst.removed_iff]
    exact hkept

theorem markLine_fits {orig : List BidiClass} {start n : Nat}
    (h : List.Forall₂ Fits ((orig.drop start).take n) line) :
    MarkLine.Fits ⟨orig, line, start⟩ := by
  intro i level hlevel
  obtain ⟨hi, rfl⟩ := List.getElem?_eq_some_iff.mp hlevel
  have hi' : i < ((orig.drop start).take n).length := h.length_eq ▸ hi
  refine ⟨_, ?_, (List.forall₂_iff_get.mp h).2 i hi' hi⟩
  have hget : ((orig.drop start).take n)[i]? = some (((orig.drop start).take n).get ⟨i, hi'⟩) :=
    List.getElem?_eq_getElem hi'
  rw [← hget, List.getElem?_take_of_lt (by rw [List.length_take] at hi'; omega),
    List.getElem?_drop, Nat.add_comm]

theorem reverseRange_perm (s : Scan) (visual : List (Option Nat)) :
    (s.reverseRange visual).Perm visual := by
  unfold Scan.reverseRange
  split
  · split
    · next hlt => exact reverseSlice_perm visual (by omega)
    · exact .refl visual
  · exact .refl visual

theorem reversePass_perm (level : Int) (levels : List Level) (i : Nat) (s : Scan)
    (visual : List (Option Nat)) : (reversePass level i s levels visual).Perm visual := by
  induction levels generalizing i s visual with
  | nil =>
    rw [reversePass]
    split
    · exact reverseRange_perm s visual
    · exact .refl visual
  | cons found rest ih =>
    rw [reversePass]
    split
    · split
      · exact ih _ _ visual
      · exact ih _ _ visual
    · split
      · exact ih _ _ visual
      · refine (ih _ _ _).trans ?_
        split
        · exact reverseRange_perm s visual
        · exact .refl visual

theorem reversePasses_perm (lowest highest : Int) (levels : List Level)
    (visual : List (Option Nat)) : (reversePasses lowest highest levels visual).Perm visual := by
  unfold reversePasses
  induction levelsDown lowest highest generalizing visual with
  | nil => exact .refl visual
  | cons level down ih => exact (ih _).trans (reversePass_perm level levels 0 _ visual)

section ReverseLevels

variable {context : BidiContext} {line : List Level} {start : Nat}

theorem lineChars_of_removed (h : line.all Level.removedByX9 = true) :
    Uax9.lineChars line start = [] := by
  unfold Uax9.lineChars
  refine List.filter_eq_nil_iff.mpr fun char hchar => ?_
  have hmem : char.1 ∈ line := by
    have hmap : char.1 ∈ (line.zipIdx start).map Prod.fst := List.mem_map.mpr ⟨char, hchar, rfl⟩
    rwa [List.zipIdx_map_fst] at hmap
  simp [List.all_eq_true.mp h char.1 hmem]

theorem foldl_reverseLevel_nil (down : List Int) : down.foldl Uax9.reverseLevel [] = [] := by
  induction down with
  | nil => rfl
  | cons level down ih => exact ih

theorem lowest_nonneg (hlevels : ∀ level ∈ line, level.removedByX9 = false → level.Resolved) :
    0 ≤ (levelBounds line).2 := by
  rcases (@bounds_chars line 0 hlevels).2.2.2 with heq | hmem
  · rw [heq]
    decide
  · exact (charLevels_resolved hlevels (mem_oddLevels.mp hmem).1).1

theorem reverseLevels_off (hoff : context.reorderNsm = false)
    (hlevels : ∀ level ∈ line, level.removedByX9 = false → level.Resolved) :
    context.reverseLevels start line = .ok (line,
      ((levelsDown (levelBounds line).2 (levelBounds line).1).foldl Uax9.reverseLevel
        (Uax9.lineChars line start)).map Prod.snd) := by
  unfold BidiContext.reverseLevels
  simp only
  split
  · next hall =>
    rw [lineChars_of_removed hall, foldl_reverseLevel_nil]
    rfl
  · rw [if_neg (by simp [hoff])]
    show Except.ok (line, _) = _
    rw [reversePasses_eq start line _ (lowest_nonneg hlevels)]

theorem reverseLevels_on (hon : context.reorderNsm = true)
    (hfits : MarkLine.Fits ⟨context.origCharTypes, line, start⟩)
    (hnot : ¬MarkLine.BeginsWithMarks ⟨context.origCharTypes, line, start⟩) :
    ∃ levels indices, context.reverseLevels start line = .ok (levels, indices) ∧
      indices.Perm ((Uax9.lineChars line start).map Prod.snd) := by
  unfold BidiContext.reverseLevels
  simp only
  by_cases hkept : line.all Level.removedByX9 = true
  · rw [if_pos hkept]
    refine ⟨line, [], rfl, ?_⟩
    rw [lineChars_of_removed hkept]
    exact .nil
  · rw [if_neg hkept, if_pos hon]
    have hpos : 0 < line.length := List.length_pos_iff.mpr fun hnil => hkept (by rw [hnil]; rfl)
    have huntouched : MarkLine.Untouched ⟨context.origCharTypes, line, start⟩ (line.length - 1)
        line (initialVisual start line) := ⟨fun _ _ => rfl, fun _ _ => rfl⟩
    obtain ⟨out, hrun, hperm⟩ := moveMarks_perm hfits hnot line.length huntouched
      (Nat.sub_lt hpos Nat.one_pos)
    refine ⟨_, _, congrArg (Except.map _) hrun, ?_⟩
    rw [← filterMap_initialVisual]
    exact ((reversePasses_perm _ _ _ _).trans hperm).filterMap id

/-- With L3 and two marks at the beginning the scan goes below the start of the line. -/
theorem reverseLevels_panics (hon : context.reorderNsm = true)
    (hfits : MarkLine.Fits ⟨context.origCharTypes, line, start⟩)
    (hmarks : MarkLine.BeginsWithMarks ⟨context.origCharTypes, line, start⟩) :
    context.reverseLevels start line = .error .arithmetic := by
  obtain ⟨level, j, hj, hdir, hfirst, hsecond, hbetween⟩ := hmarks
  have hlength : j < line.length := (List.getElem?_eq_some_iff.mp hsecond.1).1
  have hkept : ¬line.all Level.removedByX9 = true := fun hall => by
    have hremoved := List.all_eq_true.mp hall level (List.mem_of_getElem? hsecond.1)
    exact absurd (hremoved.symm.trans (direction_not_removed hdir)) (by simp)
  unfold BidiContext.reverseLevels
  simp only
  rw [if_neg hkept, if_pos hon]
  have huntouched : MarkLine.Untouched ⟨context.origCharTypes, line, start⟩ (line.length - 1)
      line (initialVisual start line) := ⟨fun _ _ => rfl, fun _ _ => rfl⟩
  have hrun := moveMarks_panics hfits hj hdir hfirst hsecond hbetween
    (by omega : line.length - 1 < line.length) huntouched (by show line.length - 1 < line.length; omega)
    (by omega)
  exact congrArg (Except.map _) hrun

end ReverseLevels

end Wakterm.Bidi
