import Mathlib.Data.Nat.Find
import Wakterm.Bidi.Logic.Levels

/-!
# Moving the marks

The loop of rule L3 goes from the end of a line to its start, and what it has not come to is as it
was.
-/

namespace Wakterm.Bidi

open Machine

/-- A line before anything is moved: its levels, the classes of the paragraph, and where it starts. -/
structure MarkLine where
  orig : List BidiClass
  levels : List Level
  start : Nat

namespace MarkLine

/-- The levels fit the classes. -/
def Fits (line : MarkLine) : Prop :=
  ∀ i level, line.levels[i]? = some level →
    ∃ bc, line.orig[i + line.start]? = some bc ∧ Bidi.Fits bc level

def Mark (line : MarkLine) (level : Level) (i : Nat) : Prop :=
  line.levels[i]? = some level ∧ line.orig[i + line.start]? = some .nonspacingMark

/-- What a scan at the level goes past. -/
def Past (line : MarkLine) (level : Level) (i : Nat) : Prop :=
  0 < i ∧ line.levels[i]? = some noLevel ∨ line.Mark level i

/-- The line begins with two marks of one level, from right to left. -/
def BeginsWithMarks (line : MarkLine) : Prop :=
  ∃ level j, 0 < j ∧ level.direction = .rightToLeft ∧ line.Mark level 0 ∧ line.Mark level j ∧
    ∀ i, 0 < i → i < j → line.levels[i]? = some noLevel

/-- Up to an index the line is as it was. -/
structure Untouched (line : MarkLine) (idx : Nat) (levels : List Level)
    (visual : List (Option Nat)) : Prop where
  levels : ∀ i ≤ idx, levels[i]? = line.levels[i]?
  visual : ∀ i ≤ idx, visual[i]? = (initialVisual line.start line.levels)[i]?

end MarkLine

theorem direction_not_removed {level : Level} (h : level.direction = .rightToLeft) :
    level.removedByX9 = false := by
  refine decide_eq_false fun heq => ?_
  subst heq
  exact absurd h (by decide)

theorem getElem?_initialVisual (start : Nat) (levels : List Level) (i : Nat) :
    (initialVisual start levels)[i]? =
      levels[i]?.map fun level => if level.removedByX9 then none else some (i + start) := by
  unfold initialVisual
  rw [List.getElem?_map, List.getElem?_zipIdx]
  cases levels[i]? with
  | none => rfl
  | some level =>
    show some (if level.removedByX9 then none else some (0 + i + start)) = _
    rw [Nat.zero_add]
    rfl

theorem readAt_of_get {α : Type} {l : List α} {i : Nat} {x : α} (h : l[i]? = some x) :
    readAt l i = .ok x := by
  unfold readAt
  rw [h]

section Round

variable {line : MarkLine} {idx i : Nat} {levels : List Level} {visual : List (Option Nat)}
  {level found : Level}

theorem classOf_untouched (hfits : line.Fits) (h : line.Untouched idx levels visual) (hi : i ≤ idx)
    (hlevel : line.levels[i]? = some level) (hkept : level.removedByX9 = false) :
    ∃ bc, line.orig[i + line.start]? = some bc ∧ classOf line.orig visual i = .ok bc ∧
      bc.isRemoved = false := by
  obtain ⟨bc, hbc, hfit⟩ := hfits i level hlevel
  have hplace : visual[i]? = some (some (i + line.start)) := by
    rw [h.visual i hi, getElem?_initialVisual, hlevel, Option.map_some, if_neg (by simp [hkept])]
  refine ⟨bc, hbc, ?_, ?_⟩
  · unfold classOf
    rw [readAt_of_get hplace]
    exact readAt_of_get hbc
  · cases hremoved : bc.isRemoved with
    | false => rfl
    | true =>
      have hnone := hfit.1 hremoved
      rw [hnone] at hkept
      exact absurd hkept (by decide)

theorem markAt_untouched (hfits : line.Fits) (h : line.Untouched idx levels visual) (hpos : 0 < idx)
    (hlevel : line.levels[idx]? = some level) : ∃ b, markAt line.orig levels visual idx = .ok b ∧
      (b = true ↔ level.direction = .rightToLeft ∧ line.Mark level idx) := by
  have hread : readAt levels idx = .ok level := readAt_of_get ((h.levels idx le_rfl).trans hlevel)
  unfold markAt
  rw [if_neg (Nat.ne_of_gt hpos), hread]
  by_cases hdir : level.direction = .rightToLeft
  · have hkept := direction_not_removed hdir
    obtain ⟨bc, hbc, hclass, -⟩ := classOf_untouched hfits h le_rfl hlevel hkept
    refine ⟨decide (bc = .nonspacingMark), ?_, ?_⟩
    · show (if _ then _ else _) = _
      rw [hkept, hdir, if_pos (by decide), hclass]
      rfl
    · rw [decide_eq_true_eq]
      constructor
      · intro heq
        exact ⟨hdir, hlevel, heq ▸ hbc⟩
      · rintro ⟨-, -, hmark⟩
        exact Option.some.inj (hbc.symm.trans hmark)
  · refine ⟨false, ?_, ?_⟩
    · show (if _ then _ else _) = _
      rw [if_neg (by simp [hdir])]
    · simp [hdir]

theorem scansPast_untouched (hfits : line.Fits) (h : line.Untouched idx levels visual) (hi : i ≤ idx)
    (hfound : line.levels[i]? = some found) (hlevel : level.removedByX9 = false) :
    ∃ b, scansPast line.orig levels visual level i = .ok b ∧ (b = true ↔ line.Past level i) := by
  have hread : readAt levels i = .ok found := readAt_of_get ((h.levels i hi).trans hfound)
  unfold scansPast
  rw [hread]
  cases hremoved : found.removedByX9 with
  | true =>
    have hnone : found = noLevel := of_decide_eq_true hremoved
    have hne : found ≠ level := fun heq => by
      rw [heq, hlevel] at hremoved
      exact absurd hremoved (by simp)
    have hmark : ¬line.Mark level i := fun hmark =>
      hne (Option.some.inj (hfound.symm.trans hmark.1))
    by_cases hpos : 0 < i
    · refine ⟨true, ?_, ?_⟩
      · show (if _ then _ else _) = _
        rw [if_pos (by simp [hpos, hremoved])]
      · exact iff_of_true rfl (.inl ⟨hpos, hnone ▸ hfound⟩)
    · refine ⟨false, ?_, ?_⟩
      · show (if _ then _ else _) = _
        rw [if_neg (by simp [hpos]), if_neg hne]
      · exact iff_of_false (by simp) fun hpast => hpast.elim (fun h => hpos h.1) hmark
  | false =>
    have hkept : line.levels[i]? ≠ some noLevel := fun hnone => by
      rw [Option.some.inj (hfound.symm.trans hnone)] at hremoved
      exact absurd hremoved (by decide)
    by_cases heq : found = level
    · subst heq
      obtain ⟨bc, hbc, hclass, hnot⟩ := classOf_untouched hfits h hi hfound hremoved
      refine ⟨decide (bc = .nonspacingMark), ?_, ?_⟩
      · show (if _ then _ else _) = _
        rw [if_neg (by simp [hremoved]), if_pos rfl, hclass]
        show Except.ok (bc.isRemoved || _) = _
        rw [hnot, Bool.false_or]
      · rw [decide_eq_true_eq]
        constructor
        · intro hmark
          exact .inr ⟨hfound, hmark ▸ hbc⟩
        · rintro (⟨-, hnone⟩ | ⟨-, hmark⟩)
          · exact absurd hnone hkept
          · exact Option.some.inj (hbc.symm.trans hmark)
    · refine ⟨false, ?_, ?_⟩
      · show (if _ then _ else _) = _
        rw [if_neg (by simp [hremoved]), if_neg heq]
      · refine iff_of_false (by simp) ?_
        rintro (⟨-, hnone⟩ | ⟨hlevel', -⟩)
        · exact hkept hnone
        · exact heq (Option.some.inj (hfound.symm.trans hlevel'))

/-- A scan stops at the first place it does not go past, or runs into the start of the line. -/
theorem scanBack_spec {orig : List BidiClass} {past : Nat → Prop} (n : Nat)
    (hread : ∀ i ≤ n, ∃ b, scansPast orig levels visual level i = .ok b ∧ (b = true ↔ past i)) :
    (∃ stop ≤ n, scanBack orig levels visual level n = .ok stop ∧ ¬past stop ∧
        ∀ i, stop < i → i ≤ n → past i) ∨
      scanBack orig levels visual level n = .error .arithmetic ∧ ∀ i ≤ n, past i := by
  induction n with
  | zero =>
    obtain ⟨b, hb, hpast⟩ := hread 0 le_rfl
    unfold scanBack
    rw [hb]
    cases b with
    | true =>
      refine .inr ⟨rfl, fun i hi => ?_⟩
      rw [Nat.le_zero.mp hi]
      exact hpast.mp rfl
    | false =>
      refine .inl ⟨0, le_rfl, rfl, fun h => absurd (hpast.mpr h) (by simp), fun i hlt hle => ?_⟩
      exact absurd hlt (Nat.not_lt.mpr hle)
  | succ n ih =>
    obtain ⟨b, hb, hpast⟩ := hread (n + 1) le_rfl
    unfold scanBack
    rw [hb]
    cases b with
    | false =>
      refine .inl ⟨n + 1, le_rfl, rfl, fun h => absurd (hpast.mpr h) (by simp),
        fun i hlt hle => ?_⟩
      exact absurd hlt (Nat.not_lt.mpr hle)
    | true =>
      have hfirst := hpast.mp rfl
      have hcases : ∀ i ≤ n + 1, i ≤ n ∨ i = n + 1 := fun i hi => by omega
      rcases ih fun i hi => hread i (Nat.le_succ_of_le hi) with
        ⟨stop, hle, hrun, hstop, hall⟩ | ⟨hrun, hall⟩
      · refine .inl ⟨stop, Nat.le_succ_of_le hle, hrun, hstop, fun i hlt hi => ?_⟩
        rcases hcases i hi with hi | rfl
        · exact hall i hlt hi
        · exact hfirst
      · refine .inr ⟨hrun, fun i hi => ?_⟩
        rcases hcases i hi with hi | rfl
        · exact hall i hi
        · exact hfirst

/-- The ways a round may end. -/
inductive RoundEnds (line : MarkLine) (idx : Nat) (levels : List Level)
    (visual : List (Option Nat)) : Except Panic (Nat × List Level × List (Option Nat)) → Prop
  | stays (hnot : ∀ level, 0 < idx → level.direction = .rightToLeft → ¬line.Mark level idx) :
      RoundEnds line idx levels visual (.ok (idx, levels, visual))
  | panics (level : Level) (hpos : 0 < idx) (hdir : level.direction = .rightToLeft)
      (hmark : line.Mark level idx) (hpast : ∀ i < idx, line.Past level i) :
      RoundEnds line idx levels visual (.error .arithmetic)
  | moves (level : Level) (stop first : Nat) (levels' : List Level) (visual' : List (Option Nat))
      (hdir : level.direction = .rightToLeft) (hmark : line.Mark level idx) (hstop : stop < idx)
      (hnot : ¬line.Past level stop) (hpast : ∀ i, stop < i → i < idx → line.Past level i)
      (hfirst : first = if line.levels[stop]? = some level then stop else stop + 1)
      (hperm : visual'.Perm visual)
      (hbefore : ∀ i < first, levels'[i]? = levels[i]? ∧ visual'[i]? = visual[i]?) :
      RoundEnds line idx levels visual (.ok (first, levels', visual'))

theorem reverseSlice_perm {α : Type} (l : List α) {first last : Nat} (h : first ≤ last + 1) :
    (reverseSlice l first last).Perm l := by
  unfold reverseSlice
  have hparts : l.take first ++ ((l.take (last + 1)).drop first ++ l.drop (last + 1)) = l := by
    rw [← List.append_assoc]
    have htake : (l.take (last + 1)).take first = l.take first := by
      rw [List.take_take, Nat.min_eq_left h]
    rw [← htake, List.take_append_drop, List.take_append_drop]
  conv_rhs => rw [← hparts]
  exact ((List.reverse_perm _).append_right _).append_left _

theorem getElem?_reverseSlice {α : Type} (l : List α) {first last : Nat} (hi : i < first)
    (hlen : first ≤ l.length) : (reverseSlice l first last)[i]? = l[i]? := by
  unfold reverseSlice
  rw [List.getElem?_append_left (by rw [List.length_take]; omega), List.getElem?_take_of_lt hi]

theorem moves_of_stop {stop : Nat} (h : line.Untouched idx levels visual)
    (hlevel : line.levels[idx]? = some level) (hfound : line.levels[stop]? = some found)
    (hdir : level.direction = .rightToLeft) (hmark : line.Mark level idx) (hstop : stop < idx)
    (hnot : ¬line.Past level stop) (hpast : ∀ i, stop < i → i < idx → line.Past level i) :
    RoundEnds line idx levels visual (.ok (
      let first := if found ≠ level then stop + 1 else stop
      if first < idx then (first, reverseSlice levels first idx, reverseSlice visual first idx)
      else (first, levels, visual))) := by
  have hlength : idx < levels.length :=
    (List.getElem?_eq_some_iff.mp ((h.levels idx le_rfl).trans hlevel)).1
  have hvisual : idx < visual.length := by
    have hplace := h.visual idx le_rfl
    rw [getElem?_initialVisual, hlevel] at hplace
    exact (List.getElem?_eq_some_iff.mp hplace).1
  have hfirst : (if found ≠ level then stop + 1 else stop) =
      if line.levels[stop]? = some level then stop else stop + 1 := by
    rw [hfound]
    by_cases heq : found = level
    · rw [if_neg (by simp [heq]), if_pos (by rw [heq])]
    · rw [if_pos heq, if_neg (by simpa using heq)]
  have hle : (if found ≠ level then stop + 1 else stop) ≤ idx := by
    split
    · exact hstop
    · exact Nat.le_of_lt hstop
  simp only
  generalize (if found ≠ level then stop + 1 else stop) = first at hfirst hle
  split
  · exact .moves level stop first _ _ hdir hmark hstop hnot hpast hfirst
      (reverseSlice_perm visual (by omega)) fun i hi =>
        ⟨getElem?_reverseSlice levels hi (by omega), getElem?_reverseSlice visual hi (by omega)⟩
  · exact .moves level stop first _ _ hdir hmark hstop hnot hpast hfirst (.refl visual)
      fun i _ => ⟨rfl, rfl⟩

theorem moveMarksAt_ends (hfits : line.Fits) (h : line.Untouched idx levels visual)
    (hlt : idx < line.levels.length) :
    RoundEnds line idx levels visual (moveMarksAt line.orig idx levels visual) := by
  have hlevel : line.levels[idx]? = some line.levels[idx] := List.getElem?_eq_getElem hlt
  generalize line.levels[idx] = level at hlevel
  by_cases hpos : 0 < idx
  · obtain ⟨mark, hrun, hmark⟩ := markAt_untouched hfits h hpos hlevel
    unfold moveMarksAt
    rw [hrun]
    cases mark with
    | false =>
      refine .stays fun other _ hdir hother => ?_
      cases hother.1.symm.trans hlevel
      exact absurd (hmark.mpr ⟨hdir, hother⟩) (by simp)
    | true =>
      obtain ⟨hdir, hmark⟩ := hmark.mp rfl
      have hkept := direction_not_removed hdir
      have hread : readAt levels idx = .ok level :=
        readAt_of_get ((h.levels idx le_rfl).trans hlevel)
      have hscan : (∃ stop ≤ idx - 1,
          scanBack line.orig levels visual level (idx - 1) = .ok stop ∧ ¬line.Past level stop ∧
          ∀ i, stop < i → i ≤ idx - 1 → line.Past level i) ∨
          scanBack line.orig levels visual level (idx - 1) = .error .arithmetic ∧
          ∀ i ≤ idx - 1, line.Past level i := by
        refine scanBack_spec (idx - 1) fun i hi => ?_
        have hi' : i < line.levels.length := by omega
        exact scansPast_untouched hfits h (by omega) (List.getElem?_eq_getElem hi') hkept
      show RoundEnds line idx levels visual ((readAt levels idx).bind _)
      rw [hread]
      show RoundEnds line idx levels visual
        ((scanBack line.orig levels visual level (idx - 1)).bind _)
      rcases hscan with ⟨stop, hle, hstop, hnot, hpast⟩ | ⟨herror, hpast⟩
      · rw [hstop]
        have hlt' : stop < line.levels.length := by omega
        have hfound : line.levels[stop]? = some line.levels[stop] := List.getElem?_eq_getElem hlt'
        generalize line.levels[stop] = found at hfound
        have hread' : readAt levels stop = .ok found :=
          readAt_of_get ((h.levels stop (by omega)).trans hfound)
        show RoundEnds line idx levels visual ((readAt levels stop).map _)
        rw [hread']
        exact moves_of_stop h hlevel hfound hdir hmark (by omega) hnot fun i hlow hhigh =>
          hpast i hlow (by omega)
      · rw [herror]
        exact .panics level hpos hdir hmark fun i hi => hpast i (by omega)
  · have hzero : idx = 0 := by omega
    subst hzero
    exact .stays fun _ hpos => absurd hpos (Nat.lt_irrefl 0)

theorem MarkLine.Untouched.mono (h : line.Untouched idx levels visual) (hi : i ≤ idx) :
    line.Untouched i levels visual :=
  ⟨fun k hk => h.levels k (Nat.le_trans hk hi), fun k hk => h.visual k (Nat.le_trans hk hi)⟩

theorem beginsWithMarks_of_past (hdir : level.direction = .rightToLeft) (hpos : 0 < idx)
    (hmark : line.Mark level idx) (hpast : ∀ i < idx, line.Past level i) :
    line.BeginsWithMarks := by
  have hkept := direction_not_removed hdir
  have hnone : some level ≠ some noLevel := fun heq => by
    rw [Option.some.inj heq] at hkept
    exact absurd hkept (by decide)
  -- the first place after the start that is not removed
  have hexists : ∃ j, 0 < j ∧ line.levels[j]? ≠ some noLevel :=
    ⟨idx, hpos, by rw [hmark.1]; exact hnone⟩
  obtain ⟨hj, hjkept⟩ := Nat.find_spec hexists
  have hle : Nat.find hexists ≤ idx := Nat.find_min' hexists ⟨hpos, by rw [hmark.1]; exact hnone⟩
  have hfirst : line.Mark level 0 := (hpast 0 hpos).resolve_left fun h => Nat.lt_irrefl 0 h.1
  have hsecond : line.Mark level (Nat.find hexists) := by
    rcases Nat.lt_or_eq_of_le hle with hlt | heq
    · exact (hpast _ hlt).resolve_left fun h => hjkept h.2
    · exact heq ▸ hmark
  refine ⟨level, Nat.find hexists, hj, hdir, hfirst, hsecond, fun i hi hlt => ?_⟩
  by_contra hne
  exact Nat.find_min hexists hlt ⟨hi, hne⟩

theorem moveMarks_perm (hfits : line.Fits) (hnot : ¬line.BeginsWithMarks) (rounds : Nat)
    (h : line.Untouched idx levels visual) (hlt : idx < line.levels.length) :
    ∃ out, moveMarks line.orig rounds idx levels visual = .ok out ∧ out.2.Perm visual := by
  induction rounds generalizing idx levels visual with
  | zero => exact ⟨(levels, visual), rfl, .refl visual⟩
  | succ rounds ih =>
    rw [moveMarks]
    have hends := moveMarksAt_ends hfits h hlt
    generalize moveMarksAt line.orig idx levels visual = run at hends
    cases hends with
    | stays _ =>
      show ∃ out, (if idx = 0 then _ else _) = Except.ok out ∧ _
      split
      · exact ⟨(levels, visual), rfl, .refl visual⟩
      · exact ih (h.mono (Nat.sub_le idx 1)) (by omega)
    | panics level hpos hdir hmark hpast =>
      exact absurd (beginsWithMarks_of_past hdir hpos hmark hpast) hnot
    | moves level stop first levels' visual' _ _ hstop _ _ hfirst hperm hbefore =>
      have hle : first ≤ idx := by
        rw [hfirst]
        split
        · exact Nat.le_of_lt hstop
        · exact hstop
      show ∃ out, (if first = 0 then _ else _) = Except.ok out ∧ _
      split
      · exact ⟨(levels', visual'), rfl, hperm⟩
      · have huntouched : line.Untouched (first - 1) levels' visual' :=
          ⟨fun i hi => (hbefore i (by omega)).1.trans (h.levels i (by omega)),
            fun i hi => (hbefore i (by omega)).2.trans (h.visual i (by omega))⟩
        obtain ⟨out, hrun, hout⟩ := ih huntouched (by omega)
        exact ⟨out, hrun, hout.trans hperm⟩

theorem moveMarks_panics (hfits : line.Fits) {j : Nat} (hj : 0 < j)
    (hdir : level.direction = .rightToLeft) (hfirst : line.Mark level 0) (hsecond : line.Mark level j)
    (hbetween : ∀ i, 0 < i → i < j → line.levels[i]? = some noLevel) {rounds : Nat}
    (hrounds : idx < rounds) (h : line.Untouched idx levels visual) (hlt : idx < line.levels.length)
    (hjle : j ≤ idx) : moveMarks line.orig rounds idx levels visual = .error .arithmetic := by
  induction rounds generalizing idx levels visual with
  | zero => exact absurd hrounds (Nat.not_lt_zero idx)
  | succ rounds ih =>
    have hbefore : ∀ i < j, line.Past level i := by
      intro i hi
      rcases Nat.eq_zero_or_pos i with rfl | hpos
      · exact .inr hfirst
      · exact .inl ⟨hpos, hbetween i hpos hi⟩
    rw [moveMarks]
    have hends := moveMarksAt_ends hfits h hlt
    generalize moveMarksAt line.orig idx levels visual = run at hends
    cases hends with
    | panics _ _ _ _ _ => rfl
    | stays hnot =>
      have hne : j ≠ idx := fun heq => hnot level (heq ▸ hj) hdir (heq ▸ hsecond)
      show (if idx = 0 then _ else _) = _
      rw [if_neg (by omega)]
      exact ih (by omega) (h.mono (Nat.sub_le idx 1)) (by omega) (by omega)
    | moves other stop next levels' visual' hdir' hmark hstop hnot hpast hnext hperm hkept =>
      -- a scan that went past the second mark would have run into the start
      have hjstop : j ≤ stop := by
        by_contra hcon
        have hlevel : other = level := by
          rcases Nat.lt_or_eq_of_le hjle with hjlt | heq
          · rcases hpast j (by omega) hjlt with ⟨-, hremoved⟩ | hmark'
            · have hnone := Option.some.inj (hsecond.1.symm.trans hremoved)
              rw [hnone] at hdir
              exact absurd hdir (by decide)
            · exact Option.some.inj (hmark'.1.symm.trans hsecond.1)
          · exact Option.some.inj (hmark.1.symm.trans (heq ▸ hsecond.1))
        subst hlevel
        exact hnot (hbefore stop (by omega))
      have hjnext : j < next := by
        rw [hnext]
        split
        · next hsame =>
          -- it stops before a mark of its own level only if that is none
          refine Nat.lt_of_le_of_ne hjstop fun heq => hnot (.inr ⟨hsame, ?_⟩)
          exact heq ▸ hsecond.2
        · omega
      have hle : next ≤ idx := by
        rw [hnext]
        split
        · exact Nat.le_of_lt hstop
        · exact hstop
      have huntouched : line.Untouched (next - 1) levels' visual' :=
        ⟨fun i hi => (hkept i (by omega)).1.trans (h.levels i (by omega)),
          fun i hi => (hkept i (by omega)).2.trans (h.visual i (by omega))⟩
      show (if next = 0 then _ else _) = _
      rw [if_neg (by omega)]
      exact ih (by omega) huntouched (by omega) (by omega)

end Round

end Wakterm.Bidi
