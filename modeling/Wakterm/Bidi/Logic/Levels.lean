import Mathlib.Data.List.Forall2
import Wakterm.Bidi.Logic.Explicit
import Wakterm.Bidi.Reorder
import Wakterm.Machine.Loop

/-!
# The levels of a context

After `resolve` the characters that are removed are those of the classes of rule X9, and the levels
of the others lie between 0 and one more than `MAX_DEPTH`.
-/

namespace Wakterm.Bidi

open Machine

/-- A level that the stack may have. -/
def Level.Embedding (level : Level) : Prop := 0 ≤ level.val ∧ level.val ≤ maxDepth

/-- A level that a character may have after `resolve`, unless it is removed. -/
def Level.Resolved (level : Level) : Prop := 0 ≤ level.val ∧ level.val ≤ maxDepth + 1

variable {level base : Level} {bc : BidiClass} {out : Option Level × BidiClass}

theorem Level.Resolved.not_removed (h : level.Resolved) : level.removedByX9 = false := by
  have hpos := h.1
  unfold Level.removedByX9
  refine decide_eq_false fun heq => ?_
  subst heq
  exact absurd hpos (by decide)

theorem Level.Embedding.resolved (h : level.Embedding) : level.Resolved :=
  ⟨h.1, Int.le_trans h.2 (by omega)⟩

/-! ## X1 to X9 -/

theorem checked_embedding {n : Int} (h : Level.checked n = some level) : level.Embedding := by
  unfold Level.checked at h
  split at h
  · exact absurd h (by simp)
  · next hn =>
    cases h
    exact ⟨Int.not_lt.mp fun hlt => hn (.inl hlt), Int.not_lt.mp fun hlt => hn (.inr hlt)⟩

def StackLevels (stack : LevelStack) : Prop := ∀ status ∈ stack, status.level.Embedding

namespace StackLevels

variable {stack : LevelStack} {status : Status}

theorem tail (h : StackLevels stack) : StackLevels stack.tail := fun other hother =>
  h other (List.mem_of_mem_tail hother)

theorem push (h : StackLevels stack) (hstatus : status.level.Embedding) :
    StackLevels (LevelStack.push stack status) := by
  unfold LevelStack.push
  split
  · exact List.forall_mem_cons.mpr ⟨hstatus, h⟩
  · exact h

theorem top (h : StackLevels stack) (htop : LevelStack.top stack = .ok status) :
    status.level.Embedding := by
  cases stack with
  | nil => exact absurd htop (by simp [LevelStack.top])
  | cons first below =>
    obtain rfl := Except.ok.inj htop
    exact h first List.mem_cons_self

theorem popToIsolate {popped : LevelStack} (h : StackLevels stack)
    (hpop : LevelStack.popToIsolate stack = .ok popped) : StackLevels popped := by
  induction stack with
  | nil => exact absurd hpop (by simp [LevelStack.popToIsolate])
  | cons first below ih =>
    rw [LevelStack.popToIsolate] at hpop
    split at hpop
    · cases hpop
      exact h
    · exact ih h.tail hpop

end StackLevels

namespace Explicit

variable {s s' : Explicit} {level : Option Level}

theorem embed_levels (h : StackLevels s.stack) (override : Override)
    (hlevel : ∀ l, level = some l → l.Embedding) : StackLevels (s.embed level override).stack := by
  have hover : StackLevels s.overflow.stack := by
    unfold overflow
    split
    · exact h
    · exact h
  unfold embed
  cases level with
  | none => exact hover
  | some level =>
    simp only
    split
    · exact h.push (hlevel level rfl)
    · exact hover

theorem isolate_levels (h : StackLevels s.stack) (hlevel : ∀ l, level = some l → l.Embedding) :
    StackLevels (s.isolate level).stack := by
  unfold isolate
  cases level with
  | none => exact h
  | some level =>
    simp only
    split
    · exact h.push (hlevel level rfl)
    · exact h

theorem closeIsolate_levels (h : StackLevels s.stack) (hclose : s.closeIsolate = .ok s') :
    StackLevels s'.stack := by
  unfold closeIsolate at hclose
  split at hclose
  · cases hclose
    exact h
  · split at hclose
    · cases hclose
      exact h
    · obtain ⟨stack, hpop, rfl⟩ := map_eq_ok.mp hclose
      exact (h.popToIsolate hpop).tail

theorem closeFormat_levels (h : StackLevels s.stack) (hclose : s.closeFormat = .ok s') :
    StackLevels s'.stack := by
  unfold closeFormat at hclose
  split at hclose
  · cases hclose
    exact h
  · split at hclose
    · cases hclose
      exact h
    · obtain ⟨top, -, rfl⟩ := map_eq_ok.mp hclose
      split
      · exact h.tail
      · exact h

theorem firstStrongLevel_embedding {top : Level} {rest : List BidiClass} {l : Level}
    (h : firstStrongLevel top rest = some l) : l.Embedding := by
  unfold firstStrongLevel at h
  split at h
  · exact checked_embedding h
  · exact checked_embedding h

end Explicit

/-- What a character is given: a class that is removed if its own is, and otherwise a level. -/
def Given (bc : BidiClass) (out : Option Level × BidiClass) : Prop :=
  out.2.isRemoved = bc.isRemoved ∧
    (bc.isRemoved = false → ∃ level, out.1 = some level ∧ level.Embedding)

theorem given_of_level (override : Override) (hbc : bc.isRemoved = false) (hlevel : level.Embedding)
    : Given bc (some level, override.apply bc) := by
  refine ⟨?_, fun _ => ⟨level, rfl, hlevel⟩⟩
  cases override with
  | neutral => rfl
  | ltr => exact hbc.symm
  | rtl => exact hbc.symm

theorem given_of_removed (hbc : bc.isRemoved = true) : Given bc (none, bc) :=
  ⟨rfl, fun h => absurd (hbc.symm.trans h) (by simp)⟩

theorem step_levels {s s' : Explicit} {rest : List BidiClass} (hbase : base.Embedding)
    (h : StackLevels s.stack) (hstep : s.step base bc rest = .ok (s', out)) :
    StackLevels s'.stack ∧ Given bc out := by
  unfold Explicit.step at hstep
  cases bc with
  | rightToLeftEmbedding =>
    obtain ⟨top, -, heq⟩ := map_eq_ok.mp hstep
    cases heq
    exact ⟨s.embed_levels h _ fun _ hl => checked_embedding hl, given_of_removed rfl⟩
  | leftToRightEmbedding =>
    obtain ⟨top, -, heq⟩ := map_eq_ok.mp hstep
    cases heq
    exact ⟨s.embed_levels h _ fun _ hl => checked_embedding hl, given_of_removed rfl⟩
  | rightToLeftOverride =>
    obtain ⟨top, -, heq⟩ := map_eq_ok.mp hstep
    cases heq
    exact ⟨s.embed_levels h _ fun _ hl => checked_embedding hl, given_of_removed rfl⟩
  | leftToRightOverride =>
    obtain ⟨top, -, heq⟩ := map_eq_ok.mp hstep
    cases heq
    exact ⟨s.embed_levels h _ fun _ hl => checked_embedding hl, given_of_removed rfl⟩
  | rightToLeftIsolate =>
    obtain ⟨top, htop, heq⟩ := map_eq_ok.mp hstep
    cases heq
    exact ⟨s.isolate_levels h fun _ hl => checked_embedding hl,
      given_of_level _ rfl (h.top htop)⟩
  | leftToRightIsolate =>
    obtain ⟨top, htop, heq⟩ := map_eq_ok.mp hstep
    cases heq
    exact ⟨s.isolate_levels h fun _ hl => checked_embedding hl,
      given_of_level _ rfl (h.top htop)⟩
  | firstStrongIsolate =>
    obtain ⟨top, htop, heq⟩ := map_eq_ok.mp hstep
    cases heq
    exact ⟨s.isolate_levels h fun _ hl => Explicit.firstStrongLevel_embedding hl,
      given_of_level _ rfl (h.top htop)⟩
  | popDirectionalIsolate =>
    obtain ⟨t, hclose, hrest⟩ := bind_eq_ok.mp hstep
    obtain ⟨top, htop, heq⟩ := bind_eq_ok.mp hrest
    cases heq
    have hclosed := s.closeIsolate_levels h hclose
    exact ⟨hclosed, given_of_level _ rfl (hclosed.top htop)⟩
  | popDirectionalFormat =>
    obtain ⟨t, hclose, heq⟩ := map_eq_ok.mp hstep
    cases heq
    exact ⟨s.closeFormat_levels h hclose, given_of_removed rfl⟩
  | boundaryNeutral =>
    cases hstep
    exact ⟨h, given_of_removed rfl⟩
  | paragraphSeparator =>
    cases hstep
    exact ⟨h, given_of_level .neutral rfl hbase⟩
  | _ =>
    obtain ⟨top, htop, heq⟩ := map_eq_ok.mp hstep
    cases heq
    exact ⟨h, given_of_level _ rfl (h.top htop)⟩

theorem run_levels (hbase : base.Embedding) {types : List BidiClass} {s : Explicit}
    {out : List (Option Level × BidiClass)} (h : StackLevels s.stack)
    (hrun : s.run base types = .ok out) : List.Forall₂ Given types out := by
  induction types generalizing s out with
  | nil =>
    cases hrun
    exact .nil
  | cons bc rest ih =>
    rw [Explicit.run] at hrun
    obtain ⟨⟨s', new⟩, hstep, hrest⟩ := bind_eq_ok.mp hrun
    obtain ⟨news, hnews, heq⟩ := bind_eq_ok.mp hrest
    cases heq
    obtain ⟨hstack, hgiven⟩ := step_levels hbase h hstep
    exact .cons hgiven (ih hstack hnews)

/-! ## W1 to N2 -/

/-- A rule changes classes only. -/
def KeepsLength (rule : List BidiClass → List BidiClass) : Prop :=
  ∀ types, (rule types).length = types.length

section Length

variable {rule : Rule}

theorem walk_length (hrule : ∀ before idx after, KeepsLength (rule before idx after))
    (before indices : List Nat) : KeepsLength (walk rule before indices) := by
  induction indices generalizing before with
  | nil => exact fun types => rfl
  | cons idx after ih => exact fun types => (ih _ _).trans (hrule before idx after types)

theorem walkBack_length (hrule : ∀ before idx after, KeepsLength (rule before idx after))
    (before indices : List Nat) : KeepsLength (walkBack rule before indices) := by
  induction indices generalizing before with
  | nil => exact fun types => rfl
  | cons idx after ih => exact fun types => (hrule before idx after _).trans (ih _ types)

theorem foldl_length {ι : Type} {step : List BidiClass → ι → List BidiClass}
    (hstep : ∀ i types, (step types i).length = types.length) (is : List ι) :
    KeepsLength (is.foldl step) := by
  induction is with
  | nil => exact fun types => rfl
  | cons i is ih => exact fun types => (ih _).trans (hstep i types)

theorem forSequences_length {rule : IsolatingRunSequence → List BidiClass → List BidiClass}
    (hrule : ∀ isoRun, KeepsLength (rule isoRun)) (isoRuns : List IsolatingRunSequence) :
    KeepsLength (forSequences isoRuns rule) :=
  foldl_length (fun isoRun types => hrule isoRun types) isoRuns

theorem resolveCombiningMarks_length (levels : List Level) (indices : List Nat)
    (prior : BidiClass) : KeepsLength (resolveCombiningMarks levels prior indices) := by
  induction indices generalizing prior with
  | nil => exact fun types => rfl
  | cons idx rest ih =>
    intro types
    rw [resolveCombiningMarks]
    split
    · rw [ih, List.length_set]
    · split
      · exact ih _ types
      · exact ih _ types

theorem terminate_length (levels : List Level) (indices : List Nat) :
    KeepsLength (terminate levels indices) := by
  induction indices with
  | nil => exact fun types => rfl
  | cons idx rest ih =>
    intro types
    rw [terminate]
    split
    · rw [ih, List.length_set]
    · split
      · exact ih types
      · rfl

theorem setMarks_length (orig : List BidiClass) (levels : List Level) (bc : BidiClass)
    (indices : List Nat) : KeepsLength (setMarks orig levels bc indices) := by
  induction indices with
  | nil => exact fun types => rfl
  | cons idx rest ih =>
    intro types
    rw [setMarks]
    split
    · rw [ih, List.length_set]
    · split
      · exact ih types
      · rfl

theorem resolveOnePair_length (orig : List BidiClass) (levels : List Level)
    (isoRun : IsolatingRunSequence) (pair : Pair) (types : List BidiClass) :
    (resolveOnePair orig levels isoRun types pair).length = types.length := by
  have hset : ∀ direction,
      (setBracketPairBc orig levels pair isoRun.indices direction types).length = types.length := by
    intro direction
    unfold setBracketPairBc
    rw [setMarks_length, setMarks_length, List.length_set, List.length_set]
  unfold resolveOnePair
  simp only
  split_ifs
  all_goals first | exact hset _ | rfl

theorem resolvePairedBrackets_length (lookupClosing : Char → Option (Char × BracketType))
    (orig : List BidiClass) (levels : List Level) (paragraph : List Char)
    (isoRuns : List IsolatingRunSequence) :
    KeepsLength (resolvePairedBrackets lookupClosing orig levels paragraph isoRuns) := by
  induction isoRuns with
  | nil => exact fun types => rfl
  | cons isoRun isoRuns ih =>
    intro types
    rw [resolvePairedBrackets]
    split
    · rfl
    · rw [ih]
      exact foldl_length (fun pair types =>
        resolveOnePair_length orig levels isoRun pair types) _ types

theorem length_ite_set {c : Prop} [Decidable c] (types : List BidiClass) (idx : Nat)
    (bc : BidiClass) : (if c then types.set idx bc else types).length = types.length := by
  split
  · exact List.length_set
  · rfl

theorem resolveSeparator_length (levels : List Level) (before : List Nat) (idx : Nat)
    (after : List Nat) : KeepsLength (resolveSeparator levels before idx after) := by
  intro types
  unfold resolveSeparator
  split
  · exact length_ite_set types idx _
  · split
    · split
      · exact List.length_set
      · exact length_ite_set types idx _
    · rfl

theorem resolveTerminator_length (levels : List Level) (before : List Nat) (idx : Nat)
    (after : List Nat) : KeepsLength (resolveTerminator levels before idx after) := by
  intro types
  unfold resolveTerminator
  split
  · rw [terminate_length, terminate_length]
  · rfl

theorem resolveEsCsEt_length (before : List Nat) (idx : Nat) (after : List Nat) :
    KeepsLength (resolveEsCsEt before idx after) := by
  intro types
  unfold resolveEsCsEt
  split
  all_goals first | exact List.length_set | rfl

theorem resolveNeutralByContext_length (levels : List Level) (sos eos : BidiClass)
    (before : List Nat) (idx : Nat) (after : List Nat) :
    KeepsLength (resolveNeutralByContext levels sos eos before idx after) := by
  intro types
  unfold resolveNeutralByContext
  split
  · rfl
  · split
    · exact List.length_set
    · exact length_ite_set types idx _

theorem resolveEuropeanNumber_length (sos : BidiClass) (before : List Nat) (idx : Nat)
    (after : List Nat) : KeepsLength (resolveEuropeanNumber sos before idx after) :=
  fun types => length_ite_set types idx _

theorem resolveArabicLetter_length (before : List Nat) (idx : Nat) (after : List Nat) :
    KeepsLength (resolveArabicLetter before idx after) :=
  fun types => length_ite_set types idx _

theorem resolveEn_length (sos : BidiClass) (before : List Nat) (idx : Nat) (after : List Nat) :
    KeepsLength (resolveEn sos before idx after) :=
  fun types => length_ite_set types idx _

theorem resolveNeutralByLevel_length (levels : List Level) (before : List Nat) (idx : Nat)
    (after : List Nat) : KeepsLength (resolveNeutralByLevel levels before idx after) :=
  fun types => length_ite_set types idx _

theorem resolveClasses_length (lookupClosing : Char → Option (Char × BracketType))
    (orig : List BidiClass) (levels : List Level) (paragraph : List Char)
    (isoRuns : List IsolatingRunSequence) :
    KeepsLength (resolveClasses lookupClosing orig levels paragraph isoRuns) := by
  intro types
  unfold resolveClasses
  simp only
  rw [forSequences_length fun s => walkBack_length (resolveNeutralByLevel_length levels) [] s.indices,
    forSequences_length fun s => walkBack_length
      (resolveNeutralByContext_length levels s.sos s.eos) [] s.indices]
  have hbrackets : ∀ types' : List BidiClass, types'.length = types.length →
      (if paragraph.isEmpty then types'
        else resolvePairedBrackets lookupClosing orig levels paragraph isoRuns types').length =
        types.length := by
    intro types' h
    split
    · exact h
    · exact (resolvePairedBrackets_length lookupClosing orig levels paragraph isoRuns _).trans h
  refine hbrackets _ ?_
  rw [forSequences_length fun s => walkBack_length (resolveEn_length s.sos) [] s.indices,
    forSequences_length fun s => walk_length resolveEsCsEt_length [] s.indices,
    forSequences_length fun s => walk_length (resolveTerminator_length levels) [] s.indices,
    forSequences_length fun s => walk_length (resolveSeparator_length levels) [] s.indices,
    forSequences_length fun s => walk_length resolveArabicLetter_length [] s.indices,
    forSequences_length fun s => walk_length (resolveEuropeanNumber_length s.sos) [] s.indices,
    forSequences_length fun s => resolveCombiningMarks_length levels s.indices s.sos]

end Length

/-! ## `resolve` -/

theorem implicitLevel_resolved (h : level.Embedding) (bc : BidiClass) :
    (implicitLevel bc level).Resolved := by
  obtain ⟨hpos, hle⟩ := h
  have hkept : level.removedByX9 = false := (Level.Embedding.resolved ⟨hpos, hle⟩).not_removed
  have hdepth : (maxDepth : Int) = 125 := rfl
  have htmod := tmod_two hpos
  unfold implicitLevel Level.direction
  rw [hkept, if_neg (by simp), htmod]
  unfold Level.Resolved
  by_cases hodd : level.val % 2 = 1
  · rw [if_pos hodd]
    cases bc <;> simp only <;> omega
  · rw [if_neg hodd]
    cases bc <;> simp only <;> omega

/-- A level that fits a class: none if rule X9 removes it. -/
def Fits (bc : BidiClass) (level : Level) : Prop :=
  (bc.isRemoved = true → level = noLevel) ∧ (bc.isRemoved = false → level.Resolved)

/-- What holds of a context once it has been resolved. -/
structure BidiContext.WellFormed (context : BidiContext) : Prop where
  base : context.baseLevel = ⟨0⟩ ∨ context.baseLevel = ⟨1⟩
  levels : List.Forall₂ Fits context.origCharTypes context.levels

theorem paragraphLevelFrom_cases (respectPdi : Bool) (fallback : Direction)
    (types : List BidiClass) (isolates : Nat) :
    paragraphLevelFrom respectPdi fallback isolates types = ⟨0⟩ ∨
      paragraphLevelFrom respectPdi fallback isolates types = ⟨1⟩ := by
  have hend : (if fallback = .leftToRight then (⟨0⟩ : Level) else ⟨1⟩) = ⟨0⟩ ∨
      (if fallback = .leftToRight then (⟨0⟩ : Level) else ⟨1⟩) = ⟨1⟩ := by
    split
    · exact .inl rfl
    · exact .inr rfl
  induction types generalizing isolates with
  | nil => exact hend
  | cons bc types ih =>
    cases bc <;> simp only [paragraphLevelFrom] <;> (try split) <;> (try split) <;>
      first | exact ih _ | exact hend | exact .inl rfl | exact .inr rfl

theorem baseLevel_cases (types : List BidiClass) (hint : ParagraphDirectionHint) :
    baseLevel types hint = ⟨0⟩ ∨ baseLevel types hint = ⟨1⟩ := by
  cases hint with
  | leftToRight => exact .inl rfl
  | rightToLeft => exact .inr rfl
  | autoLeftToRight => exact paragraphLevelFrom_cases false .leftToRight types 0
  | autoRightToLeft => exact paragraphLevelFrom_cases false .rightToLeft types 0

theorem length_resizeLevels (levels : List Level) (len : Nat) :
    (resizeLevels levels len).length = len := by
  unfold resizeLevels
  rw [List.length_append, List.length_take, List.length_replicate]
  omega

theorem finalLevel {cls : BidiClass} (old : Level) (h : Given bc out) :
    Fits bc (implicitLevel cls (if out.2.isRemoved then noLevel else out.1.getD old)) := by
  obtain ⟨hclass, hlevel⟩ := h
  rw [hclass]
  constructor
  · intro hbc
    rw [if_pos hbc]
    rfl
  · intro hbc
    obtain ⟨level, hsome, hembedding⟩ := hlevel hbc
    rw [if_neg (by simp [hbc]), hsome]
    exact implicitLevel_resolved hembedding cls

theorem resolve_spec {context context' : BidiContext}
    {lookupClosing : Char → Option (Char × BracketType)} {types : List BidiClass}
    {hint : ParagraphDirectionHint} {paragraph : List Char}
    (h : context.resolve lookupClosing types hint paragraph = .ok context') :
    context'.WellFormed ∧ context'.origCharTypes = types ∧
      context'.reorderNsm = context.reorderNsm := by
  obtain ⟨⟨levels, charTypes⟩, hexplicit, rfl⟩ := map_eq_ok.mp h
  obtain ⟨out, hrun, heq⟩ := map_eq_ok.mp hexplicit
  cases heq
  have hbase := baseLevel_cases types hint
  have hembedding : (baseLevel types hint).Embedding := by
    rcases hbase with hzero | hone
    · rw [hzero]
      exact ⟨by decide, by decide⟩
    · rw [hone]
      exact ⟨by decide, by decide⟩
  have hstack : StackLevels (Explicit.start (baseLevel types hint)).stack := fun status hstatus =>
    List.mem_singleton.mp hstatus ▸ hembedding
  have hgiven := run_levels hembedding hstack hrun
  refine ⟨⟨hbase, ?_⟩, rfl, rfl⟩
  have hlength := hgiven.length_eq
  simp only [resolveImplicitLevels, deleteFormatCharacters]
  refine List.forall₂_iff_get.mpr ⟨?_, fun i hi hi' => ?_⟩
  · simp [resolveClasses_length _ _ _ _ _ _, length_resizeLevels, hlength]
  · have hpoint := (List.forall₂_iff_get.mp hgiven).2 i hi (hlength ▸ hi)
    simp only [List.get_eq_getElem, List.getElem_zipWith, List.getElem_map] at hpoint ⊢
    exact finalLevel _ hpoint

/-! ## L1 -/

section Line

variable {orig : List BidiClass} {levels : List Level} {base : Level}

theorem forall₂_set (h : List.Forall₂ Fits orig levels) (hbase : base.Resolved) (i : Nat)
    (hi : (classAt orig i).isRemoved = false) : List.Forall₂ Fits orig (levels.set i base) := by
  induction h generalizing i with
  | nil => exact .nil
  | @cons bc level orig levels hfirst hrest ih =>
    cases i with
    | zero =>
      have hbc : bc.isRemoved = false := hi
      exact .cons ⟨fun h => absurd (h.symm.trans hbc) (by simp), fun _ => hbase⟩ hrest
    | succ i => exact .cons hfirst (ih i hi)

theorem resetContiguous_fits (hbase : base.Resolved) (indices : List Nat)
    (h : List.Forall₂ Fits orig levels) :
    List.Forall₂ Fits orig (resetContiguousWhitespaceBefore base orig indices levels) := by
  induction indices generalizing levels with
  | nil => exact h
  | cons i rest ih =>
    rw [resetContiguousWhitespaceBefore]
    split
    · next hclass =>
      refine ih (forall₂_set h hbase i ?_)
      cases hbc : classAt orig i <;> first | rfl | simp [hbc, BidiClass.isIsoControl] at hclass
    · split
      · exact ih h
      · exact h

theorem resetAtSeparator_fits (hbase : base.Resolved) (start idx : Nat)
    (h : List.Forall₂ Fits orig levels) :
    List.Forall₂ Fits orig (resetAtSeparator base orig start levels idx) := by
  unfold resetAtSeparator
  split
  · next hclass =>
    exact resetContiguous_fits hbase _ (forall₂_set h hbase idx (by rw [hclass]; rfl))
  · next hclass =>
    exact resetContiguous_fits hbase _ (forall₂_set h hbase idx (by rw [hclass]; rfl))
  · exact h

theorem foldl_resetAtSeparator_fits (hbase : base.Resolved) (start : Nat) (indices : List Nat)
    (h : List.Forall₂ Fits orig levels) :
    List.Forall₂ Fits orig (indices.foldl (resetAtSeparator base orig start) levels) := by
  induction indices generalizing levels with
  | nil => exact h
  | cons idx indices ih => exact ih (resetAtSeparator_fits hbase start idx h)

theorem resetWhitespaceLevels_spec {context : BidiContext} (h : context.WellFormed)
    {start stop : Nat} (hstart : start ≤ stop) (hstop : stop ≤ context.origCharTypes.length) :
    ∃ line, context.resetWhitespaceLevels start stop = .ok line ∧
      List.Forall₂ Fits ((context.origCharTypes.drop start).take (stop - start)) line := by
  have hbase : context.baseLevel.Resolved := by
    rcases h.base with hzero | hone
    · rw [hzero]
      exact ⟨by decide, by decide⟩
    · rw [hone]
      exact ⟨by decide, by decide⟩
  have hlength := h.levels.length_eq
  unfold BidiContext.resetWhitespaceLevels
  rw [if_pos ⟨hstart, hlength ▸ hstop⟩]
  refine ⟨_, rfl, ?_⟩
  exact List.forall₂_take _ (List.forall₂_drop _ (resetContiguous_fits hbase _
    (foldl_resetAtSeparator_fits hbase start _ h.levels)))

end Line

end Wakterm.Bidi
