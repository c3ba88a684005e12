import Mathlib.Data.List.Forall2
import Mathlib.Tactic.ByContra
import Wakterm.Bidi.Uax9

/-!
# The stack of the code and the stack of the rules

While the stack of the rules holds no more entries than the code has room for, the variables of
`explicit_embedding_levels` are the context of the rules, character by character.
-/

namespace Wakterm.Bidi

open Uax9

/-- The entry that the code counts as valid, if nothing has overflowed. -/
def Explicit.asked (top : Status) (rest : List BidiClass) : BidiClass → Option Status
  | .rightToLeftEmbedding => top.level.leastGreaterOdd.map fun level => ⟨level, .neutral, false⟩
  | .leftToRightEmbedding => top.level.leastGreaterEven.map fun level => ⟨level, .neutral, false⟩
  | .rightToLeftOverride => top.level.leastGreaterOdd.map fun level => ⟨level, .rtl, false⟩
  | .leftToRightOverride => top.level.leastGreaterEven.map fun level => ⟨level, .ltr, false⟩
  | .rightToLeftIsolate => top.level.leastGreaterOdd.map fun level => ⟨level, .neutral, true⟩
  | .leftToRightIsolate => top.level.leastGreaterEven.map fun level => ⟨level, .neutral, true⟩
  | .firstStrongIsolate =>
    (Explicit.firstStrongLevel top.level rest).map fun level => ⟨level, .neutral, true⟩
  | _ => none

/-- The state in which a character is met: what was read before is no part of it. -/
inductive Explicit.Reaches (base : Level) (types : List BidiClass) :
    Explicit → List BidiClass → Prop
  | start : Reaches base types (.start base) types
  | step {s s' : Explicit} {bc : BidiClass} {rest : List BidiClass}
      {out : Option Level × BidiClass} (h : Reaches base types s (bc :: rest))
      (hstep : s.step base bc rest = .ok (s', out)) : Reaches base types s' rest

theorem tmod_two {n : Int} (hn : 0 ≤ n) : n.tmod 2 = n % 2 := Int.tmod_eq_emod_of_nonneg hn

variable {level base : Level} {top status : Status} {rest types : List BidiClass} {c : Context}
  {bc : BidiClass}

theorem leastGreaterOdd_eq (h : 0 ≤ level.val) : level.leastGreaterOdd =
      if (nextLevel true level).val ≤ maxDepth then some (nextLevel true level) else none := by
  unfold Level.leastGreaterOdd Level.checked nextLevel
  rw [tmod_two h]
  simp only [if_true]
  by_cases hodd : level.val % 2 = 1
  · rw [if_pos hodd, if_neg (show ¬ (level.val + 1) % 2 = 1 by omega)]
    split <;> split <;> first | rfl | omega
  · rw [if_neg hodd, if_pos (show (level.val + 1) % 2 = 1 by omega)]
    split <;> split <;> first | rfl | omega

theorem leastGreaterEven_eq (h : 0 ≤ level.val) : level.leastGreaterEven =
      if (nextLevel false level).val ≤ maxDepth then some (nextLevel false level) else none := by
  unfold Level.leastGreaterEven Level.checked nextLevel
  rw [tmod_two h]
  simp only [Bool.false_eq_true, if_false]
  by_cases heven : level.val % 2 = 0
  · rw [if_pos heven, if_neg (show ¬ (level.val + 1) % 2 = 0 by omega)]
    split <;> split <;> first | rfl | omega
  · rw [if_neg heven, if_pos (show (level.val + 1) % 2 = 0 by omega)]
    split <;> split <;> first | rfl | omega

theorem firstStrongLevel_eq (rest : List BidiClass) (h : 0 ≤ level.val) :
    Explicit.firstStrongLevel level rest =
      if (nextLevel (paragraphLevel rest true .leftToRight = ⟨1⟩) level).val ≤ maxDepth then
        some (nextLevel (paragraphLevel rest true .leftToRight = ⟨1⟩) level) else none := by
  unfold Explicit.firstStrongLevel
  by_cases hright : paragraphLevel rest true .leftToRight = ⟨1⟩
  · rw [if_pos hright, leastGreaterOdd_eq h, decide_eq_true hright]
  · rw [if_neg hright, leastGreaterEven_eq h, decide_eq_false hright]

theorem asked_eq (bc : BidiClass) (h : 0 ≤ top.level.val) : Explicit.asked top rest bc =
      (opened top.level rest bc).filter fun status : Status =>
        decide (status.level.val ≤ (maxDepth : Int)) := by
  have hmap : ∀ (level : Level) (f : Level → Status), (∀ level, (f level).level = level) →
      (if level.val ≤ (maxDepth : Int) then some level else none).map f =
        (some (f level)).filter fun status : Status =>
          decide (status.level.val ≤ (maxDepth : Int)) := by
    intro level f hf
    by_cases hle : level.val ≤ (maxDepth : Int)
    · simp [hle, hf, Option.filter]
    · simp [hle, hf, Option.filter]
  unfold Explicit.asked opened
  rw [leastGreaterOdd_eq h, leastGreaterEven_eq h, firstStrongLevel_eq rest h]
  cases bc with
  | rightToLeftEmbedding => exact hmap _ (fun level => ⟨level, .neutral, false⟩) fun _ => rfl
  | leftToRightEmbedding => exact hmap _ (fun level => ⟨level, .neutral, false⟩) fun _ => rfl
  | rightToLeftOverride => exact hmap _ (fun level => ⟨level, .rtl, false⟩) fun _ => rfl
  | leftToRightOverride => exact hmap _ (fun level => ⟨level, .ltr, false⟩) fun _ => rfl
  | rightToLeftIsolate => exact hmap _ (fun level => ⟨level, .neutral, true⟩) fun _ => rfl
  | leftToRightIsolate => exact hmap _ (fun level => ⟨level, .neutral, true⟩) fun _ => rfl
  | firstStrongIsolate => exact hmap _ (fun level => ⟨level, .neutral, true⟩) fun _ => rfl
  | _ => rfl

/-- Is there an isolate among the entries? -/
def hasIsolate (stack : List Status) : Prop := ∃ status ∈ stack, status.isolate = true

theorem popToIsolate_eq {stack : List Status} (h : hasIsolate stack) :
    LevelStack.popToIsolate stack = .ok (stack.dropWhile fun status => !status.isolate) := by
  induction stack with
  | nil =>
    obtain ⟨status, hmem, -⟩ := h
    simp at hmem
  | cons status stack ih =>
    unfold LevelStack.popToIsolate
    cases hiso : status.isolate with
    | true => simp [hiso]
    | false =>
      obtain ⟨other, hmem, hother⟩ := h
      have hrest : hasIsolate stack := by
        rcases List.mem_cons.1 hmem with rfl | hmem
        · rw [hiso] at hother
          exact absurd hother Bool.false_ne_true
        · exact ⟨other, hmem, hother⟩
      simpa [hiso] using ih hrest

theorem closed_append {above below : List Status} (h : hasIsolate above) :
    Context.closed (above ++ below) = Context.closed above ++ below := by
  induction above with
  | nil =>
    obtain ⟨status, hmem, -⟩ := h
    simp at hmem
  | cons status above ih =>
    unfold Context.closed at ih ⊢
    cases hiso : status.isolate with
    | true => simp [hiso]
    | false =>
      obtain ⟨other, hmem, hother⟩ := h
      have hrest : hasIsolate above := by
        rcases List.mem_cons.1 hmem with rfl | hmem
        · rw [hiso] at hother
          exact absurd hother Bool.false_ne_true
        · exact ⟨other, hmem, hother⟩
      simpa [hiso] using ih hrest

theorem closed_sublist (stack : List Status) : (Context.closed stack).Sublist stack :=
  (List.tail_sublist _).trans (List.dropWhile_sublist _)

theorem countP_closed (stack : List Status) :
    (Context.closed stack).countP (·.isolate) = stack.countP (·.isolate) - 1 := by
  induction stack with
  | nil => rfl
  | cons status stack ih =>
    unfold Context.closed at ih ⊢
    cases hiso : status.isolate with
    | true => simp [hiso]
    | false => simpa [hiso] using ih

/-- The variables of the code that stand for a context of the rules. -/
def Uax9.Context.code (c : Context) : Explicit :=
  ⟨c.top :: c.below, c.overflowIsolates, c.overflowEmbeddings, c.validIsolates⟩

/-- The entries of the rules. -/
structure Uax9.Context.Wf (c : Context) : Prop where
  levels : ∀ status ∈ c.top :: c.below, 0 ≤ status.level.val
  isolates : c.validIsolates = (c.top :: c.below).countP (·.isolate)
  paragraph : ∃ above bottom, c.top :: c.below = above ++ [bottom] ∧ bottom.isolate = false

theorem start_wf (h : 0 ≤ base.val) : (Context.start base).Wf := by
  refine ⟨fun status hmem => ?_, rfl, [], ⟨base, .neutral, false⟩, rfl, rfl⟩
  rcases List.mem_cons.1 hmem with rfl | hmem
  · exact h
  · simp [Context.start] at hmem

theorem push_wf (h : c.Wf) (hlevel : 0 ≤ status.level.val) : (c.push status).Wf := by
  unfold Context.push
  split
  · obtain ⟨above, bottom, hsplit, hbottom⟩ := h.paragraph
    refine ⟨fun other hmem => ?_, ?_, status :: above, bottom, ?_, hbottom⟩
    · rcases List.mem_cons.1 hmem with rfl | hmem
      · exact hlevel
      · exact h.levels other hmem
    · show c.validIsolates + _ = _
      rw [h.isolates]
      simp only [List.countP_cons]
    · show status :: c.top :: c.below = _
      rw [hsplit]
      rfl
  · split
    · exact ⟨h.levels, h.isolates, h.paragraph⟩
    · split
      · exact ⟨h.levels, h.isolates, h.paragraph⟩
      · exact h

theorem closed_of_wf (h : c.Wf) (hvalid : c.validIsolates ≠ 0) : hasIsolate (c.top :: c.below) ∧
      ∃ above bottom, Context.closed (c.top :: c.below) = above ++ [bottom] ∧
        bottom.isolate = false := by
  have hiso : hasIsolate (c.top :: c.below) := by
    rw [h.isolates, ← Nat.pos_iff_ne_zero, List.countP_pos_iff] at hvalid
    exact hvalid
  obtain ⟨above, bottom, hsplit, hbottom⟩ := h.paragraph
  refine ⟨hiso, Context.closed above, bottom, ?_, hbottom⟩
  rw [hsplit]
  apply closed_append
  obtain ⟨status, hmem, hstatus⟩ := hiso
  rw [hsplit] at hmem
  rcases List.mem_append.1 hmem with hmem | hmem
  · exact ⟨status, hmem, hstatus⟩
  · rw [List.mem_singleton.1 hmem, hbottom] at hstatus
    exact absurd hstatus Bool.false_ne_true

theorem closeIsolate_wf (h : c.Wf) : c.closeIsolate.Wf := by
  unfold Context.closeIsolate
  split
  · exact ⟨h.levels, h.isolates, h.paragraph⟩
  · split
    · exact h
    · rename_i hvalid
      obtain ⟨-, above, bottom, hclosed, hbottom⟩ := closed_of_wf h hvalid
      have hcount := countP_closed (c.top :: c.below)
      have hsub := closed_sublist (c.top :: c.below)
      split
      · rename_i top below heq
        rw [heq] at hcount hsub hclosed
        refine ⟨fun status hmem => h.levels status (hsub.subset hmem), ?_, above, bottom,
          hclosed, hbottom⟩
        show c.validIsolates - 1 = _
        rw [h.isolates, ← hcount]
      · exact h

theorem closeFormat_wf (h : c.Wf) : c.closeFormat.Wf := by
  unfold Context.closeFormat
  split
  · exact h
  · split
    · exact ⟨h.levels, h.isolates, h.paragraph⟩
    · split
      · exact h
      · rename_i hiso
        split
        · rename_i top below heq
          obtain ⟨above, bottom, hsplit, hbottom⟩ := h.paragraph
          have hcount := h.isolates
          rw [List.countP_cons_of_neg hiso] at hcount
          rw [heq] at hsplit hcount
          refine ⟨fun status hmem => h.levels status ?_, hcount, ?_⟩
          · rw [heq]
            exact List.mem_cons_of_mem _ hmem
          · cases above with
            | nil => simp at hsplit
            | cons first above =>
              simp only [List.cons_append, List.cons.injEq] at hsplit
              exact ⟨above, bottom, hsplit.2, hbottom⟩
        · exact h

theorem opened_pos (h : 0 ≤ level.val) (hopened : opened level rest bc = some status) :
    0 ≤ status.level.val := by
  have hnext : ∀ odd, 0 ≤ (nextLevel odd level).val := by
    intro odd
    have hgreater := (nextLevel_least odd level).1
    omega
  cases bc <;> simp only [opened, Option.some.injEq, reduceCtorEq] at hopened <;>
    (subst hopened; exact hnext _)

theorem after_wf (h : c.Wf) (bc : BidiClass) (rest : List BidiClass) : (c.after bc rest).Wf := by
  unfold Context.after
  split
  · rename_i status hopened
    exact push_wf h (opened_pos (h.levels _ List.mem_cons_self) hopened)
  · split
    · exact closeIsolate_wf h
    · exact closeFormat_wf h
    · exact h

/-- The levels that fit. -/
def fitting (level : Level) : Option Level :=
  if level.val ≤ (maxDepth : Int) then some level else none

theorem accepts_code (c : Context) :
    c.code.accepts = true ↔ c.overflowIsolates = 0 ∧ c.overflowEmbeddings = 0 := by
  show (decide (c.overflowIsolates = 0) && decide (c.overflowEmbeddings = 0)) = true ↔ _
  simp

theorem accepts_eq_false (hvalid : ¬ c.Valid status) (hle : status.level.val ≤ (maxDepth : Int)) :
    c.code.accepts = false := by
  rw [← Bool.not_eq_true, accepts_code]
  rintro ⟨hisolates, hembeddings⟩
  exact hvalid ⟨hle, hisolates, hembeddings⟩

theorem embed_code (hiso : status.isolate = false) (hroom : (c.push status).depth ≤ maxDepth) :
    c.code.embed (fitting status.level) status.override = (c.push status).code := by
  obtain ⟨level, override, isolate⟩ := status
  simp only at hiso
  subst hiso
  unfold Context.push at hroom ⊢
  by_cases hvalid : c.Valid ⟨level, override, false⟩
  · obtain ⟨hle, hisolates, hembeddings⟩ := hvalid
    rw [if_pos ⟨hle, hisolates, hembeddings⟩] at hroom ⊢
    simp only [Context.depth, List.length_cons] at hroom
    simp [Explicit.embed, fitting, hle, Explicit.accepts, Context.code, hisolates, hembeddings,
      LevelStack.push, show c.below.length + 1 < maxDepth by omega]
  · have hover : c.code.embed (fitting level) override = c.code.overflow := by
      unfold fitting
      split
      · rename_i hle
        have hnot : c.code.accepts = false := accepts_eq_false hvalid hle
        simp [Explicit.embed, hnot]
      · rfl
    rw [if_neg hvalid]
    simp only [Bool.false_eq_true, if_false]
    rw [hover]
    unfold Explicit.overflow
    by_cases hisolates : c.overflowIsolates = 0
    · simp [Context.code, hisolates]
    · simp [Context.code, hisolates]

theorem isolate_code (hroom : (c.push ⟨level, .neutral, true⟩).depth ≤ maxDepth) :
    c.code.isolate (fitting level) = (c.push ⟨level, .neutral, true⟩).code := by
  unfold Context.push at hroom ⊢
  by_cases hvalid : c.Valid ⟨level, .neutral, true⟩
  · obtain ⟨hle, hisolates, hembeddings⟩ := hvalid
    rw [if_pos ⟨hle, hisolates, hembeddings⟩] at hroom ⊢
    simp only [Context.depth, List.length_cons] at hroom
    simp [Explicit.isolate, fitting, hle, Explicit.accepts, Context.code, hisolates, hembeddings,
      LevelStack.push, show c.below.length + 1 < maxDepth by omega]
  · rw [if_neg hvalid]
    simp only [if_true]
    unfold fitting
    split
    · rename_i hle
      have hnot : c.code.accepts = false := accepts_eq_false hvalid hle
      show (if c.code.accepts then _ else _) = _
      rw [hnot]
      rfl
    · rfl

/-- X6a of the code is that of the rules: the isolate is on the stack, and something below it. -/
theorem closeIsolate_code (h : c.Wf) : c.code.closeIsolate = .ok c.closeIsolate.code := by
  unfold Explicit.closeIsolate Context.closeIsolate
  by_cases hisolates : 0 < c.overflowIsolates
  · simp [Context.code, hisolates]
  · rw [if_neg hisolates, if_neg (show ¬ 0 < c.code.overflowIsolate from hisolates)]
    by_cases hvalid : c.validIsolates = 0
    · simp [Context.code, hvalid]
    · obtain ⟨hiso, above, bottom, hclosed, -⟩ := closed_of_wf h hvalid
      rw [if_neg hvalid, if_neg (show ¬ c.code.validIsolate = 0 from hvalid)]
      rw [show c.code.stack = c.top :: c.below from rfl, popToIsolate_eq hiso]
      split
      · rename_i top below heq
        unfold Context.closed at heq
        simp only [Except.map, heq]
        rfl
      · rename_i heq
        rw [heq] at hclosed
        simp at hclosed

theorem closeFormat_code (c : Context) : c.code.closeFormat = .ok c.closeFormat.code := by
  unfold Explicit.closeFormat Context.closeFormat
  by_cases hisolates : 0 < c.overflowIsolates
  · simp [Context.code, hisolates]
  · by_cases hembeddings : 0 < c.overflowEmbeddings
    · simp [Context.code, hisolates, hembeddings]
    · rw [if_neg hisolates, if_neg hembeddings]
      rw [if_neg (show ¬ 0 < c.code.overflowIsolate from hisolates),
        if_neg (show ¬ 0 < c.code.overflowEmbedding from hembeddings)]
      rw [show c.code.stack = c.top :: c.below from rfl]
      cases hiso : c.top.isolate with
      | true => simp [LevelStack.top, Except.map, hiso]
      | false =>
        cases hbelow : c.below with
        | nil => simp [LevelStack.top, Except.map, hiso]
        | cons top below =>
          simp [LevelStack.top, Except.map, hiso, Context.code]

/-- The code does to a character what the rules say, if the stack has room for what they add. -/
theorem step_code (base : Level) (h : c.Wf) (bc : BidiClass) (rest : List BidiClass)
    (hroom : (c.after bc rest).depth ≤ maxDepth) : ∃ cls, c.code.step base bc rest =
        .ok ((c.after bc rest).code, c.levelOf base (c.after bc rest) bc, cls) ∧
      (bc.isRemoved = true → cls = bc) ∧ (bc.isRemoved = false → cls.isRemoved = false) := by
  have hlevel : 0 ≤ c.top.level.val := h.levels _ List.mem_cons_self
  have htop : LevelStack.top c.code.stack = .ok c.top := rfl
  have hkeep : ∀ override : Override, bc.isRemoved = false →
      (override.apply bc).isRemoved = false := by
    intro override hbc
    cases override with
    | neutral => exact hbc
    | ltr => rfl
    | rtl => rfl
  cases bc with
  | rightToLeftEmbedding =>
    refine ⟨_, ?_, fun _ => rfl, fun hbc => absurd hbc (by simp [BidiClass.isRemoved])⟩
    simp only [Explicit.step, htop, Except.map, leastGreaterOdd_eq hlevel]
    exact congrArg (fun s => Except.ok (s, none, _)) (embed_code rfl hroom)
  | leftToRightEmbedding =>
    refine ⟨_, ?_, fun _ => rfl, fun hbc => absurd hbc (by simp [BidiClass.isRemoved])⟩
    simp only [Explicit.step, htop, Except.map, leastGreaterEven_eq hlevel]
    exact congrArg (fun s => Except.ok (s, none, _)) (embed_code rfl hroom)
  | rightToLeftOverride =>
    refine ⟨_, ?_, fun _ => rfl, fun hbc => absurd hbc (by simp [BidiClass.isRemoved])⟩
    simp only [Explicit.step, htop, Except.map, leastGreaterOdd_eq hlevel]
    exact congrArg (fun s => Except.ok (s, none, _)) (embed_code rfl hroom)
  | leftToRightOverride =>
    refine ⟨_, ?_, fun _ => rfl, fun hbc => absurd hbc (by simp [BidiClass.isRemoved])⟩
    simp only [Explicit.step, htop, Except.map, leastGreaterEven_eq hlevel]
    exact congrArg (fun s => Except.ok (s, none, _)) (embed_code rfl hroom)
  | rightToLeftIsolate =>
    refine ⟨_, ?_, fun hbc => absurd hbc (by simp [BidiClass.isRemoved]), hkeep c.top.override⟩
    simp only [Explicit.step, htop, Except.map, leastGreaterOdd_eq hlevel]
    exact congrArg (fun s => Except.ok (s, some c.top.level, _)) (isolate_code hroom)
  | leftToRightIsolate =>
    refine ⟨_, ?_, fun hbc => absurd hbc (by simp [BidiClass.isRemoved]), hkeep c.top.override⟩
    simp only [Explicit.step, htop, Except.map, leastGreaterEven_eq hlevel]
    exact congrArg (fun s => Except.ok (s, some c.top.level, _)) (isolate_code hroom)
  | firstStrongIsolate =>
    refine ⟨_, ?_, fun hbc => absurd hbc (by simp [BidiClass.isRemoved]), hkeep c.top.override⟩
    simp only [Explicit.step, htop, Except.map, firstStrongLevel_eq rest hlevel]
    exact congrArg (fun s => Except.ok (s, some c.top.level, _)) (isolate_code hroom)
  | popDirectionalIsolate =>
    refine ⟨_, ?_, fun hbc => absurd hbc (by simp [BidiClass.isRemoved]),
      hkeep (c.after .popDirectionalIsolate rest).top.override⟩
    simp only [Explicit.step, closeIsolate_code h]
    rfl
  | popDirectionalFormat =>
    refine ⟨_, ?_, fun _ => rfl, fun hbc => absurd hbc (by simp [BidiClass.isRemoved])⟩
    simp only [Explicit.step, closeFormat_code c]
    rfl
  | boundaryNeutral =>
    exact ⟨_, rfl, fun _ => rfl, fun hbc => absurd hbc (by simp [BidiClass.isRemoved])⟩
  | paragraphSeparator =>
    exact ⟨_, rfl, fun hbc => absurd hbc (by simp [BidiClass.isRemoved]), fun hbc => hbc⟩
  | _ =>
    exact ⟨_, rfl, fun hbc => absurd hbc (by simp [BidiClass.isRemoved]),
      hkeep c.top.override⟩

theorem step_asked (base : Level) {s : Explicit} {below : List Status}
    (hstack : s.stack = top :: below) (haccepts : s.accepts = true)
    (hasked : Explicit.asked top rest bc = some status) :
    ∃ s' out, s.step base bc rest = .ok (s', out) ∧ s'.stack = LevelStack.push s.stack status := by
  have htop : LevelStack.top s.stack = .ok top := by
    rw [hstack]
    rfl
  have hembed : ∀ (level : Level) (override : Override),
      (s.embed (some level) override).stack = s.stack.push ⟨level, override, false⟩ := by
    intro level override
    simp [Explicit.embed, haccepts]
  have hisolate : ∀ level : Level,
      (s.isolate (some level)).stack = s.stack.push ⟨level, .neutral, true⟩ := by
    intro level
    simp [Explicit.isolate, haccepts]
  cases bc <;> simp only [Explicit.asked, Option.map_eq_some_iff, reduceCtorEq] at hasked <;>
    (obtain ⟨level, hlevel, rfl⟩ := hasked
     simp only [Explicit.step, htop, Except.map, hlevel]
     first
       | exact ⟨_, _, rfl, hembed _ _⟩
       | exact ⟨_, _, rfl, hisolate _⟩)

theorem run_code (base : Level) (types : List BidiClass) :
    ∀ {c : Context}, c.Wf → (∀ c' ∈ Context.all c types, c'.depth ≤ maxDepth) →
      ∃ out, c.code.run base types = .ok out ∧ out.map Prod.fst = Context.levels base c types ∧
        List.Forall₂ (fun bc new => bc.isRemoved = false → BidiClass.isRemoved new.2 = false)
          types out := by
  induction types with
  | nil => exact fun _ _ => ⟨[], rfl, rfl, .nil⟩
  | cons bc rest ih =>
    intro c hwf hroom
    have hafter : (c.after bc rest).depth ≤ maxDepth := by
      apply hroom
      apply List.mem_cons_of_mem
      cases rest <;> exact List.mem_cons_self
    obtain ⟨cls, hstep, -, hcls⟩ := step_code base hwf bc rest hafter
    obtain ⟨out, hrun, hlevels, hkept⟩ := ih (after_wf hwf bc rest) fun c' hmem =>
      hroom c' (List.mem_cons_of_mem _ hmem)
    refine ⟨(c.levelOf base (c.after bc rest) bc, cls) :: out, ?_, ?_, .cons hcls hkept⟩
    · unfold Explicit.run
      rw [hstep]
      show (Explicit.run base (c.after bc rest).code rest >>= _) = _
      rw [hrun]
      rfl
    · simp only [List.map_cons, hlevels, Context.levels]

theorem context_of_reaches (hbase : 0 ≤ base.val)
    (hroom : ∀ c ∈ Context.all (.start base) types, c.depth ≤ maxDepth) {s : Explicit}
    (h : Explicit.Reaches base types s rest) : ∃ c : Context, s = c.code ∧ c.Wf ∧
      ∀ c' ∈ Context.all c rest, c' ∈ Context.all (.start base) types := by
  induction h with
  | start => exact ⟨.start base, rfl, start_wf hbase, fun _ hmem => hmem⟩
  | @step s s' bc rest out _ hstep ih =>
    obtain ⟨c, rfl, hwf, hsub⟩ := ih
    have hafter : (c.after bc rest).depth ≤ maxDepth := by
      apply hroom
      apply hsub
      apply List.mem_cons_of_mem
      cases rest <;> exact List.mem_cons_self
    obtain ⟨cls, hcode, -⟩ := step_code base hwf bc rest hafter
    rw [hcode] at hstep
    simp only [Except.ok.injEq, Prod.mk.injEq] at hstep
    exact ⟨c.after bc rest, hstep.1.symm, after_wf hwf bc rest, fun c' hmem =>
      hsub c' (List.mem_cons_of_mem _ hmem)⟩

theorem valid_of_deeper (c : Context) (bc : BidiClass) (rest : List BidiClass)
    (h : c.depth < (c.after bc rest).depth) :
    ∃ status, opened c.top.level rest bc = some status ∧ c.Valid status := by
  have hclose : c.closeIsolate.depth ≤ c.depth := by
    unfold Context.closeIsolate
    split
    · exact Nat.le_refl _
    · split
      · exact Nat.le_refl _
      · split
        · rename_i top below heq
          have hlen := (closed_sublist (c.top :: c.below)).length_le
          rw [heq] at hlen
          exact hlen
        · exact Nat.le_refl _
  have hformat : c.closeFormat.depth ≤ c.depth := by
    unfold Context.closeFormat
    split
    · exact Nat.le_refl _
    · split
      · exact Nat.le_refl _
      · split
        · exact Nat.le_refl _
        · split
          · rename_i top below heq
            simp only [Context.depth, heq, List.length_cons]
            omega
          · exact Nat.le_refl _
  unfold Context.after at h
  split at h
  · rename_i status hopened
    refine ⟨status, hopened, ?_⟩
    by_contra hvalid
    unfold Context.push at h
    rw [if_neg hvalid] at h
    split at h
    · exact absurd h (Nat.lt_irrefl _)
    · split at h
      · exact absurd h (Nat.lt_irrefl _)
      · exact absurd h (Nat.lt_irrefl _)
  · split at h
    · exact absurd h (Nat.not_lt.2 hclose)
    · exact absurd h (Nat.not_lt.2 hformat)
    · exact absurd h (Nat.lt_irrefl _)

theorem depth_of_valid (hopened : opened c.top.level rest bc = some status)
    (hvalid : c.Valid status) : (c.after bc rest).depth = c.depth + 1 := by
  unfold Context.after
  rw [hopened]
  show (c.push status).depth = _
  unfold Context.push
  rw [if_pos hvalid]
  rfl

theorem valid_iff_asked (h : c.Wf) : opened c.top.level rest bc = some status ∧ c.Valid status ↔
      c.code.accepts = true ∧ Explicit.asked c.top rest bc = some status := by
  rw [asked_eq bc (h.levels _ List.mem_cons_self), Option.filter_eq_some_iff]
  rw [accepts_code]
  constructor
  · rintro ⟨hopened, hle, hisolates, hembeddings⟩
    exact ⟨⟨hisolates, hembeddings⟩, hopened, decide_eq_true hle⟩
  · rintro ⟨⟨hisolates, hembeddings⟩, hopened, hle⟩
    exact ⟨hopened, of_decide_eq_true hle, hisolates, hembeddings⟩

theorem dropped_of_deep (rest : List BidiClass) :
    ∀ {c : Context}, c.Wf → c.depth ≤ maxDepth → Explicit.Reaches base types c.code rest →
      (∃ c' ∈ Context.all c rest, maxDepth < c'.depth) →
      ∃ (s s' : Explicit) (bc : BidiClass) (rest : List BidiClass) (top status : Status)
        (below : List Status) (out : Option Level × BidiClass),
        Explicit.Reaches base types s (bc :: rest) ∧ s.accepts = true ∧ s.stack = top :: below ∧
          Explicit.asked top rest bc = some status ∧ s.step base bc rest = .ok (s', out) ∧
          s'.stack = s.stack := by
  induction rest with
  | nil =>
    rintro c - hdepth - ⟨c', hmem, hdeep⟩
    rw [List.mem_singleton.1 hmem] at hdeep
    exact absurd hdepth (Nat.not_le.2 hdeep)
  | cons bc rest ih =>
    rintro c hwf hdepth hreach ⟨c', hmem, hdeep⟩
    rcases List.mem_cons.1 hmem with rfl | hmem
    · exact absurd hdepth (Nat.not_le.2 hdeep)
    · by_cases hafter : (c.after bc rest).depth ≤ maxDepth
      · obtain ⟨cls, hstep, -⟩ := step_code base hwf bc rest hafter
        exact ih (after_wf hwf bc rest) hafter (hreach.step hstep) ⟨c', hmem, hdeep⟩
      · obtain ⟨status, hopened, hvalid⟩ := valid_of_deeper c bc rest (by omega)
        obtain ⟨haccepts, hasked⟩ := (valid_iff_asked hwf).1 ⟨hopened, hvalid⟩
        obtain ⟨s', out, hstep, hstack⟩ :=
          step_asked base (show c.code.stack = _ from rfl) haccepts hasked
        refine ⟨c.code, s', bc, rest, c.top, status, c.below, out, hreach, haccepts, rfl,
          hasked, hstep, ?_⟩
        -- the rules have one entry more than there is room for
        have hfull : ¬ c.code.stack.length < maxDepth := by
          rw [depth_of_valid hopened hvalid] at hafter
          exact fun hroom => hafter hroom
        rw [hstack]
        exact if_neg hfull

theorem paragraphLevelFrom_nonneg (respectPdi : Bool) (fallback : Direction)
    (types : List BidiClass) : ∀ isolates : Nat,
      0 ≤ (paragraphLevelFrom respectPdi fallback isolates types).val := by
  have hfallback : 0 ≤ (if fallback = .leftToRight then (⟨0⟩ : Level) else ⟨1⟩).val := by
    split <;> decide
  induction types with
  | nil => exact fun _ => hfallback
  | cons bc types ih =>
    intro isolates
    cases bc <;> simp only [paragraphLevelFrom] <;>
      first
        | exact ih _
        | (split
           · first
               | exact ih _
               | decide
           · first
               | exact ih _
               | (split
                  · exact hfallback
                  · exact ih _))

theorem baseLevel_nonneg (types : List BidiClass) (hint : ParagraphDirectionHint) :
    0 ≤ (baseLevel types hint).val := by
  cases hint with
  | leftToRight =>
    show (0 : Int) ≤ 0
    omega
  | rightToLeft =>
    show (0 : Int) ≤ 1
    omega
  | autoLeftToRight => exact paragraphLevelFrom_nonneg false .leftToRight types 0
  | autoRightToLeft => exact paragraphLevelFrom_nonneg false .rightToLeft types 0

theorem kept_level {out : List (Option Level × BidiClass)} {prior : List Level} {i : Nat}
    (hkept : List.Forall₂ (fun bc new => bc.isRemoved = false → BidiClass.isRemoved new.2 = false)
      types out) (hprior : prior.length = types.length) (hi : types[i]? = some bc)
    (hbc : bc.isRemoved = false) (hsome : ∀ new, out[i]? = some new → new.1.isSome) :
    (deleteFormatCharacters (out.map Prod.snd)
        (List.zipWith (fun old new => new.1.getD old) prior out))[i]?.map some =
      (out.map Prod.fst)[i]? := by
  have hlen := hkept.length_eq
  have hlt : i < types.length := by
    rw [List.getElem?_eq_some_iff] at hi
    exact hi.1
  have hout : out[i]? = some (out.get ⟨i, by omega⟩) := by simp [hlen ▸ hlt]
  have hold : prior[i]? = some (prior.get ⟨i, by omega⟩) := by simp [hprior, hlt]
  have hclass : (out.get ⟨i, by omega⟩).2.isRemoved = false := by
    have hat := (List.forall₂_iff_get.1 hkept).2 i hlt (by omega)
    apply hat
    rw [List.getElem?_eq_some_iff] at hi
    obtain ⟨_, rfl⟩ := hi
    exact hbc
  obtain ⟨level, hlevel⟩ := Option.isSome_iff_exists.1 (hsome _ hout)
  simp only [deleteFormatCharacters, List.getElem?_zipWith, List.getElem?_map, hout, hold,
    Option.map_some, hclass, hlevel]
  simp

theorem levels_isSome :
    ∀ {c : Context} {i : Nat} {bc : BidiClass}, types[i]? = some bc → bc.isRemoved = false →
      ∀ level, (Context.levels base c types)[i]? = some level → level.isSome := by
  induction types with
  | nil => intro c i bc hi; simp at hi
  | cons first types ih =>
    intro c i bc hi hbc level hlevel
    unfold Context.levels at hlevel
    cases i with
    | zero =>
      simp only [List.getElem?_cons_zero, Option.some.injEq] at hi hlevel
      subst hi hlevel
      cases first <;> first | rfl | simp [BidiClass.isRemoved] at hbc
    | succ i =>
      simp only [List.getElem?_cons_succ] at hi hlevel
      exact ih hi hbc level hlevel

end Wakterm.Bidi
