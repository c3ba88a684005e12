import Mathlib.Algebra.Ring.Parity
import Mathlib.Tactic.IntervalCases
import Wakterm.Machine.Loop
import Wakterm.Mux.ClaudeQuestionKeys

/-!
# What the keys of a plan enter

`plan` takes answers as the dialog does: `enlist_spec` says which, and where they end up.
-/

namespace Wakterm.Mux

open Wakterm.Machine

section Toggles

variable {α : Type} [DecidableEq α]

/-- The set after the keys. -/
def toggles (s : Finset α) (keys : List α) : Finset α :=
  keys.foldl (fun s a => symmDiff s {a}) s

@[simp] theorem toggles_nil (s : Finset α) : toggles s [] = s := rfl

@[simp] theorem toggles_cons (s : Finset α) (a : α) (keys : List α) :
    toggles s (a :: keys) = toggles (symmDiff s {a}) keys := rfl

theorem mem_toggles {s : Finset α} {keys : List α} {a : α} :
    a ∈ toggles s keys ↔ (a ∈ s ↔ Even (keys.count a)) := by
  induction keys generalizing s with
  | nil => simp
  | cons b keys ih =>
    rw [toggles_cons, ih, Finset.mem_symmDiff, Finset.mem_singleton]
    by_cases h : a = b
    · subst h
      rw [List.count_cons_self, Nat.even_add_one]
      tauto
    · rw [List.count_cons_of_ne (Ne.symm h)]
      tauto

theorem mem_toggles_empty {keys : List α} {a : α} : a ∈ toggles ∅ keys ↔ Odd (keys.count a) := by
  rw [mem_toggles, ← Nat.not_even_iff_odd]
  simp

end Toggles

/-- The options of an answer are there, and it is of the kind that its question takes. -/
structure Accepted (question : AgentApprovalQuestion) (answer : AgentApprovalAnswer) : Prop where
  known : ∀ choice ∈ answer.choices, ∃ option ∈ question.options, option.id = choice
  several : question.multiSelect → answer.trimmed = none
  one : ¬ question.multiSelect →
    answer.choices.length + (if answer.trimmed.isSome then 1 else 0) = 1

/-! ## The answers by their questions -/

variable {byQuestion byQuestion' : List (Option AgentApprovalAnswer)} {answer : AgentApprovalAnswer}
  {answers : List AgentApprovalAnswer} {keys : List Step}

theorem enlist_eq_ok {questions : List AgentApprovalQuestion}
    (h : enlist questions byQuestion answer = .ok byQuestion') :
    (∃ question, questions[answer.question]? = some question ∧ Accepted question answer) ∧
      (byQuestion[answer.question]?).getD none = none ∧
      byQuestion' = byQuestion.set answer.question (some answer) := by
  unfold enlist at h
  dsimp only at h
  cases hquestion : questions[answer.question]? with
  | none =>
    rw [hquestion] at h
    cases h
  | some question =>
    rw [hquestion] at h
    dsimp only at h
    split at h
    · cases h
    · next hnew =>
      split at h
      · cases h
      · next hfind =>
        have hknown : ∀ choice ∈ answer.choices, ∃ option ∈ question.options,
            option.id = choice := by
          intro choice hchoice
          have hany := List.find?_eq_none.mp hfind choice hchoice
          simpa using hany
        have hboth : Accepted question answer ∧
            byQuestion' = byQuestion.set answer.question (some answer) := by
          by_cases hmulti : question.multiSelect = true
          · rw [if_pos hmulti] at h
            split at h
            · cases h
            · next htext =>
              split at h
              · cases h
              · exact ⟨⟨hknown, fun _ => Option.not_isSome_iff_eq_none.mp htext,
                  fun hsingle => absurd hmulti hsingle⟩, (Except.ok.inj h).symm⟩
          · rw [if_neg hmulti] at h
            by_cases hone : answer.choices.length +
                (if answer.trimmed.isSome then 1 else 0) = 1
            · rw [if_neg (not_not.mpr hone)] at h
              exact ⟨⟨hknown, fun hmulti' => absurd hmulti' hmulti, fun _ => hone⟩,
                (Except.ok.inj h).symm⟩
            · rw [if_pos hone] at h
              cases h
        exact ⟨⟨question, rfl, hboth.1⟩, Option.not_isSome_iff_eq_none.mp hnew, hboth.2⟩

/-- Every answer that was put in is at the place of its question, and taken by it. -/
structure Enlisted (questions : List AgentApprovalQuestion) (answers : List AgentApprovalAnswer)
    (byQuestion : List (Option AgentApprovalAnswer)) : Prop where
  length : byQuestion.length = questions.length
  placed : ∀ index < questions.length,
    byQuestion[index]? = some (answers.find? (·.question = index))
  accepted : ∀ answer ∈ answers,
    ∃ question, questions[answer.question]? = some question ∧ Accepted question answer
  once : ∀ answer ∈ answers, answers.find? (·.question = answer.question) = some answer

theorem Enlisted.enlist {questions : List AgentApprovalQuestion}
    (hbefore : Enlisted questions answers byQuestion)
    (h : enlist questions byQuestion answer = .ok byQuestion') :
    Enlisted questions (answers ++ [answer]) byQuestion' := by
  obtain ⟨haccepted, hnew, rfl⟩ := enlist_eq_ok h
  have ⟨question, hquestion, _⟩ := haccepted
  have hlt : answer.question < questions.length := (List.getElem?_eq_some_iff.mp hquestion).1
  have hnone : answers.find? (·.question = answer.question) = none := by
    rwa [hbefore.placed _ hlt] at hnew
  refine ⟨by rw [List.length_set, hbefore.length], fun index hindex => ?_, fun a ha => ?_,
    fun a ha => ?_⟩
  · rw [List.getElem?_set, List.find?_append]
    by_cases heq : answer.question = index
    · subst heq
      rw [if_pos rfl, if_pos (hbefore.length ▸ hlt), hnone]
      simp
    · rw [if_neg heq, hbefore.placed index hindex]
      simp [heq]
  · rcases List.mem_append.mp ha with ha | ha
    · exact hbefore.accepted a ha
    · rw [List.mem_singleton.mp ha]
      exact haccepted
  · rw [List.find?_append]
    rcases List.mem_append.mp ha with ha | ha
    · rw [hbefore.once a ha, Option.some_or]
    · rw [List.mem_singleton.mp ha, hnone]
      simp

theorem enlisted_of_foldlM {questions : List AgentApprovalQuestion}
    {done : List AgentApprovalAnswer} (hbefore : Enlisted questions done byQuestion)
    (h : answers.foldlM (enlist questions) byQuestion = .ok byQuestion') :
    Enlisted questions (done ++ answers) byQuestion' := by
  induction answers generalizing done byQuestion with
  | nil =>
    rw [List.append_nil]
    exact Except.ok.inj h ▸ hbefore
  | cons answer answers ih =>
    rw [List.foldlM_cons] at h
    obtain ⟨byQuestion1, h1, hrest⟩ := bind_eq_ok.mp h
    have hall := ih (hbefore.enlist h1) hrest
    rwa [List.append_assoc] at hall

theorem enlisted_nil (questions : List AgentApprovalQuestion) :
    Enlisted questions [] (questions.map fun _ => none) where
  length := by rw [List.length_map]
  placed index hindex := by
    rw [List.getElem?_map, List.getElem?_eq_getElem hindex]
    rfl
  accepted answer h := absurd h List.not_mem_nil
  once answer h := absurd h List.not_mem_nil

/-! ## The plan -/

theorem plan_eq_ok {questions : List AgentApprovalQuestion} {steps : List Step}
    (h : plan questions (.submit answers) = .ok steps) :
    ∃ byQuestion keys, Enlisted questions answers byQuestion ∧
      (reviewed questions ∨ ∃ answer, byQuestion.head? = some (some answer)) ∧
      formKeys 0 (questions.zip byQuestion) = .ok keys ∧ questions ≠ [] ∧
      steps = .awaitQuestion 0 :: keys ++
        if reviewed questions then [.awaitReview, .key .enter] else [] := by
  unfold plan at h
  cases questions with
  | nil => cases h
  | cons first others =>
    dsimp only at h
    obtain ⟨byQuestion, hfold, h⟩ := bind_eq_ok.mp h
    split at h
    · cases h
    · next hneeded =>
      obtain ⟨keys, hkeys, h⟩ := bind_eq_ok.mp h
      refine ⟨byQuestion, keys, ?_, ?_, hkeys, List.cons_ne_nil _ _, (Except.ok.inj h).symm⟩
      · have := enlisted_of_foldlM (enlisted_nil _) hfold
        rwa [List.nil_append] at this
      · rw [not_and_or, not_not] at hneeded
        refine hneeded.imp_right fun hsome => ?_
        cases hhead : byQuestion.head? with
        | none => simp [hhead] at hsome
        | some answer =>
          rw [hhead] at hsome
          obtain ⟨a, ha⟩ := Option.ne_none_iff_exists'.mp
            (fun hnone => hsome (Option.isNone_iff_eq_none.mpr hnone))
          exact ⟨a, congrArg some ha⟩

/-! ## One question -/

/-- What the keys for an answer leave recorded. -/
def recordedFor (question : AgentApprovalQuestion) : Option AgentApprovalAnswer → Recorded
  | none => .nothing
  | some answer =>
    match answer.trimmed with
    | some text => ⟨∅, some text⟩
    | none => ⟨toggles ∅ (answer.choices.map fun choice => (question.position choice).getD 0), none⟩

theorem isDigit_digitChar {n : Nat} (h : n < 10) :
    (Nat.digitChar n).isDigit = true ∧ (Nat.digitChar n).toNat - '0'.toNat = n := by
  interval_cases n <;> exact ⟨rfl, rfl⟩

variable {questions : List AgentApprovalQuestion} {index : Nat} {question : AgentApprovalQuestion}
  {d : Dialog}

theorem press_digit (hplace : d.place = .question index none)
    (hquestion : questions[index]? = some question) {position : Nat} {key : KeyCode}
    (hkey : digit position = .ok key) :
    d.press questions key = d.choose questions index question position := by
  unfold digit at hkey
  split at hkey
  · next hlt =>
    obtain rfl := (Except.ok.inj hkey).symm
    obtain ⟨hdigit, hnumber⟩ := isDigit_digitChar hlt
    unfold Dialog.press
    rw [hplace]
    dsimp only
    rw [if_pos hdigit, hquestion, hnumber]
    rfl
  · cases hkey

theorem AgentApprovalQuestion.position_lt {choice : String}
    (h : ∃ option ∈ question.options, option.id = choice) :
    ∃ p, question.position choice = some p ∧ p < question.options.length := by
  obtain ⟨option, hoption, hid⟩ := h
  unfold AgentApprovalQuestion.position
  cases hp : question.options.findIdx? (·.id = choice) with
  | none =>
    rw [List.findIdx?_eq_none_iff] at hp
    exact absurd hid (by simpa using hp option hoption)
  | some p => exact ⟨p, rfl, (List.findIdx?_eq_some_iff_getElem.mp hp).1⟩

theorem run_choiceKeys (hplace : d.place = .question index none)
    (hquestion : questions[index]? = some question) (hmulti : question.multiSelect)
    {choices : List String}
    (hknown : ∀ choice ∈ choices, ∃ option ∈ question.options, option.id = choice)
    (hkeys : choiceKeys question choices = .ok keys) :
    d.run questions keys = some (d.record index { d.recorded index with
      picked := toggles (d.recorded index).picked
        (choices.map fun choice => (question.position choice).getD 0) }) := by
  induction choices generalizing d keys with
  | nil =>
    obtain rfl := (Except.ok.inj hkeys).symm
    show some d = _
    unfold Dialog.record
    rw [List.map_nil, toggles_nil, Function.update_eq_self]
  | cons choice choices ih =>
    unfold choiceKeys at hkeys ih
    rw [List.mapM_cons] at hkeys
    obtain ⟨step, hstep, hkeys⟩ := bind_eq_ok.mp hkeys
    obtain ⟨key, hkey, hstep⟩ := bind_eq_ok.mp hstep
    obtain ⟨rest, hrest, hkeys⟩ := bind_eq_ok.mp hkeys
    cases hstep
    cases hkeys
    obtain ⟨p, hp, hlt⟩ := question.position_lt (hknown choice List.mem_cons_self)
    rw [hp, Option.getD_some] at hkey
    have hpress : d.press questions key = some (d.record index { d.recorded index with
        picked := symmDiff (d.recorded index).picked {p} }) := by
      rw [press_digit hplace hquestion hkey]
      unfold Dialog.choose
      rw [if_neg (Nat.succ_ne_zero _), if_pos (Nat.succ_le_of_lt hlt), if_pos hmulti]
      rfl
    rw [Dialog.run_cons]
    show (d.press questions key).bind _ = _
    rw [hpress]
    show Dialog.run questions _ rest = _
    rw [ih (d := d.record index _) hplace (fun c hc => hknown c (List.mem_cons_of_mem _ hc)) hrest]
    unfold Dialog.record
    simp only [Function.update_self, Function.update_idem, List.map_cons, toggles_cons, hp,
      Option.getD_some]

theorem run_questionKeys (hplace : d.place = .question index none)
    (hquestion : questions[index]? = some question) (hnothing : d.recorded index = .nothing)
    {answer : Option AgentApprovalAnswer} (haccepted : ∀ a ∈ answer, Accepted question a)
    (htab : answer = none ∨ question.multiSelect → reviewed questions)
    (hkeys : questionKeys question answer = .ok keys) : d.run questions keys =
      some ((d.record index (recordedFor question answer)).moveOn questions index) := by
  have hpressTab {d : Dialog} (hplace : d.place = .question index none)
      (hreviewed : reviewed questions) :
      d.run questions [.key .tab] = some (d.moveOn questions index) := by
    show (d.press questions .tab).bind some = _
    unfold Dialog.press
    rw [hplace]
    dsimp only
    rw [if_pos hreviewed]
    rfl
  cases answer with
  | none =>
    cases hkeys
    have hsame : d.record index (recordedFor question none) = d := by
      show { d with recorded := Function.update d.recorded index .nothing } = d
      rw [← hnothing, Function.update_eq_self]
    rw [hsame]
    exact hpressTab hplace (htab (Or.inl rfl))
  | some answer =>
    have htaken := haccepted answer rfl
    unfold questionKeys at hkeys
    unfold recordedFor
    dsimp only at hkeys ⊢
    cases htext : answer.trimmed with
    | some text =>
      rw [htext] at hkeys
      obtain ⟨key, hkey, hkeys⟩ := bind_eq_ok.mp hkeys
      cases hkeys
      -- the digit after the options focuses the box, and Enter records what is pasted into it
      have hfocus : d.press questions key =
          some { d with place := .question index (some "") } := by
        rw [press_digit hplace hquestion hkey]
        unfold Dialog.choose
        rw [if_neg (Nat.succ_ne_zero _), if_neg (by omega), if_pos rfl]
      rw [Dialog.run_cons]
      show (d.press questions key).bind _ = _
      rw [hfocus]
      show Dialog.run questions _ [.paste text, .awaitText text, .key .enter] = _
      rw [Dialog.run_cons]
      show Dialog.run questions { d with place := .question index (some ("" ++ text)) }
        [.awaitText text, .key .enter] = _
      rw [String.empty_append, Dialog.run_cons]
      show (if text = text then some _ else none).bind _ = _
      rw [if_pos rfl]
      rfl
    | none =>
      rw [htext] at hkeys
      obtain ⟨choiceSteps, hchoices, hkeys⟩ := bind_eq_ok.mp hkeys
      cases hkeys
      by_cases hmulti : question.multiSelect = true
      · rw [if_pos hmulti, Dialog.run_append,
          run_choiceKeys hplace hquestion hmulti htaken.known hchoices, hnothing]
        exact hpressTab hplace (htab (Or.inr hmulti))
      · -- one choice only, with which the dialog moves on
        have hone := htaken.one hmulti
        rw [htext] at hone
        obtain ⟨choice, hchoice⟩ := List.length_eq_one_iff.mp hone
        have hknown := htaken.known
        rw [hchoice] at hchoices hknown ⊢
        obtain ⟨p, hp, hlt⟩ := question.position_lt (hknown choice List.mem_cons_self)
        unfold choiceKeys at hchoices
        rw [List.mapM_cons] at hchoices
        obtain ⟨step, hstep, hchoices⟩ := bind_eq_ok.mp hchoices
        obtain ⟨key, hkey, hstep⟩ := bind_eq_ok.mp hstep
        cases hstep
        cases hchoices
        rw [hp, Option.getD_some] at hkey
        rw [if_neg hmulti]
        show (d.press questions key).bind some = _
        rw [press_digit hplace hquestion hkey]
        unfold Dialog.choose
        rw [if_neg (Nat.succ_ne_zero _), if_pos (Nat.succ_le_of_lt hlt), if_neg hmulti,
          List.map_singleton, hp, Option.getD_some, toggles_cons, toggles_nil]
        rfl

/-! ## The whole form -/

/-- What is left to enter, from the question at `index` on. -/
structure Remaining (questions : List AgentApprovalQuestion) (index : Nat)
    (rest : List (AgentApprovalQuestion × Option AgentApprovalAnswer)) : Prop where
  length : index + rest.length = questions.length
  asked : ∀ k question answer, rest[k]? = some (question, answer) →
    questions[index + k]? = some question
  accepted : ∀ question answer, (question, some answer) ∈ rest → Accepted question answer
  tabbed : ∀ question answer, (question, answer) ∈ rest →
    answer = none ∨ question.multiSelect → reviewed questions

theorem Remaining.tail {first : AgentApprovalQuestion × Option AgentApprovalAnswer}
    {rest : List (AgentApprovalQuestion × Option AgentApprovalAnswer)}
    (h : Remaining questions index (first :: rest)) : Remaining questions (index + 1) rest where
  length := by
    have := h.length
    rw [List.length_cons] at this
    omega
  asked k question answer hk := by
    have := h.asked (k + 1) question answer hk
    rwa [show index + 1 + k = index + (k + 1) by omega]
  accepted question answer hmem := h.accepted question answer (List.mem_cons_of_mem _ hmem)
  tabbed question answer hmem := h.tabbed question answer (List.mem_cons_of_mem _ hmem)

/-- The dialog has been through the whole form, from the question at `index` on. -/
structure FilledIn (questions : List AgentApprovalQuestion) (index : Nat)
    (rest : List (AgentApprovalQuestion × Option AgentApprovalAnswer)) (d d' : Dialog) : Prop where
  place : d'.place = if reviewed questions then .review else .closed
  submissions : d'.submissions = d.submissions + if reviewed questions then 0 else 1
  before : ∀ k < index, d'.recorded k = d.recorded k
  recorded : ∀ k question answer, rest[k]? = some (question, answer) →
    d'.recorded (index + k) = recordedFor question answer

/-- The induction is on the questions that are left: the keys for the first one lead to the next, or
to the end. -/
theorem run_formKeys {rest : List (AgentApprovalQuestion × Option AgentApprovalAnswer)}
    (hrest : Remaining questions index rest) (hne : rest ≠ [])
    (hplace : d.place = .question index none) (hnothing : ∀ k, index ≤ k → d.recorded k = .nothing)
    (hkeys : formKeys index rest = .ok keys) :
    ∃ d', d.run questions keys = some d' ∧ FilledIn questions index rest d d' := by
  induction rest generalizing index d keys with
  | nil => exact absurd rfl hne
  | cons first rest ih =>
    obtain ⟨question, answer⟩ := first
    obtain ⟨first, hfirst, hkeys⟩ := bind_eq_ok.mp hkeys
    obtain ⟨later, hlater, hkeys⟩ := bind_eq_ok.mp hkeys
    cases hkeys
    have hquestion := hrest.asked 0 question answer rfl
    have hone : d.run questions first =
        some ((d.record index (recordedFor question answer)).moveOn questions index) :=
      run_questionKeys hplace hquestion (hnothing index (Nat.le_refl index))
        (fun a ha => hrest.accepted question a (ha ▸ List.mem_cons_self))
        (hrest.tabbed question answer List.mem_cons_self) hfirst
    have hlength := hrest.length
    rw [List.length_cons] at hlength
    rw [Dialog.run_append, Dialog.run_append, hone, Option.bind_some]
    generalize hd1 : d.record index (recordedFor question answer) = d1
    have hrecorded : d1.recorded = Function.update d.recorded index (recordedFor question answer) :=
      hd1 ▸ rfl
    have hsubmissions : d1.submissions = d.submissions := hd1 ▸ rfl
    cases rest with
    | nil =>
      cases hlater
      have hlast : ¬ index + 1 < questions.length := by
        rw [List.length_nil] at hlength
        omega
      refine ⟨d1.moveOn questions index, rfl, ?_⟩
      have hmoved : d1.moveOn questions index = if reviewed questions then
          { d1 with place := .review } else
          { d1 with place := .closed, submissions := d1.submissions + 1 } := if_neg hlast
      have hkept : (d1.moveOn questions index).recorded = d1.recorded := by
        rw [hmoved]
        split <;> rfl
      refine ⟨?_, ?_, fun k hk => ?_, fun k q a hk => ?_⟩
      · rw [hmoved]
        split <;> rfl
      · rw [hmoved, ← hsubmissions]
        split <;> rfl
      · rw [hkept, hrecorded, Function.update_of_ne (Nat.ne_of_lt hk)]
      · cases k with
        | zero =>
          cases hk
          rw [hkept, hrecorded, Nat.add_zero, Function.update_self]
        | succ k => cases hk
    | cons second rest =>
      have hnext : index + 1 < questions.length := by
        rw [List.length_cons] at hlength
        omega
      have hmoved : d1.moveOn questions index = { d1 with place := .question (index + 1) none } :=
        if_pos hnext
      rw [hmoved]
      have hwait : Dialog.run questions { d1 with place := .question (index + 1) none }
          [.awaitQuestion (index + 1)] = some { d1 with place := .question (index + 1) none } := by
        rw [Dialog.run_cons]
        exact congrArg (Option.bind · _) (if_pos rfl)
      obtain ⟨d', hrun, hfilled⟩ := ih hrest.tail (List.cons_ne_nil _ _)
        (d := { d1 with place := .question (index + 1) none }) rfl (fun k hk => by
          show d1.recorded k = .nothing
          rw [hrecorded, Function.update_of_ne (by omega), hnothing k (by omega)]) hlater
      refine ⟨d', ?_, hfilled.place, ?_, fun k hk => ?_, fun k q a hk => ?_⟩
      · rw [if_neg (List.cons_ne_nil _ _), hwait, Option.bind_some, hrun]
      · rw [hfilled.submissions]
        exact congrArg (· + _) hsubmissions
      · rw [hfilled.before k (by omega)]
        show d1.recorded k = d.recorded k
        rw [hrecorded, Function.update_of_ne (Nat.ne_of_lt hk)]
      · cases k with
        | zero =>
          cases hk
          rw [hfilled.before _ (by omega)]
          show d1.recorded (index + 0) = _
          rw [hrecorded, Nat.add_zero, Function.update_self]
        | succ k =>
          have := hfilled.recorded k q a hk
          rwa [show index + 1 + k = index + (k + 1) by omega] at this

end Wakterm.Mux
