import Wakterm.Mux.Logic.ApprovalErasure
import Wakterm.Mux.Logic.QuestionKeys
import Wakterm.Mux.QuestionReview

/-!
# The check before a form is submitted

`checkReview` reads the review of what the dialog recorded.
-/

namespace Wakterm.Theorems.QuestionReview

open Wakterm.Mux

/-- What is recorded has the intended choices, and no others, for every question that is answered by
choices. -/
def Agrees (answers : List AgentApprovalAnswer) (shown : List Shown) : Prop :=
  ∀ answer ∈ answers, answer.trimmed = none → ∃ s ∈ shown, s.question = answer.question ∧
    ∃ options, s.reply = .picked options ∧ ∀ id, id ∈ options.map (·.id) ↔ id ∈ answer.choices

/-- There are more or fewer answers than intended, or the text of an intended choice, or the start of
an intended text, is not in the text of the recorded answer that has its place, with the text of the
next question after it. -/
def ToldApart (questions : List AgentApprovalQuestion) (answers : List AgentApprovalAnswer)
    (shown : List Shown) : Prop :=
  shown.length ≠ answers.length ∨
    ∃ entry ∈ (answers.insertionSort (·.question ≤ ·.question)).zip (shownTexts shown),
      ∃ question, questions[entry.1.question]? = some question ∧
        ∃ expected ∈ expectedTexts question entry.1, ¬ expected <:+: entry.2

/-- **A review is taken only for what was intended, exactly if what is recorded agrees with it or can
be told apart from it by the texts.** -/
theorem review_sound_iff {questions : List AgentApprovalQuestion}
    {answers : List AgentApprovalAnswer} {steps : List Step} {r : Review}
    (h : plan questions (.submit answers) = .ok steps) (hdocumented : r.Documented questions) :
    (checkReview r.lines questions answers = .ok () → Agrees answers r.shown) ↔
      Agrees answers r.shown ∨ ToldApart questions answers r.shown := by
  obtain ⟨byQuestion, -, henlisted, -⟩ := plan_eq_ok h
  have hasked : ∀ answer ∈ answers, ∃ question, questions[answer.question]? = some question :=
    fun answer hanswer => (henlisted.accepted answer hanswer).imp fun _ hquestion => hquestion.1
  have htold : ToldApart questions answers r.shown ↔
      ¬ checkReview r.lines questions answers = .ok () := by
    rw [checkReview_eq_ok_iff hdocumented hasked, not_and_or]
    unfold ToldApart Listed
    push Not
    rfl
  rw [htold]
  exact imp_iff_not_or.trans or_comm

/-! ## A form with one question -/

/-- A question of which several options can be picked. -/
def tools : AgentApprovalQuestion where
  index := 0
  header := none
  question := "Which tools?"
  multiSelect := true
  options := [⟨"option_1", "Alpha", none⟩, ⟨"option_2", "Beta", none⟩]

/-- The review of a form with that question. -/
def reviewOf (options : List AgentApprovalChoice) : Review where
  before := []
  title := "Review your answers".toList
  between := []
  shown := [⟨0, ["Which tools?".toList], "  ".toList, .picked options⟩]
  blankLines := 1
  prompt := "Ready to submit your answers?".toList
  after := ["1. Submit answers".toList]

theorem documented_reviewOf {options : List AgentApprovalChoice}
    (hfits : (Reply.picked options).Fits tools)
    (hplain : ∀ s ∈ (reviewOf options).shown, Review.Plain s.replyLine) :
    (reviewOf options).Documented [tools] where
  title := rfl
  titlePrompt := rfl
  titleWarning := rfl
  titleArrow := by
    show Review.NoArrow "Review your answers".toList
    decide
  between line hline := absurd hline List.not_mem_nil
  warned := ⟨fun h => absurd h.choose_spec.1 List.not_mem_nil, fun h => absurd h (Nat.lt_irrefl 1)⟩
  order := List.pairwise_singleton _ _
  asked s hs := by
    rw [List.mem_singleton.mp hs]
    refine ⟨tools, rfl, ?_, hfits⟩
    show normalize tools.question.toList <:+: normalize ([' '].intercalate ["Which tools?".toList])
    decide
  headings s hs line hline := by
    rw [List.mem_singleton.mp hs] at hline
    rw [List.mem_singleton.mp hline]
    exact ⟨⟨rfl, rfl, rfl⟩, by decide⟩
  indents s hs c hc := by
    rw [List.mem_singleton.mp hs] at hc
    rcases List.mem_pair.mp hc with rfl | rfl
    · rfl
    · rfl
  replies := hplain
  prompt := rfl
  promptTitle := rfl
  after line hline := by
    rw [List.mem_singleton.mp hline]
    rfl

/-- Another choice than the intended one does not pass. -/
theorem review_sound_alpha : checkReview (reviewOf [⟨"option_1", "Alpha", none⟩]).lines [tools]
        [⟨0, ["option_2"], none⟩] ≠ .ok () ∧
      ¬ Agrees [⟨0, ["option_2"], none⟩] (reviewOf [⟨"option_1", "Alpha", none⟩]).shown := by
  have hdiffers :
      ¬ Agrees [⟨0, ["option_2"], none⟩] (reviewOf [⟨"option_1", "Alpha", none⟩]).shown := by
    intro hagrees
    obtain ⟨s, hs, -, options, hpicked, hids⟩ := hagrees _ (List.mem_singleton.mpr rfl) rfl
    rw [List.mem_singleton.mp hs] at hpicked
    obtain rfl := Reply.picked.inj hpicked
    exact absurd ((hids "option_2").mpr (by decide)) (by decide)
  have hsound :
      checkReview (reviewOf [⟨"option_1", "Alpha", none⟩]).lines [tools]
          [⟨0, ["option_2"], none⟩] = .ok () →
        Agrees [⟨0, ["option_2"], none⟩] (reviewOf [⟨"option_1", "Alpha", none⟩]).shown := by
    refine (review_sound_iff rfl (documented_reviewOf
      ⟨by decide, by decide, by decide, by decide⟩ fun s hs => ?_)).mpr
      (Or.inr (Or.inr ⟨_, List.mem_singleton.mpr rfl, tools, rfl, "Beta".toList, by decide,
        by decide⟩))
    rw [List.mem_singleton.mp hs]
    exact ⟨rfl, rfl, rfl⟩
  exact ⟨fun hok => hdiffers (hsound hok), hdiffers⟩

/-- An option that is picked besides the intended one goes unnoticed. -/
theorem additional_choice_taken : plan [tools] (.submit [⟨0, ["option_1"], none⟩]) =
      .ok [.awaitQuestion 0, .key (.char '1'), .key .tab, .awaitReview, .key .enter] ∧
    (reviewOf tools.options).Documented [tools] ∧
    checkReview (reviewOf tools.options).lines [tools] [⟨0, ["option_1"], none⟩] = .ok () ∧
    ¬ Agrees [⟨0, ["option_1"], none⟩] (reviewOf tools.options).shown := by
  refine ⟨rfl, documented_reviewOf ⟨by decide, by decide, by decide, by decide⟩ fun s hs => ?_,
    rfl, fun hagrees => ?_⟩
  · rw [List.mem_singleton.mp hs]
    exact ⟨rfl, rfl, rfl⟩
  · obtain ⟨s, hs, -, options, hpicked, hids⟩ := hagrees _ (List.mem_singleton.mpr rfl) rfl
    rw [List.mem_singleton.mp hs] at hpicked
    obtain rfl := Reply.picked.inj hpicked
    exact absurd ((hids "option_2").mp (by decide)) (by decide)

end Wakterm.Theorems.QuestionReview

/-!
## Answers that are entered into a form

For every submission that `plan` takes, the keys lead the dialog from its first question through
each of the others to one submission.
-/

namespace Wakterm.Theorems.QuestionKeys

open Wakterm.Machine Wakterm.Mux

/-- What is recorded for a question is its answer: the typed text, or the options that were chosen,
and nothing if there is none. -/
def Entered (question : AgentApprovalQuestion) : Option AgentApprovalAnswer → Recorded → Prop
  | none, r => r = .nothing
  | some answer, r =>
    r.text = answer.trimmed ∧
      ∀ p, p ∈ r.picked ↔
        ∃ option, question.options[p]? = some option ∧ option.id ∈ answer.choices

/-- The keys lead to one submission, of just what was answered. -/
def EnteredExactly (questions : List AgentApprovalQuestion) (answers : List AgentApprovalAnswer)
    (steps : List Step) : Prop :=
  ∃ d, Dialog.opened.run questions steps = some d ∧ d.place = .closed ∧ d.submissions = 1 ∧
    ∀ index question, questions[index]? = some question →
      Entered question (answers.find? (·.question = index)) (d.recorded index)

/-! ### The options of an answer -/

variable {question : AgentApprovalQuestion} {answer : AgentApprovalAnswer}

variable {option : AgentApprovalChoice}

theorem position_id (hids : (question.options.map (·.id)).Nodup) {p : Nat}
    (h : question.options[p]? = some option) : question.position option.id = some p := by
  obtain ⟨hlt, hoption⟩ := List.getElem?_eq_some_iff.mp h
  refine List.findIdx?_eq_some_iff_getElem.mpr ⟨hlt, by simp [hoption], fun q hq => ?_⟩
  have hne : question.options[q].id ≠ question.options[p].id := by
    intro heq
    have hq' : q < (question.options.map (·.id)).length := by simpa using hq.trans hlt
    have hp' : p < (question.options.map (·.id)).length := by simpa using hlt
    have hsame : (question.options.map (·.id))[q] = (question.options.map (·.id))[p] := by
      simpa using heq
    exact absurd (hids.getElem_inj_iff.mp hsame) (Nat.ne_of_lt hq)
  rw [hoption] at hne
  simpa using hne

theorem count_positions (hids : (question.options.map (·.id)).Nodup) {choices : List String}
    (hknown : ∀ choice ∈ choices, ∃ option ∈ question.options, option.id = choice) {p : Nat}
    (h : question.options[p]? = some option) :
    (choices.map fun choice => (question.position choice).getD 0).count p =
      choices.count option.id := by
  induction choices with
  | nil => rfl
  | cons choice choices ih =>
    have hrest := ih fun c hc => hknown c (List.mem_cons_of_mem _ hc)
    obtain ⟨other, hmem, hid⟩ := hknown choice List.mem_cons_self
    obtain ⟨q, hq⟩ := List.getElem?_of_mem hmem
    have hposition : question.position choice = some q := hid ▸ position_id hids hq
    rw [List.map_cons, hposition, Option.getD_some, List.count_cons, List.count_cons, hrest]
    by_cases heq : q = p
    · subst heq
      have : option.id = choice := by
        rw [← hid, Option.some.inj (h.symm.trans hq)]
      simp [this]
    · have : option.id ≠ choice := by
        intro hsame
        have hboth := position_id hids h
        rw [hsame, hposition] at hboth
        exact heq (Option.some.inj hboth)
      simp [heq, Ne.symm this]

theorem entered_iff (hids : (question.options.map (·.id)).Nodup) (h : Accepted question answer) :
    Entered question (some answer) (recordedFor question (some answer)) ↔
      (question.multiSelect → ∀ choice ∈ answer.choices, Odd (answer.choices.count choice)) := by
  unfold recordedFor Entered
  dsimp only
  cases htext : answer.trimmed with
  | some text =>
    have hsingle : ¬ question.multiSelect := fun hmulti => by
      rw [h.several hmulti] at htext
      cases htext
    have hnone : answer.choices = [] := by
      have := h.one hsingle
      rw [htext] at this
      exact List.length_eq_zero_iff.mp (Nat.succ.inj this)
    simp [hnone, hsingle]
  | none =>
    have hpicked : (∀ p, p ∈ toggles ∅ (answer.choices.map fun choice =>
          (question.position choice).getD 0) ↔
        ∃ option, question.options[p]? = some option ∧ option.id ∈ answer.choices) ↔
        ∀ choice ∈ answer.choices, Odd (answer.choices.count choice) := by
      constructor
      · intro hall choice hchoice
        obtain ⟨option, hmem, rfl⟩ := h.known choice hchoice
        obtain ⟨p, hp⟩ := List.getElem?_of_mem hmem
        rw [← count_positions hids h.known hp, ← mem_toggles_empty]
        exact (hall p).mpr ⟨option, hp, hchoice⟩
      · intro hodd p
        rw [mem_toggles_empty]
        constructor
        · intro hcount
          have hpos : 0 < (answer.choices.map fun choice =>
              (question.position choice).getD 0).count p := hcount.pos
          obtain ⟨choice, hchoice, rfl⟩ := List.mem_map.mp (List.count_pos_iff.mp hpos)
          obtain ⟨option, hmem, rfl⟩ := h.known choice hchoice
          obtain ⟨q, hq⟩ := List.getElem?_of_mem hmem
          rw [position_id hids hq, Option.getD_some]
          exact ⟨option, hq, hchoice⟩
        · rintro ⟨option, hp, hchoice⟩
          rw [count_positions hids h.known hp]
          exact hodd option.id hchoice
    have hsingle : ¬ question.multiSelect →
        ∀ choice ∈ answer.choices, Odd (answer.choices.count choice) := by
      intro hsingle choice hchoice
      have hone := h.one hsingle
      rw [htext] at hone
      obtain ⟨only, honly⟩ := List.length_eq_one_iff.mp hone
      rw [honly] at hchoice ⊢
      rw [List.mem_singleton.mp hchoice, List.count_singleton_self]
      exact odd_one
    rw [hpicked]
    constructor
    · exact fun hall _ => hall.2
    · intro hmulti
      by_cases hm : question.multiSelect = true
      · exact ⟨rfl, hmulti hm⟩
      · exact ⟨rfl, hsingle hm⟩

/-! ### The plan -/

variable {questions : List AgentApprovalQuestion} {answers : List AgentApprovalAnswer}

theorem remaining_of_enlisted {byQuestion : List (Option AgentApprovalAnswer)}
    (h : Enlisted questions answers byQuestion)
    (hneeded : reviewed questions ∨ ∃ answer, byQuestion.head? = some (some answer)) :
    Remaining questions 0 (questions.zip byQuestion) where
  length := by rw [List.length_zip, h.length]; omega
  asked k question answer hk := by
    rw [Nat.zero_add]
    exact (List.getElem?_zip_eq_some.mp hk).1
  accepted question answer hmem := by
    obtain ⟨k, hk⟩ := List.getElem?_of_mem hmem
    obtain ⟨hquestion, hanswer⟩ := List.getElem?_zip_eq_some.mp hk
    rw [h.placed k (List.getElem?_eq_some_iff.mp hquestion).1] at hanswer
    have hfind := Option.some.inj hanswer
    obtain ⟨other, hother, haccepted⟩ := h.accepted answer (List.mem_of_find?_eq_some hfind)
    have hindex : answer.question = k := by simpa using List.find?_some hfind
    rw [hindex, hquestion] at hother
    cases hother
    exact haccepted
  tabbed question answer hmem htab := by
    rcases hneeded with hreviewed | ⟨first, hfirst⟩
    · exact hreviewed
    · by_contra hnot
      unfold reviewed at hnot
      rw [Bool.or_eq_true, not_or, decide_eq_true_eq] at hnot
      obtain ⟨hone, hsingle⟩ := hnot
      obtain ⟨k, hk⟩ := List.getElem?_of_mem hmem
      obtain ⟨hquestion, hanswer⟩ := List.getElem?_zip_eq_some.mp hk
      obtain rfl : k = 0 := by
        have := (List.getElem?_eq_some_iff.mp hquestion).1
        omega
      rw [← List.head?_eq_getElem?] at hquestion hanswer
      rw [hquestion] at hsingle
      rw [hfirst] at hanswer
      rcases htab with rfl | hmulti
      · cases hanswer
      · exact hsingle hmulti

theorem run_plan {steps : List Step} (h : plan questions (.submit answers) = .ok steps) :
    ∃ d, Dialog.opened.run questions steps = some d ∧ d.place = .closed ∧ d.submissions = 1 ∧
      ∀ index question, questions[index]? = some question →
        d.recorded index = recordedFor question (answers.find? (·.question = index)) := by
  obtain ⟨byQuestion, keys, henlisted, hneeded, hkeys, hne, rfl⟩ := plan_eq_ok h
  have hremaining := remaining_of_enlisted henlisted hneeded
  have hzip : questions.zip byQuestion ≠ [] := by
    rw [← List.length_pos_iff_ne_nil, ← Nat.zero_add (List.length _), hremaining.length]
    exact List.length_pos_iff_ne_nil.mpr hne
  obtain ⟨d, hrun, hfilled⟩ := run_formKeys (d := .opened) hremaining hzip rfl
    (fun _ _ => rfl) hkeys
  have hrecorded : ∀ index question, questions[index]? = some question →
      d.recorded index = recordedFor question (answers.find? (·.question = index)) := by
    intro index question hquestion
    have hplaced := henlisted.placed index (List.getElem?_eq_some_iff.mp hquestion).1
    have := hfilled.recorded index question _ (List.getElem?_zip_eq_some.mpr ⟨hquestion, hplaced⟩)
    rwa [Nat.zero_add] at this
  have hopened : Dialog.opened.run questions (.awaitQuestion 0 :: keys) = some d := by
    rw [Dialog.run_cons]
    show (if DialogPlace.question 0 none = .question 0 none then some Dialog.opened else none).bind _ = _
    rw [if_pos rfl, Option.bind_some, hrun]
  rw [Dialog.run_append, hopened, Option.bind_some]
  have hplace := hfilled.place
  have hsubmissions := hfilled.submissions
  by_cases hreviewed : reviewed questions = true
  · rw [if_pos hreviewed] at hplace hsubmissions ⊢
    refine ⟨{ d with place := .closed, submissions := d.submissions + 1 }, ?_, rfl,
      congrArg (· + 1) hsubmissions, hrecorded⟩
    rw [Dialog.run_cons]
    show (if d.place = .review then some d else none).bind _ = _
    rw [if_pos hplace, Option.bind_some, Dialog.run_cons]
    show (d.press questions .enter).bind some = _
    unfold Dialog.press
    rw [hplace]
    rfl
  · rw [if_neg hreviewed] at hplace hsubmissions ⊢
    exact ⟨d, rfl, hplace, hsubmissions, hrecorded⟩

/-- **The keys of a plan enter just what was answered exactly if no option of a multi-select question
is given an even number of times.** -/
theorem entered_exactly_iff {steps : List Step}
    (hids : ∀ question ∈ questions, (question.options.map (·.id)).Nodup)
    (h : plan questions (.submit answers) = .ok steps) : EnteredExactly questions answers steps ↔
      ∀ answer ∈ answers, ∀ question, questions[answer.question]? = some question →
        question.multiSelect → ∀ choice ∈ answer.choices, Odd (answer.choices.count choice) := by
  obtain ⟨d, hrun, hplace, hsubmissions, hrecorded⟩ := run_plan h
  obtain ⟨byQuestion, -, henlisted, -⟩ := plan_eq_ok h
  constructor
  · rintro ⟨d', hrun', -, -, hentered⟩ answer hanswer question hquestion
    obtain rfl : d = d' := Option.some.inj (hrun.symm.trans hrun')
    have hhere := hentered answer.question question hquestion
    rw [hrecorded _ _ hquestion, henlisted.once answer hanswer] at hhere
    obtain ⟨other, hother, haccepted⟩ := henlisted.accepted answer hanswer
    cases hother.symm.trans hquestion
    exact (entered_iff (hids _ (List.mem_of_getElem? hquestion)) haccepted).mp hhere
  · intro hodd
    refine ⟨d, hrun, hplace, hsubmissions, fun index question hquestion => ?_⟩
    rw [hrecorded _ _ hquestion]
    cases hfind : answers.find? (·.question = index) with
    | none => rfl
    | some answer =>
      have hanswer := List.mem_of_find?_eq_some hfind
      obtain rfl : answer.question = index := by simpa using List.find?_some hfind
      obtain ⟨other, hother, haccepted⟩ := henlisted.accepted answer hanswer
      cases hother.symm.trans hquestion
      exact (entered_iff (hids _ (List.mem_of_getElem? hquestion)) haccepted).mpr
        (hodd answer hanswer _ hquestion)

/-! ### A form -/

/-- A question with the options `option_1` and so on. -/
def browser (multiSelect : Bool) : AgentApprovalQuestion where
  index := 0
  header := none
  question := "Which browser?"
  multiSelect := multiSelect
  options := [⟨"option_1", "Alpha", none⟩, ⟨"option_2", "Beta", none⟩]

/-- Answers in another order than the questions. -/
def chosen : List AgentApprovalAnswer :=
  [⟨1, [], some " ten "⟩, ⟨0, ["option_2", "option_1"], none⟩]

theorem entered_exactly_form : EnteredExactly [browser true, browser false] chosen
      [.awaitQuestion 0, .key (.char '2'), .key (.char '1'), .key .tab, .awaitQuestion 1,
        .key (.char '3'), .paste "ten", .awaitText "ten", .key .enter, .awaitReview,
        .key .enter] := by
  refine (entered_exactly_iff (fun question hquestion => ?_) rfl).mpr
    fun answer hanswer question hquestion hmulti => ?_
  · rcases List.mem_pair.mp hquestion with rfl | rfl
    · decide
    · decide
  · rcases List.mem_pair.mp hanswer with rfl | rfl
    · intro choice hchoice
      exact absurd hchoice List.not_mem_nil
    · intro choice hchoice
      rcases List.mem_pair.mp hchoice with rfl | rfl
      · exact odd_one
      · exact odd_one

/-- An option that is given twice is not picked. -/
theorem choice_given_twice : plan [browser true] (.submit [⟨0, ["option_1", "option_1"], none⟩]) =
      .ok [.awaitQuestion 0, .key (.char '1'), .key (.char '1'), .key .tab, .awaitReview,
        .key .enter] ∧ ¬ EnteredExactly [browser true] [⟨0, ["option_1", "option_1"], none⟩]
      [.awaitQuestion 0, .key (.char '1'), .key (.char '1'), .key .tab, .awaitReview,
        .key .enter] := by
  refine ⟨rfl, ?_⟩
  rintro ⟨d, hrun, -, -, hentered⟩
  cases hrun
  have hpicked := (hentered 0 (browser true) rfl).2 0
  have hgiven := hpicked.mpr ⟨_, rfl, by decide⟩
  exact absurd hgiven (by decide)

end Wakterm.Theorems.QuestionKeys

/-!
## Approvals are answered at most once

A resolution that fails puts its approval back over whatever has been captured with the same id
since it was taken.
-/

namespace Wakterm.Mux.Theorems.Approvals

open Wakterm.Agent Wakterm.Machine Wakterm.Mux.Approvals

/-- **Approvals are answered at most once**, with one of the responses offered and for the agent as
it is; and a resolution that fails leaves what the others would have left without it. -/
theorem approvals_answered_once (sha256 : List UInt8 → String) {agents : List AgentMetadata}
    {es : List Event} {s : Approvals} (h : Runs (step sha256) Meets (start agents) es s) :
    s.Sound sha256 ∧ ∀ i err, s.calls[i]? = some (.failed err) →
      ∃ t, runSteps (step sha256) (start agents) (without i es) = some t ∧
        t.pending = s.pending ∧ t.accepted = s.accepted ∧
        ∀ j, j ≠ i → t.calls[j]? = s.calls[j]? := by
  have hinv : s.Inv sha256 := h.steps.invariant (Inv sha256) (start_inv agents)
    fun _ _ _ hs hmeets hstep => step_inv hs hmeets hstep
  have htouched : s.TouchedHold := h.steps.invariant TouchedHold
    (fun i hi => absurd hi List.not_mem_nil)
    fun _ _ _ hs hmeets hstep => step_touchedHold hs hmeets hstep
  refine ⟨hinv.sound, fun i err hcall => ?_⟩
  obtain ⟨hundisturbed, hrestored⟩ := failed_undisturbed htouched hcall
  obtain ⟨t, hrun, herased⟩ := erased_run h hundisturbed
  exact ⟨t, hrun, herased.pending.trans hrestored, herased.accepted, herased.others⟩

/-- An agent with a session of the app server. -/
def agent : AgentMetadata := ⟨"agent", "name", none, none, some ⟨"thread", "session"⟩⟩

/-- A message that asks to run a command. -/
def message (command : String) : Json :=
  .obj [("method", .str "item/commandExecution/requestApproval"), ("id", .int 1),
    ("params", .obj [("threadId", .str "thread"), ("turnId", .str "turn"), ("itemId", .str "item"),
      ("command", .str command)])]

/-- The digests of the id and of the incarnation. -/
def digest (bytes : List UInt8) : String :=
  if bytes = "thread\x00turn\x00item\x001".toUTF8.toList then
    "35b8e9cd985f3e30e5bd024aa3e58299553a6c55bfc42357a483ff6d6f95625b"
  else "a90847fa031222bba9947b8bf5b21f10b9c3cb7bf2d68e3371ac24857c27cb7a"

def resolution (agentId : String) : AgentApprovalResolutionRequest :=
  ⟨"35b8e9cd985f3e30e5bd024a", agentId,
    "a90847fa031222bba9947b8bf5b21f10b9c3cb7bf2d68e3371ac24857c27cb7a", "allow_once", []⟩

/-- The approval is taken for another agent, captured anew, and put back. -/
def superseded : List Event :=
  [.capture (message "ls") 0, .advance 0 true, .advance 0 true, .resolve (resolution "other"),
    .advance 1 true, .capture (message "ls -l") 1, .advance 2 true, .advance 2 true,
    .advance 1 true]

theorem run_superseded : (runSteps (step digest) (start [agent]) superseded).map (fun s =>
      ((s.pending "35b8e9cd985f3e30e5bd024a").map fun held =>
          (held.serial, held.approval.request.requestId), s.captures.map (·.request.requestId))) =
    some (some (0, "35b8e9cd985f3e30e5bd024a"),
      ["35b8e9cd985f3e30e5bd024a", "35b8e9cd985f3e30e5bd024a"]) := by
  decide +kernel

/-- The first approval is pending again, and the second is gone. -/
theorem superseded_put_back :
    ∃ s, Runs (step digest) (fun _ _ => True) (start [agent]) superseded s ∧ ¬ s.Sound digest := by
  obtain ⟨s, hrun, hs⟩ := Option.map_eq_some_iff.1 run_superseded
  rw [Prod.mk.injEq] at hs
  obtain ⟨hpending, hcaptures⟩ := hs
  obtain ⟨held, hheld, hid⟩ := Option.map_eq_some_iff.1 hpending
  rw [Prod.mk.injEq] at hid
  have hlater : (s.captures.map (·.request.requestId))[1]? = some "35b8e9cd985f3e30e5bd024a" := by
    rw [hcaptures]
    rfl
  rw [List.getElem?_map] at hlater
  obtain ⟨approval, hat, hsame⟩ := Option.map_eq_some_iff.1 hlater
  refine ⟨s, Runs.of_run hrun fun _ _ => trivial, fun h => ?_⟩
  have hnewest := h.newest _ held hheld
  exact hnewest 1 approval (by omega) hat (hsame.trans hid.2.symm)

/-- `Meets`, computed. -/
def meets (s : Approvals) : Event → Bool
  | .advance i ok =>
    match s.calls[i]? with
    | some (.respond resolution _ current _) =>
      !ok || s.agents.find? (·.agentId = resolution.agentId) = some current
    | some (.putBack _ _ _) => i ∉ s.touched
    | _ => true
  | _ => true

theorem meets_iff (s : Approvals) (e : Event) : meets s e = true ↔ s.Meets e := by
  cases e with
  | capture message now => exact iff_of_true rfl trivial
  | resolve resolution => exact iff_of_true rfl trivial
  | agents agents => exact iff_of_true rfl trivial
  | advance i ok =>
    unfold meets Meets
    dsimp only
    generalize s.calls[i]? = call
    cases call with
    | none => simp
    | some call =>
      cases call with
      | respond resolution held current response =>
        cases ok with
        | false => simp
        | true =>
          constructor
          · rintro h call ⟨⟩
            refine ⟨?_, ?_⟩
            · rintro _ _ _ _ ⟨⟩ -
              simpa using h
            · rintro _ _ _ ⟨⟩
          · intro h
            have hcurrent := (h _ rfl).1 resolution held current response rfl rfl
            simpa using hcurrent
      | putBack resolution held err => simp
      | _ => simp

instance (s : Approvals) (e : Event) : Decidable (s.Meets e) := decidable_of_iff _ (meets_iff s e)

/-- The approval is taken for another agent, which fails, and then for its own. -/
def answered : List Event :=
  [.capture (message "ls") 0, .advance 0 true, .advance 0 true, .resolve (resolution "other"),
    .advance 1 true, .advance 1 true, .resolve (resolution "agent"), .advance 2 true,
    .advance 2 true, .advance 2 true]

theorem run_answered : (runSteps (fun s e => if s.Meets e then step digest s e else none)
      (start [agent]) answered).map (fun s => (s.accepted.length,
        match s.calls[1]? with
        | some (.failed .identityChanged) => true
        | _ => false)) = some (1, true) := by
  decide +kernel

/-- What was put back is answered, once; without the call that failed it would be too. -/
theorem approvals_answered_once_answered :
    ∃ s, Runs (step digest) Meets (start [agent]) answered s ∧ s.Sound digest ∧
      s.accepted.length = 1 ∧ s.calls[1]? = some (.failed .identityChanged) ∧
      ∃ t, runSteps (step digest) (start [agent]) (without 1 answered) = some t ∧
        t.pending = s.pending ∧ t.accepted = s.accepted ∧
        ∀ j, j ≠ 1 → t.calls[j]? = s.calls[j]? := by
  obtain ⟨s, hrun, hs⟩ := Option.map_eq_some_iff.1 run_answered
  rw [Prod.mk.injEq] at hs
  obtain ⟨haccepted, hcall⟩ := hs
  have hfailed : s.calls[1]? = some (.failed .identityChanged) := by
    split at hcall
    · next h => exact h
    · cases hcall
  have hruns := Runs.of_checked hrun
  obtain ⟨hsound, hwithout⟩ := approvals_answered_once digest hruns
  exact ⟨s, hruns, hsound, haccepted, hfailed, hwithout 1 _ hfailed⟩

end Wakterm.Mux.Theorems.Approvals
