import Wakterm.Machine.Loop
import Wakterm.Mux.ClaudeQuestionKeys

/-!
# The review of a question form

What the module documentation of `claude_question_keys.rs` says of the review: under its title every
answered question stands with its text, and the answer in a line with an arrow; a warning says that
there are questions without an answer, and a prompt asks for the submission.
-/

namespace Wakterm.Mux

open Wakterm.Agent (isWhitespace)

/-- What is recorded for an answered question: the options that are picked, or a text. -/
inductive Reply where
  | picked (options : List AgentApprovalChoice)
  | typed (text : String)

/-- What the review shows of it. -/
def Reply.text : Reply → ScreenLine
  | picked options => ", ".toList.intercalate (options.map (·.label.toList))
  | typed text => text.toList

/-- The options that are picked are of the question, and as many as it takes. -/
def Reply.Fits (question : AgentApprovalQuestion) : Reply → Prop
  | picked options => options ≠ [] ∧ options.Nodup ∧ (∀ option ∈ options, option ∈ question.options) ∧
      (¬ question.multiSelect → options.length = 1)
  | typed _ => True

/-- An answered question as the review shows it. -/
structure Shown where
  question : Nat
  heading : List ScreenLine
  indent : ScreenLine
  reply : Reply

def Shown.replyLine (s : Shown) : ScreenLine := s.indent ++ answerArrow :: ' ' :: s.reply.text

def Shown.lines (s : Shown) : List ScreenLine := s.heading ++ [s.replyLine]

structure Review where
  before : List ScreenLine
  title : ScreenLine
  between : List ScreenLine
  shown : List Shown
  blankLines : Nat
  prompt : ScreenLine
  after : List ScreenLine

namespace Review

/-- The lines of the review from the title up to the prompt. -/
def body (r : Review) : List ScreenLine :=
  r.title :: r.between ++ r.shown.flatMap Shown.lines ++ List.replicate r.blankLines []

def lines (r : Review) : List ScreenLine := r.before ++ (r.body ++ r.prompt :: r.after)

/-- A line without the title, the prompt and the warning. -/
structure Plain (line : ScreenLine) : Prop where
  title : contains line reviewTitle = false
  prompt : contains line reviewPrompt = false
  warning : contains line unansweredWarning = false

/-- A line that does not begin with the arrow. -/
def NoArrow (line : ScreenLine) : Prop :=
  (line.dropWhile isWhitespace).head? ≠ some answerArrow

instance (line : ScreenLine) : Decidable (NoArrow line) := inferInstanceAs (Decidable (_ ≠ _))

/-- The screen shows the review of a form with these questions. -/
structure Documented (questions : List AgentApprovalQuestion) (r : Review) : Prop where
  title : contains r.title reviewTitle = true
  titlePrompt : contains r.title reviewPrompt = false
  titleWarning : contains r.title unansweredWarning = false
  titleArrow : NoArrow r.title
  between : ∀ line ∈ r.between,
    contains line reviewTitle = false ∧ contains line reviewPrompt = false ∧ NoArrow line
  warned : (∃ line ∈ r.between, contains line unansweredWarning = true) ↔
    r.shown.length < questions.length
  order : r.shown.Pairwise (·.question < ·.question)
  asked : ∀ s ∈ r.shown, ∃ question, questions[s.question]? = some question ∧
    normalize question.question.toList <:+: normalize ([' '].intercalate s.heading) ∧
    s.reply.Fits question
  headings : ∀ s ∈ r.shown, ∀ line ∈ s.heading, Plain line ∧ NoArrow line
  indents : ∀ s ∈ r.shown, ∀ c ∈ s.indent, isWhitespace c = true
  replies : ∀ s ∈ r.shown, Plain s.replyLine
  prompt : contains r.prompt reviewPrompt = true
  promptTitle : contains r.prompt reviewTitle = false
  after : ∀ line ∈ r.after, contains line reviewTitle = false

end Review

/-! ## What stands for an answer -/

/-- A text with the lines that continue it. -/
def continued (text : ScreenLine) (lines : List ScreenLine) : ScreenLine :=
  lines.foldl (fun text line =>
    if line.dropWhile isWhitespace = [] then text
    else text ++ ' ' :: normalize (line.dropWhile isWhitespace)) text

/-- A text, and what stands after it: the answers that follow are told by their arrows, but the text
of the next question continues the answer before it. -/
def textsFrom (text : ScreenLine) : List Shown → List ScreenLine
  | [] => [text]
  | s :: shown => continued text s.heading :: textsFrom (normalize s.reply.text) shown

/-- What stands for each of the answers. -/
def shownTexts : List Shown → List ScreenLine
  | [] => []
  | s :: shown => textsFrom (normalize s.reply.text) shown

/-- The texts for an answer are all there. -/
def Listed (questions : List AgentApprovalQuestion) (entry : AgentApprovalAnswer × ScreenLine) :
    Prop :=
  ∀ question, questions[entry.1.question]? = some question →
    ∀ expected ∈ expectedTexts question entry.1, expected <:+: entry.2

/-! ## The lines -/

variable {line : ScreenLine} {lines : List ScreenLine} {questions : List AgentApprovalQuestion}

theorem fromLast_append {p : ScreenLine → Bool} (hp : p line = true) (h : ∀ l ∈ lines, p l = false)
    (before : List ScreenLine) : fromLast p (before ++ line :: lines) = some (line :: lines) := by
  have hnone : fromLast p lines = none := by
    induction lines with
    | nil => rfl
    | cons l lines ih =>
      rw [fromLast, ih fun l hl => h l (List.mem_cons_of_mem _ hl)]
      dsimp only
      rw [h l List.mem_cons_self]
      rfl
  induction before with
  | nil =>
    rw [List.nil_append, fromLast, hnone]
    dsimp only
    rw [hp]
    rfl
  | cons l before ih => rw [List.cons_append, fromLast, ih]

theorem upToFirst_append {p : ScreenLine → Bool} (hp : p line = true) (h : ∀ l ∈ lines, p l = false)
    (after : List ScreenLine) : upToFirst p (lines ++ line :: after) = some lines := by
  unfold upToFirst
  rw [if_pos (by simp [hp]), List.takeWhile_append_of_pos (by simpa using h),
    List.takeWhile_cons_of_neg (by simp [hp]), List.append_nil]

theorem showLine_noArrow (h : Review.NoArrow line) (front : List ScreenLine) (last : ScreenLine) :
    showLine (front ++ [last]) line = front ++ [continued last [line]] := by
  unfold showLine continued
  dsimp only
  rw [if_neg h, List.getLast?_concat, List.dropLast_concat, List.foldl_cons, List.foldl_nil]
  dsimp only
  split
  · rfl
  · rfl

theorem showLine_nil (h : Review.NoArrow line) : showLine [] line = [] := by
  unfold showLine
  dsimp only
  rw [if_neg h]
  rfl

theorem foldl_showLine_nil (h : ∀ line ∈ lines, Review.NoArrow line) :
    lines.foldl showLine [] = [] := by
  induction lines with
  | nil => rfl
  | cons line lines ih =>
    rw [List.foldl_cons, showLine_nil (h line List.mem_cons_self)]
    exact ih fun line hline => h line (List.mem_cons_of_mem _ hline)

theorem foldl_showLine_noArrow (h : ∀ line ∈ lines, Review.NoArrow line) (front : List ScreenLine)
    (last : ScreenLine) :
    lines.foldl showLine (front ++ [last]) = front ++ [continued last lines] := by
  induction lines generalizing last with
  | nil => rfl
  | cons line lines ih =>
    rw [List.foldl_cons, showLine_noArrow (h line List.mem_cons_self),
      ih fun line hline => h line (List.mem_cons_of_mem _ hline)]
    rfl

theorem normalize_blank (text : ScreenLine) : normalize (' ' :: text) = normalize text := by
  unfold normalize
  rw [List.splitOnP_cons_eq_if_modifyHead, if_pos (by decide)]
  rfl

theorem showLine_replyLine {s : Shown} (h : ∀ c ∈ s.indent, isWhitespace c = true)
    (shown : List ScreenLine) : showLine shown s.replyLine = shown ++ [normalize s.reply.text] := by
  have htrimmed : s.replyLine.dropWhile isWhitespace = answerArrow :: ' ' :: s.reply.text := by
    unfold Shown.replyLine
    rw [List.dropWhile_append_of_pos h]
    exact List.dropWhile_cons_of_neg (by decide)
  unfold showLine
  dsimp only
  rw [htrimmed, List.head?_cons, if_pos rfl, List.tail_cons, normalize_blank]

/-- The induction is on the answers that follow the one that is being read. -/
theorem foldl_showLine_shown {shown : List Shown}
    (hheadings : ∀ s ∈ shown, ∀ line ∈ s.heading, Review.NoArrow line)
    (hindents : ∀ s ∈ shown, ∀ c ∈ s.indent, isWhitespace c = true) (front : List ScreenLine)
    (last : ScreenLine) :
    (shown.flatMap Shown.lines).foldl showLine (front ++ [last]) = front ++ textsFrom last shown := by
  induction shown generalizing front last with
  | nil => rfl
  | cons s shown ih =>
    rw [List.flatMap_cons, List.foldl_append]
    unfold Shown.lines
    rw [List.foldl_append, foldl_showLine_noArrow (hheadings s List.mem_cons_self),
      List.foldl_cons, List.foldl_nil, showLine_replyLine (hindents s List.mem_cons_self)]
    have hrest := ih (fun s hs => hheadings s (List.mem_cons_of_mem _ hs))
      (fun s hs => hindents s (List.mem_cons_of_mem _ hs))
      (front ++ [continued last s.heading]) (normalize s.reply.text)
    unfold Shown.lines at hrest
    rw [hrest, textsFrom, List.append_assoc]
    rfl

theorem foldl_showLine_blank (shown : List ScreenLine) (n : Nat) :
    (List.replicate n []).foldl showLine shown = shown := by
  have hblank : showLine shown [] = shown := by
    unfold showLine
    dsimp only
    rw [if_neg (by decide)]
    cases shown.getLast? with
    | none => rfl
    | some last => rfl
  induction n with
  | zero => rfl
  | succ n ih => rw [List.replicate_succ, List.foldl_cons, hblank, ih]

theorem length_textsFrom (text : ScreenLine) (shown : List Shown) :
    (textsFrom text shown).length = shown.length + 1 := by
  induction shown generalizing text with
  | nil => rfl
  | cons s shown ih => rw [textsFrom, List.length_cons, ih, List.length_cons]

theorem length_shownTexts (shown : List Shown) : (shownTexts shown).length = shown.length := by
  cases shown with
  | nil => rfl
  | cons s shown => rw [shownTexts, length_textsFrom, List.length_cons]

namespace Review

variable {questions : List AgentApprovalQuestion} {r : Review}

theorem Documented.foldl_body (h : r.Documented questions) :
    r.body.foldl showLine [] = shownTexts r.shown := by
  have htop : (r.title :: r.between).foldl showLine [] = [] := by
    refine foldl_showLine_nil fun line hline => ?_
    rcases List.mem_cons.mp hline with rfl | hline
    · exact h.titleArrow
    · exact (h.between line hline).2.2
  have hheadings := fun s hs line hline => (h.headings s hs line hline).2
  unfold body
  rw [List.foldl_append, foldl_showLine_blank, List.foldl_append, htop]
  cases hshown : r.shown with
  | nil => rfl
  | cons s shown =>
    rw [hshown] at hheadings
    have hindents := hshown ▸ h.indents
    rw [List.flatMap_cons, List.foldl_append]
    unfold Shown.lines
    rw [List.foldl_append, foldl_showLine_nil (hheadings s List.mem_cons_self),
      List.foldl_cons, List.foldl_nil, showLine_replyLine (hindents s List.mem_cons_self)]
    exact foldl_showLine_shown (fun s hs => hheadings s (List.mem_cons_of_mem _ hs))
      (fun s hs => hindents s (List.mem_cons_of_mem _ hs)) [] _

theorem mem_body {line : ScreenLine} : line ∈ r.body ↔ line = r.title ∨ line ∈ r.between ∨
    (∃ s ∈ r.shown, line ∈ s.heading ∨ line = s.replyLine) ∨ r.blankLines ≠ 0 ∧ line = [] := by
  unfold body Shown.lines
  simp only [List.cons_append, List.mem_cons, List.mem_append, List.mem_flatMap, List.mem_replicate,
    List.not_mem_nil, or_false, or_assoc]

theorem Documented.not_prompt (h : r.Documented questions) :
    ∀ line ∈ r.body, contains line reviewPrompt = false := by
  intro line hline
  rcases mem_body.mp hline with rfl | hline | ⟨s, hs, hline | rfl⟩ | ⟨-, rfl⟩
  · exact h.titlePrompt
  · exact (h.between line hline).2.1
  · exact (h.headings s hs line hline).1.prompt
  · exact (h.replies s hs).prompt
  · rfl

theorem Documented.not_title (h : r.Documented questions) :
    ∀ line ∈ r.body.tail ++ r.prompt :: r.after, contains line reviewTitle = false := by
  intro line hline
  rcases List.mem_append.mp hline with hline | hline
  · unfold body Shown.lines at hline
    simp only [List.cons_append, List.tail_cons, List.mem_append, List.mem_flatMap, List.mem_replicate,
      List.mem_singleton] at hline
    rcases hline with (hline | ⟨s, hs, hline | rfl⟩) | ⟨-, rfl⟩
    · exact (h.between line hline).1
    · exact (h.headings s hs line hline).1.title
    · exact (h.replies s hs).title
    · rfl
  · rcases List.mem_cons.mp hline with rfl | hline
    · exact h.promptTitle
    · exact h.after line hline

theorem Documented.any_warning (h : r.Documented questions) :
    r.body.any (contains · unansweredWarning) = decide (r.shown.length < questions.length) := by
  rw [Bool.eq_iff_iff, List.any_eq_true, decide_eq_true_eq, ← h.warned]
  constructor
  · rintro ⟨line, hline, hwarns⟩
    rcases mem_body.mp hline with rfl | hline | ⟨s, hs, hline | rfl⟩ | ⟨-, rfl⟩
    · rw [h.titleWarning] at hwarns
      cases hwarns
    · exact ⟨line, hline, hwarns⟩
    · rw [(h.headings s hs line hline).1.warning] at hwarns
      cases hwarns
    · rw [(h.replies s hs).warning] at hwarns
      cases hwarns
    · cases hwarns
  · rintro ⟨line, hline, hwarns⟩
    exact ⟨line, mem_body.mpr (Or.inr (Or.inl hline)), hwarns⟩

end Review

/-! ## The check -/

theorem checkAnswers_eq_ok_iff {entries : List (AgentApprovalAnswer × ScreenLine)}
    (h : ∀ entry ∈ entries, ∃ question, questions[entry.1.question]? = some question) :
    checkAnswers questions entries = .ok () ↔ ∀ entry ∈ entries, Listed questions entry := by
  induction entries with
  | nil => exact ⟨fun _ entry hentry => absurd hentry List.not_mem_nil, fun _ => rfl⟩
  | cons entry entries ih =>
    obtain ⟨answer, shown⟩ := entry
    obtain ⟨question, hquestion⟩ := h _ List.mem_cons_self
    have hrest := ih fun entry hentry => h entry (List.mem_cons_of_mem _ hentry)
    have hfirst : Listed questions (answer, shown) ↔
        (expectedTexts question answer).find? (! contains shown ·) = none := by
      rw [List.find?_eq_none]
      unfold Listed contains
      dsimp only
      constructor
      · intro hlisted expected hexpected
        simpa using hlisted question hquestion expected hexpected
      · intro hall question' hquestion' expected hexpected
        cases hquestion.symm.trans hquestion'
        simpa using hall expected hexpected
    rw [List.forall_mem_cons, hfirst, ← hrest]
    dsimp only at hquestion
    rw [checkAnswers, hquestion]
    dsimp only
    cases (expectedTexts question answer).find? (! contains shown ·) with
    | none => exact ⟨fun hok => ⟨rfl, hok⟩, fun hok => hok.2⟩
    | some expected => exact ⟨fun hok => (by cases hok), fun hok => (by cases hok.1)⟩

theorem checkReview_eq_ok_iff {answers : List AgentApprovalAnswer} {r : Review}
    (hdocumented : r.Documented questions)
    (h : ∀ answer ∈ answers, ∃ question, questions[answer.question]? = some question) :
    checkReview r.lines questions answers = .ok () ↔ r.shown.length = answers.length ∧
        ∀ entry ∈ (answers.insertionSort (·.question ≤ ·.question)).zip (shownTexts r.shown),
          Listed questions entry := by
  have hfrom : fromLast (contains · reviewTitle) r.lines =
      some (r.body ++ r.prompt :: r.after) := by
    have hbody : r.body = r.title :: r.body.tail := rfl
    unfold Review.lines
    rw [hbody]
    exact fromLast_append (p := (contains · reviewTitle)) hdocumented.title hdocumented.not_title
      r.before
  have hupTo : upToFirst (contains · reviewPrompt) (r.body ++ r.prompt :: r.after) = some r.body :=
    upToFirst_append (p := (contains · reviewPrompt)) hdocumented.prompt hdocumented.not_prompt r.after
  have hentries : ∀ entry ∈ (answers.insertionSort (·.question ≤ ·.question)).zip
      (shownTexts r.shown), ∃ question, questions[entry.1.question]? = some question := by
    intro entry hentry
    have hmem := (List.of_mem_zip hentry).1
    exact h entry.1 ((List.perm_insertionSort _ answers).mem_iff.mp hmem)
  unfold checkReview
  rw [hfrom]
  dsimp only
  rw [hupTo]
  dsimp only
  rw [hdocumented.foldl_body, hdocumented.any_warning, length_shownTexts, List.length_insertionSort]
  by_cases hlength : r.shown.length = answers.length
  · rw [if_neg (not_not.mpr hlength), hlength, ← checkAnswers_eq_ok_iff hentries]
    cases checkAnswers questions ((answers.insertionSort (·.question ≤ ·.question)).zip
      (shownTexts r.shown)) with
    | ok _ => simp [bind, Except.bind, pure, Except.pure]
    | error e => simp [bind, Except.bind]
  · rw [if_pos hlength]
    exact ⟨fun hok => (by cases hok), fun hok => absurd hok.1 hlength⟩

end Wakterm.Mux
