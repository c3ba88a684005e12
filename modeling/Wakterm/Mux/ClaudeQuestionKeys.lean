import Mathlib.Algebra.Ring.Nat
import Mathlib.Data.Finset.SymmDiff
import Mathlib.Data.List.Infix
import Mathlib.Data.List.Sort
import Wakterm.Agent.Request

/-!
# Keys that answer a question form

`claude_question_keys.rs`: `plan` checks the answers of a form against its questions and makes the
keys that enter them, with what the screen shows in between; `checkReview` reads the review on the
screen before it is submitted.
-/

namespace Wakterm.Mux

open Wakterm.Agent (trim isWhitespace)

structure AgentApprovalChoice where
  id : String
  label : String
  description : Option String
  deriving DecidableEq

structure AgentApprovalQuestion where
  index : Nat
  header : Option String
  question : String
  multiSelect : Bool
  options : List AgentApprovalChoice

structure AgentApprovalAnswer where
  question : Nat
  choices : List String
  text : Option String

/-- The typed answer, if it is more than blanks. -/
def AgentApprovalAnswer.trimmed (answer : AgentApprovalAnswer) : Option String :=
  (answer.text.map trim).filter (· ≠ "")

/-- Where the first option with the id stands. -/
def AgentApprovalQuestion.position (question : AgentApprovalQuestion) (choice : String) :
    Option Nat :=
  question.options.findIdx? (·.id = choice)

inductive FormAction where
  | submit (answers : List AgentApprovalAnswer)
  | chat
  | cancel

inductive KeyCode where
  | char (c : Char)
  | tab | enter | escape | downArrow

inductive Step where
  | key (key : KeyCode)
  | paste (text : String)
  | awaitQuestion (index : Nat)
  | awaitText (text : String)
  | awaitReview
  | awaitChatFocus

inductive PlanError where
  | noQuestions
  | unknownQuestion (index : Nat)
  | answeredTwice (index : Nat)
  | unknownChoice (index : Nat) (choice : String)
  | typedForSeveral (index : Nat)
  | noChoices (index : Nat)
  | notOneAnswer (index : Nat)
  | answerNeeded
  | tooManyOptions

def PlanError.message : PlanError → String
  | noQuestions => "the question form has no questions"
  | unknownQuestion index => s!"the form has no question {index}"
  | answeredTwice index => s!"question {index} is answered twice"
  | unknownChoice index choice => s!"question {index} has no choice {choice}"
  | typedForSeveral index =>
    s!"question {index} allows several choices; " ++
      "a typed answer is only supported for single-choice questions"
  | noChoices index => s!"question {index} has an answer with no choices"
  | notOneAnswer index => s!"question {index} takes exactly one choice or a typed answer"
  | answerNeeded => "a form with one single-choice question needs its answer"
  | tooManyOptions => "the question has too many options for digit keys"

/-- The first loop of `plan`: one answer is checked and put at the place of its question. -/
def enlist (questions : List AgentApprovalQuestion) (byQuestion : List (Option AgentApprovalAnswer))
    (answer : AgentApprovalAnswer) : Except PlanError (List (Option AgentApprovalAnswer)) :=
  let index := answer.question
  match questions[index]? with
  | none => .error (.unknownQuestion index)
  | some question =>
    if ((byQuestion[index]?).getD none).isSome then .error (.answeredTwice index)
    else
      match answer.choices.find? fun choice => ¬ question.options.any (·.id = choice) with
      | some choice => .error (.unknownChoice index choice)
      | none =>
        if question.multiSelect then
          if answer.trimmed.isSome then .error (.typedForSeveral index)
          else if answer.choices = [] then .error (.noChoices index)
          else .ok (byQuestion.set index (some answer))
        else if answer.choices.length + (if answer.trimmed.isSome then 1 else 0) ≠ 1 then
          .error (.notOneAnswer index)
        else .ok (byQuestion.set index (some answer))

/-- `char::from_digit`, as the key. -/
def digit (position : Nat) : Except PlanError KeyCode :=
  if position < 10 then .ok (.char (Nat.digitChar position)) else .error .tooManyOptions

def choiceKeys (question : AgentApprovalQuestion) (choices : List String) :
    Except PlanError (List Step) :=
  choices.mapM fun choice => do
    let key ← digit ((question.position choice).getD 0 + 1)
    return .key key

/-- What is pressed at a question, up to where the dialog moves on. -/
def questionKeys (question : AgentApprovalQuestion) :
    Option AgentApprovalAnswer → Except PlanError (List Step)
  | none => .ok [.key .tab]
  | some answer =>
    match answer.trimmed with
    | some text => do
        let key ← digit (question.options.length + 1)
        return [.key key, .paste text, .awaitText text, .key .enter]
    | none => do
        let keys ← choiceKeys question answer.choices
        return keys ++ if question.multiSelect then [.key .tab] else []

/-- The second loop of `plan`, from the question at `index`. -/
def formKeys (index : Nat) :
    List (AgentApprovalQuestion × Option AgentApprovalAnswer) → Except PlanError (List Step)
  | [] => .ok []
  | (question, answer) :: rest => do
      let keys ← questionKeys question answer
      let next := if rest = [] then [] else [.awaitQuestion (index + 1)]
      return keys ++ next ++ (← formKeys (index + 1) rest)

/-- A form has a review unless it is one single-select question. -/
def reviewed (questions : List AgentApprovalQuestion) : Bool :=
  1 < questions.length || (questions.head?.map (·.multiSelect)).getD false

def plan (questions : List AgentApprovalQuestion) (action : FormAction) :
    Except PlanError (List Step) :=
  match questions with
  | [] => .error .noQuestions
  | first :: _ =>
    match action with
    | .cancel => .ok [.awaitQuestion 0, .key .escape]
    | .chat =>
      .ok (.awaitQuestion 0 :: List.replicate (first.options.length + 1) (.key .downArrow) ++
        [.awaitChatFocus, .key .enter])
    | .submit answers => do
        let byQuestion ← answers.foldlM (enlist questions) (questions.map fun _ => none)
        if ¬ reviewed questions ∧ (byQuestion.head?.getD none).isNone then .error .answerNeeded
        else
          let keys ← formKeys 0 (questions.zip byQuestion)
          return .awaitQuestion 0 :: keys ++
            if reviewed questions then [.awaitReview, .key .enter] else []

abbrev ScreenLine := List Char

/-- `MATCH_PREFIX`. -/
def matchLength : Nat := 30

def reviewTitle : ScreenLine := "Review your answers".toList
def reviewPrompt : ScreenLine := "Ready to submit your answers?".toList
def unansweredWarning : ScreenLine := "You have not answered all questions".toList
def answerArrow : Char := '→'

/-- `normalize`: the words of a text with one blank between them. -/
def normalize (text : ScreenLine) : ScreenLine :=
  [' '].intercalate ((text.splitOnP isWhitespace).filter (· ≠ []))

/-- `prefix`: how a long text begins on the screen. -/
def textStart (text : ScreenLine) : ScreenLine :=
  (((normalize text).take matchLength).reverse.dropWhile isWhitespace).reverse

/-- The list from the last element on that is such. -/
def fromLast (p : ScreenLine → Bool) : List ScreenLine → Option (List ScreenLine)
  | [] => none
  | line :: lines =>
    match fromLast p lines with
    | some found => some found
    | none => if p line then some (line :: lines) else none

def upToFirst (p : ScreenLine → Bool) (lines : List ScreenLine) : Option (List ScreenLine) :=
  if lines.any p then some (lines.takeWhile (! p ·)) else none

def contains (line text : ScreenLine) : Bool := decide (text <:+: line)

/-- The loop of `check_review`: a line with the arrow is an answer, and the next ones continue it. -/
def showLine (shown : List ScreenLine) (line : ScreenLine) : List ScreenLine :=
  let trimmed := line.dropWhile isWhitespace
  if trimmed.head? = some answerArrow then shown ++ [normalize trimmed.tail]
  else
    match shown.getLast? with
    | none => shown
    | some last =>
      if trimmed = [] then shown else shown.dropLast ++ [last ++ ' ' :: normalize trimmed]

/-- What has to stand in the review for an answer. -/
def expectedTexts (question : AgentApprovalQuestion) (answer : AgentApprovalAnswer) :
    List ScreenLine :=
  match answer.trimmed with
  | some text => [textStart text.toList]
  | none =>
    (answer.choices.filterMap fun choice => question.options.find? (·.id = choice)).map
      fun option => normalize option.label.toList

/-- The reasons for which a review is refused. -/
inductive ReviewError where
  | noReview
  | noPrompt
  | count (shown answered : Nat)
  | missing (shown : ScreenLine) (question : Nat) (expected : ScreenLine)
  | warning
  | noQuestion

/-- Their texts; `debug` is how a text is quoted. A question that is not there is a panic. -/
def ReviewError.message (debug : ScreenLine → String) : ReviewError → Option String
  | noReview => some "the review is not on screen"
  | noPrompt => some "the review's submit prompt is not on screen"
  | count shown answered => some s!"the review lists {shown} answers instead of {answered}"
  | missing shown question expected =>
    some s!"the review shows {debug shown} for question {question}, without {debug expected}"
  | warning => some "the review's unanswered-question warning does not match the answers"
  | noQuestion => none

/-- The answers in the order of their questions, each with what is shown for it. -/
def checkAnswers (questions : List AgentApprovalQuestion) :
    List (AgentApprovalAnswer × ScreenLine) → Except ReviewError Unit
  | [] => .ok ()
  | (answer, shown) :: rest =>
    match questions[answer.question]? with
    | none => .error .noQuestion
    | some question =>
      match (expectedTexts question answer).find? (! contains shown ·) with
      | some expected => .error (.missing shown answer.question expected)
      | none => checkAnswers questions rest

def checkReview (lines : List ScreenLine) (questions : List AgentApprovalQuestion)
    (answers : List AgentApprovalAnswer) : Except ReviewError Unit :=
  match fromLast (contains · reviewTitle) lines with
  | none => .error .noReview
  | some fromTitle =>
    match upToFirst (contains · reviewPrompt) fromTitle with
    | none => .error .noPrompt
    | some review => do
        let shown := review.foldl showLine []
        let answered := answers.insertionSort (·.question ≤ ·.question)
        if shown.length ≠ answered.length then
          throw (.count shown.length answered.length)
        checkAnswers questions (answered.zip shown)
        if review.any (contains · unansweredWarning) ≠ (answered.length < questions.length) then
          throw .warning

end Wakterm.Mux

/-!
## The dialog of a question form

What the module documentation of `claude_question_keys.rs` says of the dialog that the keys are for:
one question at a time, then the review.
-/

namespace Wakterm.Mux

open Wakterm.Machine

/-- What is recorded for a question: the options that are picked, by their places, and the text. -/
structure Recorded where
  picked : Finset Nat
  text : Option String

def Recorded.nothing : Recorded := ⟨∅, none⟩

/-- What the dialog shows: a question, with what is typed if its box has the focus, or the review. -/
inductive DialogPlace where
  | question (index : Nat) (box : Option String)
  | review
  | closed
  deriving DecidableEq

structure Dialog where
  place : DialogPlace
  recorded : Nat → Recorded
  submissions : Nat

namespace Dialog

def opened : Dialog := ⟨.question 0 none, fun _ => .nothing, 0⟩

variable (questions : List AgentApprovalQuestion)

/-- What comes after a question: the next one, or the review, or else the form is submitted. -/
def moveOn (index : Nat) (d : Dialog) : Dialog :=
  if index + 1 < questions.length then { d with place := .question (index + 1) none }
  else if reviewed questions then { d with place := .review }
  else { d with place := .closed, submissions := d.submissions + 1 }

/-- Record something for a question. -/
def record (index : Nat) (r : Recorded) (d : Dialog) : Dialog :=
  { d with recorded := Function.update d.recorded index r }

/-- A digit picks an option, or toggles it, or focuses the box. -/
def choose (index : Nat) (question : AgentApprovalQuestion) (number : Nat) (d : Dialog) :
    Option Dialog :=
  if number = 0 then none
  else if number ≤ question.options.length then
    if question.multiSelect then
      some (d.record index
        { d.recorded index with picked := symmDiff (d.recorded index).picked {number - 1} })
    else some ((d.record index ⟨{number - 1}, none⟩).moveOn questions index)
  else if number = question.options.length + 1 then some { d with place := .question index (some "") }
  else none

def press (d : Dialog) (key : KeyCode) : Option Dialog :=
  match d.place, key with
  | .question index none, .char c =>
    if c.isDigit then questions[index]?.bind fun question =>
      d.choose questions index question (c.toNat - '0'.toNat)
    else none
  | .question index none, .tab =>
    if reviewed questions then some (d.moveOn questions index) else none
  | .question index (some typed), .enter =>
    some ((d.record index ⟨∅, some typed⟩).moveOn questions index)
  | .question _ none, .escape => some { d with place := .closed }
  | .review, .enter => some { d with place := .closed, submissions := d.submissions + 1 }
  | _, _ => none

/-- A step of a plan: what it waits for has to be what the dialog shows. -/
def step (d : Dialog) : Step → Option Dialog
  | .key key => d.press questions key
  | .paste text =>
    match d.place with
    | .question index (some typed) =>
      some { d with place := .question index (some (typed ++ text)) }
    | _ => none
  | .awaitQuestion index => if d.place = .question index none then some d else none
  | .awaitText text =>
    match d.place with
    | .question _ (some typed) => if typed = text then some d else none
    | _ => none
  | .awaitReview => if d.place = .review then some d else none
  | .awaitChatFocus => none

/-- The steps of a plan, one after the other. -/
def run (d : Dialog) (steps : List Step) : Option Dialog := steps.foldlM (step questions) d

theorem run_cons (d : Dialog) (first : Step) (steps : List Step) :
    d.run questions (first :: steps) = (d.step questions first).bind (run questions · steps) :=
  List.foldlM_cons

theorem run_append (d : Dialog) (steps steps' : List Step) :
    d.run questions (steps ++ steps') = (d.run questions steps).bind (run questions · steps') :=
  List.foldlM_append

end Dialog

end Wakterm.Mux
