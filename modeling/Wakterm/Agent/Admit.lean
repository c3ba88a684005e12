import Wakterm.Agent.Admission
import Wakterm.Agent.Request

/-!
# Admitting a prompt

`admit_agent_prompt` from `wakterm-mux-server-impl/src/sessionhandler.rs`, cut where it awaits: a
step is one call of a store, one write to the pane, or a decision of the rest of the server, and
what it learns there is its input.
-/

namespace Wakterm.Agent

variable (sha256 : List UInt8 → String)

def textSha256 (text : String) : String := sha256 text.toUTF8.toList

def incarnationIdFromParts (agentId : String) (pid processStartTime : Nat) : String :=
  textSha256 sha256
    (agentId ++ "\x00" ++ toString pid ++ "\x00" ++ toString processStartTime)

def requestMatchesAdmission (stored : AgentRequest) (request : AgentPromptAdmissionRequest) :
    Bool :=
  stored.matchesSubmission (textSha256 sha256) request.agentId request.prompt request.paste
      request.timeoutMs &&
    if stored.targetIncarnationId = "" then
      incarnationIdFromParts sha256 stored.targetAgentId stored.targetPid
        stored.targetProcessStartTime = request.incarnationId
    else stored.targetIncarnationId = request.incarnationId

/-! ## What an attempt learns -/

/-- `AgentAdmissionCandidate`: the target as it was captured. -/
structure AgentAdmissionCandidate where
  paneId : Nat
  metadata : AgentMetadata
  runtime : AgentRuntimeSnapshot
  eventSequence : Nat
  eventStreamLive : Bool

/-- `proposed_return_request`. The clock is read for the deadline and for the request. -/
def AgentAdmissionCandidate.proposedReturnRequest (candidate : AgentAdmissionCandidate)
    (request : AgentPromptAdmissionRequest) (now registeredAt : DateTime) :
    Except String (Option AgentRequest) :=
  if ¬ request.returnFinal then .ok none
  else
    let reg : Registration :=
      { requestId := request.requestId
        metadata := candidate.metadata
        paneId := candidate.paneId
        runtime := candidate.runtime
        targetIncarnationId := request.incarnationId
        baselineEventSequence := candidate.eventSequence
        eventStreamLive := candidate.eventStreamLive
        prompt := request.prompt
        submissionPaste := request.paste
        timeoutMs := request.timeoutMs
        deadlineAt :=
          if request.timeoutMs ≠ 0 then
            some (now + Int.bmod request.timeoutMs (2 ^ 64) * 1000000)
          else none }
    if candidate.runtime.transport = .codexAppServerTui then
      some <$> AgentRequest.newManagedCodex (textSha256 sha256) reg registeredAt
    else some <$> AgentRequest.new (textSha256 sha256) reg registeredAt

/-- Why an attempt gives its claim back. -/
inductive Rejection where
  /-- `capture_admission` or `validate_admission` refuses the target. -/
  | refused (status : AgentAdmissionStatus) (detail : String)
  /-- The target could not be observed. -/
  | refreshFailed (err : String)
  /-- The input box cannot take a prompt. -/
  | blocked (reason : String)
  /-- `proposed_return_request` fails. -/
  | observerFailed (err : String)
  /-- agy was working, and the typed prompt was taken out of its box again. -/
  | takenBack
  deriving DecidableEq

/-- The receipt for a claim that was given back. -/
def Rejection.receipt (request : AgentPromptAdmissionRequest) :
    Rejection → AgentAdmissionReceipt
  | .refused status detail => .rejected request status detail
  | .refreshFailed err =>
    .rejected request .internalFailure ("could not refresh target observation: " ++ err)
  | .blocked reason => .rejected request .busy reason
  | .observerFailed err =>
    .rejected request .observerFailure
      ("observer could not prepare return-final admission: " ++ err)
  | .takenBack =>
    .rejected request .busy
      ("agy started a turn before the prompt was submitted; the prompt " ++
        "was taken back out of its input box")

/-- The receipt for a claim that could not be given back. -/
def Rejection.receiptUnreleased (request : AgentPromptAdmissionRequest) (err : String) :
    Rejection → AgentAdmissionReceipt
  | .refreshFailed refreshErr => (Rejection.refreshFailed refreshErr).receipt request
  | .observerFailed _ =>
    .rejected request .internalFailure
      ("prompt was not written, but its admission claim could not be released after " ++
        "observer failure: " ++ err)
  | .takenBack =>
    .rejected request .internalFailure
      ("the prompt was taken back, but its admission claim could not be released: " ++ err)
  | .refused _ _ | .blocked _ =>
    .rejected request .internalFailure
      ("prompt was not written, but its admission claim could not be released: " ++ err)

/-- How `write_admitted_prompt` ends. -/
inductive WriteOutcome where
  /-- The target changed, and nothing was sent to the pane. -/
  | unwritten (err : String)
  /-- `send_prompt` failed; part of the prompt may be in the pane. -/
  | partially (err : String)
  | written

/-- How the typed prompt is submitted. -/
inductive SubmitOutcome where
  /-- agy works, and its box is empty after the prompt was withdrawn. -/
  | takenBack
  | failed (err : String)
  | submitted

/-- What `confirm_admitted_input` saw of a one-way prompt. -/
inductive Confirmation where
  /-- The agent recorded it: a slash command, or input after which Claude's status changed
  or not. -/
  | recorded (command : Bool) (changed : Option Bool)
  | notRecorded (otherInput inInputBox : Bool)
  | error (err : String)

/-- The receipt of a one-way prompt that was delivered. -/
def Confirmation.receipt (request : AgentPromptAdmissionRequest) :
    Confirmation → AgentAdmissionReceipt
  | .recorded true _ => .accepted request none
  | .recorded false changed =>
    if changed = some false then
      unconfirmed "prompt was written and recorded, but Claude did not start working on it"
    else .accepted request none
  | .notRecorded otherInput inInputBox =>
    unconfirmed (
      if otherInput then
        "prompt was written, but the agent recorded different input instead, " ++
          "which may combine this prompt with text already in its input box"
      else if inInputBox then
        "prompt was written but is still in the agent's input box: Claude did not take " ++
          "it, and Wakterm stopped pressing Enter"
      else "prompt was written, but the agent did not record it within 15 s")
  | .error err => unconfirmed ("prompt was written, but its turn could not be observed: " ++ err)
where
  unconfirmed (detail : String) : AgentAdmissionReceipt :=
    { AgentAdmissionReceipt.indeterminate request none detail with promptWritten := some true }

/-! ## An attempt -/

/-- Where an attempt is. With a return-final request, that request as it was registered. -/
inductive AdmissionStage where
  /-- Another attempt of the request ID runs. -/
  | waiting
  /-- In flight; nothing was looked up. -/
  | entered
  /-- Not a repetition. A one-way attempt has claimed its request ID. -/
  | claimed
  /-- A return-final attempt has registered its request. -/
  | prepared (returnRequest : Option AgentRequest)
  /-- The prompt was written, without Enter. -/
  | typed (returnRequest : Option AgentRequest)
  | delivered (returnRequest : Option AgentRequest)
  /-- The delivery of a one-way prompt was confirmed or not. -/
  | confirmed (receipt : AgentAdmissionReceipt)
  | failed (returnRequest : Option AgentRequest) (detail : String)
  | releasing (rejection : Rejection)
  | ended (receipt : AgentAdmissionReceipt)
  /-- The server stopped before the attempt ended. -/
  | stopped
  deriving DecidableEq

/-- The next step of an attempt that is in flight. A text is an error of the database. -/
inductive AdmissionInput where
  | lookup (err : Option String)
  | reject (rejection : Rejection)
  | propose (candidate : AgentAdmissionCandidate) (now registeredAt : DateTime)
      (err : Option String)
  | write (outcome : WriteOutcome)
  | submit (outcome : SubmitOutcome)
  | confirm (confirmation : Confirmation)
  | record (now : DateTime) (err : Option String)
  | release (err : Option String)

/-- Does the step send the prompt to the pane? -/
def AdmissionInput.writes : AdmissionInput → Bool
  | .write (.unwritten _) => false
  | .write _ => true
  | _ => false

/-- The two databases. -/
structure Stores where
  requests : AgentRequestStore
  admissions : AgentAdmissionStore

variable (request : AgentPromptAdmissionRequest) (stores : Stores)

/-- Is the request ID known already? -/
def lookup : Option String → Stores × AdmissionStage
  | some err =>
    if request.returnFinal then
      (stores, .ended (.rejected request .internalFailure
        ("could not read durable admission state: " ++ err)))
    else
      (stores, .ended (.rejected request .internalFailure
        ("could not durably claim prompt admission: " ++ err)))
  | none =>
    if request.returnFinal then
      match stores.requests.get request.requestId with
      | none => (stores, .claimed)
      | some existing =>
        if ¬ requestMatchesAdmission sha256 existing request then
          (stores, .ended (.rejected request .invalid
            "request_id was already used for different input"))
        else if existing.state = .registered ∨ existing.state = .deliveryFailed ∨
            existing.state = .indeterminate then
          (stores, .ended (.indeterminate request (some existing)
            "the prior return-final admission has indeterminate delivery"))
        else (stores, .ended (.accepted request (some existing)))
    else
      let (claim, admissions) := stores.admissions.claim sha256 request
      let stores := { stores with admissions := admissions }
      match claim with
      | .new => (stores, .claimed)
      | .existing receipt => (stores, .ended receipt)
      | .conflict =>
        (stores, .ended (.rejected request .invalid
          "request_id was already used for different input"))

/-- Prepare and register the request of a return-final admission. -/
def propose (candidate : AgentAdmissionCandidate) (now registeredAt : DateTime)
    (err : Option String) : Stores × AdmissionStage :=
  match candidate.proposedReturnRequest sha256 request now registeredAt with
  | .error err => (stores, .releasing (.observerFailed err))
  | .ok none => (stores, .prepared none)
  | .ok (some proposed) =>
    let result : Except String (AgentRequest × Bool × AgentRequestStore) :=
      match err with
      | some err => .error err
      | none => stores.requests.create (textSha256 sha256) proposed
    match result with
    | .error err =>
      (stores, .ended (.rejected request .internalFailure
        ("could not durably prepare return-final admission: " ++ err)))
    | .ok (stored, false, _) =>
      if requestMatchesAdmission sha256 stored request then
        (stores, .ended (.accepted request (some stored)))
      else
        (stores, .ended (.rejected request .invalid
          "request_id was already used for different input"))
    | .ok (stored, true, requests) =>
      ({ stores with requests := requests }, .prepared (some stored))

/-- `release_unwritten_claim`, and the receipt after it. -/
def releaseUnwrittenClaim (rejection : Rejection) : Option String → Stores × AdmissionStage
  | some err => (stores, .ended (rejection.receiptUnreleased request err))
  | none =>
    if request.returnFinal then
      match stores.requests.deleteRegistered request.requestId with
      | none =>
        (stores, .ended (rejection.receiptUnreleased request "FOREIGN KEY constraint failed"))
      | some requests =>
        ({ stores with requests := requests }, .ended (rejection.receipt request))
    else
      ({ stores with
          admissions := stores.admissions.releaseUnwritten request.requestId },
        .ended (rejection.receipt request))

/-- Keep the receipt of a one-way prompt that was confirmed. -/
def recordConfirmed (receipt : AgentAdmissionReceipt) (err : Option String) :
    Stores × AdmissionStage :=
  let unpersisted (err : String) : Stores × AdmissionStage :=
    (stores, .ended (.indeterminate request none
      ("prompt was written but its receipt could not be persisted: " ++ err)))
  match err with
  | some err => unpersisted err
  | none =>
    match stores.admissions.finish receipt with
    | none => unpersisted "Query returned no rows"
    | some admissions => ({ stores with admissions := admissions }, .ended receipt)

/-- Keep that the prompt of a return-final request was submitted. -/
def recordSubmitted (nested : AgentRequest) (now : DateTime) (err : Option String) :
    Stores × AdmissionStage :=
  let unpersisted (err : String) : Stores × AdmissionStage :=
    (stores, .ended (.indeterminate request none
      ("prompt was written but its receipt could not be persisted: " ++ err)))
  match err with
  | some err => unpersisted err
  | none =>
    match stores.requests.save (nested.markSubmitted now) with
    | none => unpersisted "FOREIGN KEY constraint failed"
    | some (requests, saved) =>
      ({ stores with requests := requests }, .ended (.accepted request (some saved)))

/-- Keep that delivery failed. Errors of the database are ignored. -/
def recordFailed (returnRequest : Option AgentRequest) (detail : String) (now : DateTime)
    (err : Option String) : Stores × AdmissionStage :=
  match returnRequest with
  | some nested =>
    let nested := nested.finish .indeterminate now detail
    let saved := if err.isSome then none else stores.requests.save nested
    ({ stores with requests := (saved.map Prod.fst).getD stores.requests },
      .ended (.indeterminate request (some nested) detail))
  | none =>
    let receipt := AgentAdmissionReceipt.indeterminate request none detail
    let finished := if err.isSome then none else stores.admissions.finish receipt
    ({ stores with admissions := finished.getD stores.admissions }, .ended receipt)

/-- One step of an attempt in flight. -/
def advance : AdmissionStage → AdmissionInput → Option (Stores × AdmissionStage)
  | .entered, .lookup err => some (lookup sha256 request stores err)
  | .claimed, .reject rejection =>
    match rejection with
    | .refused _ _ | .refreshFailed _ | .blocked _ => some (stores, .releasing rejection)
    | .observerFailed _ | .takenBack => none
  | .claimed, .propose candidate now registeredAt err =>
    some (propose sha256 request stores candidate now registeredAt err)
  | .prepared _, .reject (.refused status detail) =>
    some (stores, .releasing (.refused status detail))
  | .prepared returnRequest, .write outcome =>
    match outcome with
    | .unwritten err | .partially err =>
      some (stores, .failed returnRequest ("prompt delivery may have been partial: " ++ err))
    | .written => some (stores, .typed returnRequest)
  | .typed returnRequest, .submit outcome =>
    match outcome with
    | .takenBack => some (stores, .releasing .takenBack)
    | .failed err =>
      some (stores, .failed returnRequest ("prompt delivery may have been partial: " ++ err))
    | .submitted => some (stores, .delivered returnRequest)
  | .delivered none, .confirm confirmation =>
    some (stores, .confirmed (confirmation.receipt request))
  | .delivered (some nested), .record now err =>
    some (recordSubmitted request stores nested now err)
  | .confirmed receipt, .record _ err => some (recordConfirmed request stores receipt err)
  | .failed returnRequest detail, .record now err =>
    some (recordFailed request stores returnRequest detail now err)
  | .releasing rejection, .release err =>
    some (releaseUnwrittenClaim request stores rejection err)
  | _, _ => none

end Wakterm.Agent
