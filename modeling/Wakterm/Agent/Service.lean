import Wakterm.Agent.Admit

/-!
# The agent service

A mux server with its two databases, the admission attempts that run in it, and the watchers: calls
of `reconcile_agent_requests` and `cancel_agent_request` from `mux/src/lib.rs`.
-/

namespace Wakterm.Agent

/-- The loop over event pages in `reconcile_agent_requests`. There is no outcome while it
waits for another page. -/
def reconcilePages (request : AgentRequest) (now : DateTime) :
    List AgentEventPage → Option AgentRequest
  | [] => none
  | page :: pages =>
    let cursor := request.reconciledEventSequence
    let request := request.reconcileEventPage page now
    if request.state.isTerminal ∨ request.reconciledEventSequence ≤ cursor ∨
        request.reconciledEventSequence ≥ page.latestSequence then
      some request
    else reconcilePages request now pages

/-- What `reconcile_agent_requests` makes of one active request, given what the mux knows of
its target and the pages of its events. -/
def reconcileActive (request : AgentRequest) (metadata : Option AgentMetadata)
    (runtime : Option AgentRuntimeSnapshot) (now : DateTime) (pages : List AgentEventPage) :
    Option AgentRequest :=
  let request := request.reconcile metadata runtime now
  if request.correlatesFromEvents ∧ ¬ request.state.isTerminal then
    reconcilePages request now pages
  else some request

/-- A call that watches over requests. -/
inductive Watcher where
  | idle
  /-- `reconcile_agent_requests` at `now`, with the active requests it has still to see, and
  the request that `cancel_agent_request` asks about after it. -/
  | reconciling (now : DateTime) (todo : List AgentRequest) (cancel : Option String)
  /-- `cancel_agent_request` has loaded this request, which has not ended. -/
  | cancelling (request : AgentRequest)
  deriving DecidableEq

/-- The next step of a watcher. -/
inductive WatchInput where
  /-- The next active request. -/
  | next (metadata : Option AgentMetadata) (runtime : Option AgentRuntimeSnapshot)
      (pages : List AgentEventPage)
  /-- Load the request to cancel. -/
  | load
  /-- Save it as cancelled. -/
  | cancel (now : DateTime)
  /-- Return, after the last request or with an error. -/
  | return

def Watcher.saves : Watcher → WatchInput → Option AgentRequest
  | .reconciling now (request :: _) _, .next metadata runtime pages =>
    if request.state = .registered then none
    else
      match reconcileActive request metadata runtime now pages with
      | none => none
      | some reconciled => if reconciled ≠ request then some reconciled else none
  | .cancelling request, .cancel now =>
    some (request.finish .cancelled now "request was cancelled")
  | _, _ => none

/-- Where a watcher is after a step that saved what it had to. -/
def Watcher.next (store : AgentRequestStore) : Watcher → WatchInput → Option Watcher
  | .reconciling now (request :: todo) cancel, .next metadata runtime pages =>
    if request.state ≠ .registered ∧
        (reconcileActive request metadata runtime now pages).isNone then none
    else some (.reconciling now todo cancel)
  | .reconciling _ [] (some requestId), .load =>
    match store.get requestId with
    | none => some .idle
    | some request => if request.state.isTerminal then some .idle else some (.cancelling request)
  | .cancelling _, .cancel _ => some .idle
  | .reconciling _ _ _, .return => some .idle
  | .cancelling _, .return => some .idle
  | _, _ => none

structure Attempt where
  request : AgentPromptAdmissionRequest
  stage : AdmissionStage

/-- What a client could see of attempt number `attempt`. -/
inductive ServiceEvent where
  /-- It sent the prompt of its request ID to a pane. -/
  | wrote (requestId : String) (attempt : Nat)
  | ended (requestId : String) (attempt : Nat) (receipt : AgentAdmissionReceipt)

/-- The server, which accepts requests while it is `serving`. -/
structure Service where
  stores : Stores
  serving : Bool
  /-- `IN_FLIGHT`. -/
  inFlight : List String
  attempts : Nat → Option Attempt
  watchers : Nat → Watcher
  history : List ServiceEvent

/-- A step of the server. -/
inductive Action where
  /-- The server starts to accept requests. -/
  | serve
  /-- An attempt with a new number arrives. -/
  | arrive (attempt : Nat) (request : AgentPromptAdmissionRequest)
  /-- `AdmissionInFlight::enter`. -/
  | enter (attempt : Nat)
  /-- `ADMISSION_IN_FLIGHT_WAIT` has passed. -/
  | giveUp (attempt : Nat)
  | admitPrompt (attempt : Nat) (input : AdmissionInput)
  /-- `reconcile_agent_requests` starts, on its own or for `cancel_agent_request`. -/
  | reconcile (watcher : Nat) (now : DateTime) (cancel : Option String)
  | watch (watcher : Nat) (input : WatchInput)
  /-- The server stops, wherever it is, and another one starts. -/
  | crash
  /-- `recover_registered` of one request, before the server accepts any. -/
  | recover (requestId : String) (now : DateTime)

namespace Service

/-- A server with new databases. -/
def empty : Service where
  stores := ⟨.empty, .empty⟩
  serving := false
  inFlight := []
  attempts := fun _ => none
  watchers := fun _ => .idle
  history := []

variable (sha256 : List UInt8 → String)

/-- What a step of attempt `k` leaves in the history. -/
def eventsOf (requestId : String) (k : Nat) (wrote : Bool) (stage : AdmissionStage) :
    List ServiceEvent :=
  (if wrote then [.wrote requestId k] else []) ++
    match stage with
    | .ended receipt => [.ended requestId k receipt]
    | _ => []

/-- The set of attempts in flight when one is at `stage`: an attempt that ends leaves it. -/
def inFlightAfter (inFlight : List String) (requestId : String) :
    AdmissionStage → List String
  | .ended _ => inFlight.filter fun id => id ≠ requestId
  | _ => inFlight

/-- Attempt `k` moves to `stage`. -/
def setStage (s : Service) (k : Nat) (attempt : Attempt) (stage : AdmissionStage) :
    Nat → Option Attempt :=
  Function.update s.attempts k (some { attempt with stage := stage })

/-- One step of attempt `k`. -/
def admitPrompt (s : Service) (k : Nat) (input : AdmissionInput) : Option Service :=
  match s.attempts k with
  | none => none
  | some attempt =>
    (advance sha256 attempt.request s.stores attempt.stage input).map fun (stores, stage) =>
      { s with
        stores := stores
        inFlight := inFlightAfter s.inFlight attempt.request.requestId stage
        attempts := s.setStage k attempt stage
        history := s.history ++ eventsOf attempt.request.requestId k input.writes stage }

/-- One turn of the loop in which an attempt waits. -/
def enter (s : Service) (k : Nat) : Option Service :=
  match s.attempts k with
  | some attempt =>
    if attempt.stage = .waiting ∧ attempt.request.requestId ∉ s.inFlight then
      some { s with
        inFlight := attempt.request.requestId :: s.inFlight
        attempts := s.setStage k attempt .entered }
    else none
  | none => none

/-- The end of that loop without an entry. -/
def giveUp (s : Service) (k : Nat) : Option Service :=
  match s.attempts k with
  | some attempt =>
    if attempt.stage = .waiting ∧ attempt.request.requestId ∈ s.inFlight then
      let receipt := AgentAdmissionReceipt.indeterminate attempt.request none
        ("an earlier admission with this request_id is still running; retry with the " ++
          "same request_id")
      some { s with
        attempts := s.setStage k attempt (.ended receipt)
        history := s.history ++ [.ended attempt.request.requestId k receipt] }
    else none
  | none => none

/-- The request store with a request saved. There is no outcome when `save` fails: the
watcher then returns. -/
def saved (s : Service) : Option AgentRequest → Option AgentRequestStore
  | none => some s.stores.requests
  | some request => (s.stores.requests.save request).map Prod.fst

/-- One step of watcher `k`. -/
def watch (s : Service) (k : Nat) (input : WatchInput) : Option Service :=
  match (s.watchers k).next s.stores.requests input, s.saved ((s.watchers k).saves input) with
  | some watcher, some requests =>
    some { s with
      stores := { s.stores with requests := requests }
      watchers := Function.update s.watchers k watcher }
  | _, _ => none

/-- The request that `recover_registered` saves for an active registration. -/
def recovers (s : Service) (requestId : String) (now : DateTime) : Option AgentRequest :=
  (s.stores.requests.active.find? fun request =>
    request.requestId = requestId ∧ request.state = .registered).map fun request =>
      request.finish .indeterminate now
        "mux restarted before prompt submission was durably confirmed"

/-- Everything in memory is gone. -/
def crash (s : Service) : Service :=
  { s with
    serving := false
    inFlight := []
    attempts := fun k => (s.attempts k).map fun attempt =>
      match attempt.stage with
      | .ended _ => attempt
      | _ => { attempt with stage := .stopped }
    watchers := fun _ => .idle }

def step (s : Service) : Action → Option Service
  | .serve => some { s with serving := true }
  | .arrive k request =>
    if s.serving ∧ (s.attempts k).isNone then
      some { s with attempts := Function.update s.attempts k (some ⟨request, .waiting⟩) }
    else none
  | .enter k => s.enter k
  | .giveUp k => s.giveUp k
  | .admitPrompt k input => s.admitPrompt sha256 k input
  | .reconcile k now cancel =>
    if s.serving ∧ s.watchers k = .idle then
      some { s with
        watchers := Function.update s.watchers k
          (.reconciling now s.stores.requests.active cancel) }
    else none
  | .watch k input => s.watch k input
  | .crash => some s.crash
  | .recover requestId now =>
    if s.serving then none
    else
      match s.recovers requestId now with
      | none => none
      | some request =>
        (s.saved (some request)).map fun requests =>
          { s with stores := { s.stores with requests := requests } }

/-- Steps one after another. -/
def run (s : Service) : List Action → Option Service
  | [] => some s
  | action :: actions => (s.step sha256 action).bind fun s => s.run actions

end Service

end Wakterm.Agent
