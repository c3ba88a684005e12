import Mathlib.Data.List.AList
import Wakterm.Agent.EventStore

/-!
# Agent requests

`AgentRequest` from `mux/src/agent_request.rs`: a prompt sent to an agent, whose final answer
somebody waits for.
-/

namespace Wakterm.Agent

inductive AgentRequestState where
  | registered | submitted | bound | completed | aborted | timedOut | cancelled
  | deliveryFailed | indeterminate
  deriving DecidableEq

def AgentRequestState.isTerminal : AgentRequestState → Bool
  | .completed | .aborted | .timedOut | .cancelled | .deliveryFailed | .indeterminate => true
  | .registered | .submitted | .bound => false

inductive AgentRequestCorrelation where
  | observedPty | codexAppServerEvents | providerEvents
  deriving DecidableEq

structure AgentRequest where
  requestId : String
  targetAgentId : String
  targetAgentName : String
  targetPaneId : Nat
  targetHarness : AgentHarness
  correlation : AgentRequestCorrelation
  targetIncarnationId : String
  targetPid : Nat
  targetProcessStartTime : Nat
  targetSessionPath : String
  baselineProviderTurnId : String
  baselineCursor : Nat
  reconciledEventSequence : Nat
  baselineUserMessageCount : Nat
  submissionSha256 : String
  promptSha256 : String
  submissionPaste : Bool
  timeoutMs : Nat
  state : AgentRequestState
  providerTurnId : Option String
  createdAt : DateTime
  updatedAt : DateTime
  deadlineAt : Option DateTime
  completedAt : Option DateTime
  finalMessage : Option String
  detail : Option String
  terminalEventSequence : Option Nat
  deriving DecidableEq

/-- `char::is_whitespace`: the characters with the Unicode property `White_Space`. -/
def isWhitespace (c : Char) : Bool :=
  let n := c.toNat
  (0x9 ≤ n && n ≤ 0xD) || n == 0x20 || n == 0x85 || n == 0xA0 || n == 0x1680 ||
    (0x2000 ≤ n && n ≤ 0x200A) || n == 0x2028 || n == 0x2029 || n == 0x202F || n == 0x205F ||
    n == 0x3000

def trim (s : String) : String :=
  String.ofList ((s.toList.dropWhile isWhitespace).reverse.dropWhile isWhitespace).reverse

def messageSha256 (sha256 : String → String) (message : String) : String :=
  sha256 (String.ofList ((trim message).toList.flatMap fun c =>
    if c = '\t' then [' ', ' ', ' ', ' '] else [c]))

def promptSha256 (sha256 : String → String) (prompt : String) : String :=
  messageSha256 sha256 prompt

def submissionSha256 (sha256 : String → String) (prompt : String) : String :=
  sha256 prompt

def managedSessionIdentity (session : CodexAppServerSession) : String :=
  "codex-app-server:" ++ session.threadId ++ ":" ++ session.sessionId

def validateBaseline (metadata : AgentMetadata) (runtime : AgentRuntimeSnapshot)
    (eventStreamLive : Bool) : Except String Unit :=
  if ¬ (runtime.harness = .codex ∨ runtime.harness = .claude) then
    .error "--return-final currently requires a Codex or Claude agent"
  else if runtime.transport ≠ .observedPty then
    .error "--return-final requires an observer-backed session"
  else if runtime.turnState ≠ .waitingOnUser then
    .error "--return-final requires an idle agent"
  else if metadata.adoptedPid.isNone ∨ metadata.adoptedStartTime.isNone then
    .error "--return-final requires a confirmed target process incarnation"
  else if runtime.sessionPath.isNone then
    .error "--return-final requires an exact observer session"
  else if ¬ eventStreamLive then
    .error "--return-final requires the durable agent event stream"
  else .ok ()

def validateManagedBaseline (metadata : AgentMetadata) (runtime : AgentRuntimeSnapshot)
    (eventStreamLive : Bool) : Except String Unit :=
  if runtime.harness ≠ .codex ∨ runtime.transport ≠ .codexAppServerTui ∨
      metadata.codexAppServer.isNone then
    .error "--return-final requires an exact managed Codex app-server session"
  else if runtime.turnState ≠ .waitingOnUser then
    .error "--return-final requires an idle agent"
  else if ¬ eventStreamLive then
    .error "--return-final requires the durable agent event stream"
  else .ok ()

/-- What the two constructors take from their caller. -/
structure Registration where
  requestId : String
  metadata : AgentMetadata
  paneId : Nat
  runtime : AgentRuntimeSnapshot
  targetIncarnationId : String
  baselineEventSequence : Nat
  eventStreamLive : Bool
  prompt : String
  submissionPaste : Bool
  timeoutMs : Nat
  deadlineAt : Option DateTime

/-- The fields that both constructors fill in the same way. -/
def Registration.request (sha256 : String → String) (reg : Registration) (now : DateTime)
    (correlation : AgentRequestCorrelation) (pid startTime : Nat) (sessionPath : String) :
    AgentRequest where
  requestId := reg.requestId
  targetAgentId := reg.metadata.agentId
  targetAgentName := reg.metadata.name
  targetPaneId := reg.paneId
  targetHarness := reg.runtime.harness
  correlation := correlation
  targetIncarnationId := reg.targetIncarnationId
  targetPid := pid
  targetProcessStartTime := startTime
  targetSessionPath := sessionPath
  baselineProviderTurnId := reg.runtime.observedTurn.getD ""
  baselineCursor := reg.baselineEventSequence
  reconciledEventSequence := reg.baselineEventSequence
  baselineUserMessageCount := 0
  submissionSha256 := submissionSha256 sha256 reg.prompt
  promptSha256 := promptSha256 sha256 reg.prompt
  submissionPaste := reg.submissionPaste
  timeoutMs := reg.timeoutMs
  state := .registered
  providerTurnId := none
  createdAt := now
  updatedAt := now
  deadlineAt := reg.deadlineAt
  completedAt := none
  finalMessage := none
  detail := none
  terminalEventSequence := none

/-- `AgentRequest::new`. The `expect`s are met: the baseline was validated. -/
def AgentRequest.new (sha256 : String → String) (reg : Registration) (now : DateTime) :
    Except String AgentRequest := do
  validateBaseline reg.metadata reg.runtime reg.eventStreamLive
  return reg.request sha256 now .providerEvents (reg.metadata.adoptedPid.getD 0)
    (reg.metadata.adoptedStartTime.getD 0) (reg.runtime.sessionPath.getD "")

def AgentRequest.newManagedCodex (sha256 : String → String) (reg : Registration)
    (now : DateTime) : Except String AgentRequest := do
  validateManagedBaseline reg.metadata reg.runtime reg.eventStreamLive
  return reg.request sha256 now .codexAppServerEvents 0 0
    ((reg.metadata.codexAppServer.map managedSessionIdentity).getD "")

namespace AgentRequest

def correlatesFromEvents (r : AgentRequest) : Bool :=
  r.correlation = .codexAppServerEvents || r.correlation = .providerEvents

def markSubmitted (r : AgentRequest) (now : DateTime) : AgentRequest :=
  { r with state := .submitted, updatedAt := now }

def matchesSubmission (sha256 : String → String) (r : AgentRequest) (targetAgentId prompt : String)
    (submissionPaste : Bool) (timeoutMs : Nat) : Bool :=
  let promptMatches :=
    if r.submissionSha256 = "" then r.promptSha256 = Agent.promptSha256 sha256 prompt
    else r.submissionSha256 = Agent.submissionSha256 sha256 prompt
  r.targetAgentId = targetAgentId && promptMatches && r.submissionPaste = submissionPaste &&
    r.timeoutMs = timeoutMs

def finish (r : AgentRequest) (state : AgentRequestState) (now : DateTime) (detail : String) :
    AgentRequest :=
  { r with state := state, completedAt := some now, updatedAt := now, detail := some detail }

/-- Is this the agent that the prompt went to? -/
def identityMatches (r : AgentRequest) (metadata : AgentMetadata) : Bool :=
  match r.correlation with
  | .observedPty | .providerEvents =>
    metadata.agentId = r.targetAgentId && metadata.adoptedPid = some r.targetPid &&
      metadata.adoptedStartTime = some r.targetProcessStartTime
  | .codexAppServerEvents =>
    metadata.agentId = r.targetAgentId &&
      metadata.codexAppServer.any fun session =>
        managedSessionIdentity session = r.targetSessionPath

def reconcile (r : AgentRequest) (metadata : Option AgentMetadata)
    (runtime : Option AgentRuntimeSnapshot) (now : DateTime) : AgentRequest :=
  if r.state.isTerminal then r
  else if r.state = .registered then
    -- Admission persists the registration before it writes the prompt.
    r
  else if r.deadlineAt.any (fun deadline => now ≥ deadline) then
    r.finish .timedOut now "final response did not arrive before the request deadline"
  else
    match metadata with
    | none => r
    | some metadata =>
      if ¬ r.identityMatches metadata then
        r.finish .indeterminate now "target agent incarnation changed"
      else
        match runtime with
        | none => r
        | some runtime =>
          if ¬ runtime.alive then
            r.finish .indeterminate now "target agent exited before the correlated turn completed"
          else if r.correlation = .codexAppServerEvents then
            if runtime.transport ≠ .codexAppServerTui then
              r.finish .indeterminate now
                "target managed transport changed after prompt submission"
            else r
          else if runtime.sessionPath ≠ some r.targetSessionPath then
            r.finish .indeterminate now "observer session changed after prompt submission"
          else if r.correlation = .observedPty then
            r.finish .indeterminate now
              ("request was registered before event correlation, " ++
                "so its final cannot be confirmed")
          else r

/-- What the loop over a page's events does after one of them. -/
inductive EventStep where
  | next (r : AgentRequest)
  | stop (r : AgentRequest)

/-- `AgentEventKind::TurnStarted` for a turn that is not the baseline's. -/
def turnStarted (r : AgentRequest) (event : AgentEvent) (turnId : String) (now : DateTime) :
    EventStep :=
  match r.providerTurnId with
  | some bound =>
    if turnId ≠ bound then
      .stop (r.finish .indeterminate now "agent advanced beyond the correlated provider turn")
    else .next r
  | none =>
    let bind : EventStep :=
      .next { r with providerTurnId := some turnId, state := .bound, updatedAt := now }
    -- A managed app-server turn started from this request; a PTY turn must have
    -- started from its prompt.
    if r.correlation = .providerEvents then
      match event.inputSha256 with
      | some hash =>
        if hash = r.promptSha256 then bind
        else .stop (r.finish .indeterminate now
          "a different prompt started the next provider turn")
      | none => .stop (r.finish .indeterminate now
          "provider turn started without observable prompt identity")
    else bind

/-- `AgentEventKind::TurnFinal` for a turn that is not the baseline's. -/
def turnFinal (r : AgentRequest) (event : AgentEvent) (turnId : String) (now : DateTime) :
    EventStep :=
  match r.providerTurnId with
  | none =>
    -- The final of a turn that ended before the request existed.
    if event.observedAt < r.createdAt then .next r
    else .stop (r.finish .indeterminate now
      "provider turn completed without a durable start boundary")
  | some bound =>
    if turnId ≠ bound then
      .stop (r.finish .indeterminate now "agent advanced beyond the correlated provider turn")
    else if event.outcome = some "completed" then
      match event.text with
      | some message =>
        .stop { r with
          state := .completed, completedAt := some event.observedAt,
          finalMessage := some message, detail := none, updatedAt := now }
      | none => .stop (r.finish .indeterminate now
          "provider completed the correlated turn without a final assistant message")
    else
      .stop (r.finish .aborted event.observedAt "the correlated provider turn was aborted")

/-- The body of the loop over a page's events. -/
def reconcileEvent (r : AgentRequest) (event : AgentEvent) (now : DateTime) : EventStep :=
  let r := { r with reconciledEventSequence := max r.reconciledEventSequence event.sequence }
  if event.agentId ≠ r.targetAgentId ∨ event.incarnationId ≠ r.targetIncarnationId then .next r
  else
    match event.turnId with
    | none => .next r
    | some turnId =>
      if turnId = r.baselineProviderTurnId then .next r
      else
        match event.kind with
        | .turnStarted => r.turnStarted event turnId now
        | .turnFinal => r.turnFinal event turnId now
        | _ => .next r

/-- The loop: the request and whether it ran to the end of the page. -/
def reconcileEvents (r : AgentRequest) (now : DateTime) : List AgentEvent → AgentRequest × Bool
  | [] => (r, true)
  | event :: events =>
    match r.reconcileEvent event now with
    | .next r => reconcileEvents r now events
    | .stop r => (r, false)

def reconcileEventPage (r : AgentRequest) (page : AgentEventPage) (now : DateTime) :
    AgentRequest :=
  if r.state.isTerminal ∨ r.state = .registered ∨ ¬ r.correlatesFromEvents then r
  else if page.status = .cursorTooOld then
    r.finish .indeterminate now
      "durable agent event cursor expired before the correlated turn completed"
  else
    match r.reconcileEvents now page.events with
    | (r, false) => r
    | (r, true) =>
      { r with
        reconciledEventSequence :=
          max r.reconciledEventSequence (page.nextAfterSequence.getD page.latestSequence) }

end AgentRequest

end Wakterm.Agent

/-!
## The request store

`AgentRequestStore` from `mux/src/agent_request.rs`: the snapshots of return-final requests, and the
terminal event of each that has ended.
-/

namespace Wakterm.Agent

/-- A row of `agent_request`. -/
structure RequestRow where
  fingerprint : String
  snapshot : AgentRequest

/-- `AgentRequestStore`: the two tables, and the largest sequence that was given out. -/
structure AgentRequestStore where
  requests : AList fun _ : String => RequestRow
  events : List (Nat × String)
  lastSequence : Nat

def requestFingerprint (sha256 : String → String) (request : AgentRequest) : String :=
  promptSha256 sha256 (request.targetAgentId ++ "\x00" ++ request.targetSessionPath ++ "\x00" ++
    toString request.baselineCursor ++ "\x00" ++
    (if request.submissionSha256 = "" then request.promptSha256 else request.submissionSha256) ++
    "\x00" ++ toString request.submissionPaste ++ "\x00" ++ toString request.timeoutMs)

namespace AgentRequestStore

/-- A new database. -/
def empty : AgentRequestStore where
  requests := ∅
  events := []
  lastSequence := 0

/-- The row of a request ID. -/
def row (store : AgentRequestStore) (requestId : String) : Option RequestRow :=
  store.requests.lookup requestId

/-- Does the request have its terminal event? -/
def hasEvent (store : AgentRequestStore) (requestId : String) : Bool :=
  store.events.any fun event => event.2 = requestId

def eventSequence (store : AgentRequestStore) (requestId : String) : Option Nat :=
  (store.events.find? fun event => event.2 = requestId).map Prod.fst

/-- `create`: the stored request, whether it is this one, and the store. -/
def create (sha256 : String → String) (store : AgentRequestStore) (request : AgentRequest) :
    Except String (AgentRequest × Bool × AgentRequestStore) :=
  let fingerprint := requestFingerprint sha256 request
  match store.row request.requestId with
  | none =>
    .ok (request, true,
      { store with requests := store.requests.insert request.requestId ⟨fingerprint, request⟩ })
  | some row =>
    if row.fingerprint ≠ fingerprint then
      .error ("request id " ++ request.requestId ++ " was already used for different input")
    else .ok (row.snapshot, false, store)

/-- `UPDATE agent_request SET snapshot_json`, which does nothing without a row. -/
def update (store : AgentRequestStore) (request : AgentRequest) : AgentRequestStore :=
  match store.row request.requestId with
  | none => store
  | some row =>
    { store with
      requests := store.requests.insert request.requestId { row with snapshot := request } }

/-- `INSERT OR IGNORE INTO agent_request_event`. -/
def insertEvent (store : AgentRequestStore) (requestId : String) : Option AgentRequestStore :=
  if store.hasEvent requestId then some store
  else if (store.row requestId).isNone then none
  else
    some { store with
      events := store.events ++ [(store.lastSequence + 1, requestId)]
      lastSequence := store.lastSequence + 1 }

/-- `save`: the store, and the request as it was saved. -/
def save (store : AgentRequestStore) (request : AgentRequest) :
    Option (AgentRequestStore × AgentRequest) :=
  if request.state.isTerminal ∧ request.terminalEventSequence = none then
    (store.insertEvent request.requestId).map fun store =>
      let request := { request with
        terminalEventSequence := store.eventSequence request.requestId }
      (store.update request, request)
  else some (store.update request, request)

def get (store : AgentRequestStore) (requestId : String) : Option AgentRequest :=
  (store.row requestId).map RequestRow.snapshot

def deleteRegistered (store : AgentRequestStore) (requestId : String) :
    Option AgentRequestStore :=
  match store.row requestId with
  | none => some store
  | some row =>
    if row.snapshot.state = .registered then
      if store.hasEvent requestId then none
      else some { store with requests := store.requests.erase requestId }
    else some store

/-- `active`: the requests without a terminal event. -/
def active (store : AgentRequestStore) : List AgentRequest :=
  (store.requests.entries.filter fun entry => !store.hasEvent entry.1).map fun entry =>
    entry.2.snapshot

def eventsAfter (store : AgentRequestStore) (after limit : Nat) : List AgentRequest :=
  ((store.events.filter fun event => after < event.1).filterMap fun event =>
    store.get event.2).take limit

end AgentRequestStore

end Wakterm.Agent
