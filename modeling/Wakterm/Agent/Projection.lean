import Mathlib.Data.List.AList
import Wakterm.Agent.EventStore

/-!
# From observations to events

What `mux/src/agent_event.rs` does between an observation of an agent and the event store.
-/

namespace Wakterm.Agent

variable {Cursor : Type}

structure ProjectionState (Cursor : Type) where
  incarnationId : String
  lifecycle : Option String
  lifecycleGeneration : Nat
  observerError : Option String
  cursor : Option Cursor
  deriving DecidableEq

def ProjectionState.default : ProjectionState Cursor where
  incarnationId := ""
  lifecycle := none
  lifecycleGeneration := 0
  observerError := none
  cursor := none

def PendingEvent.new (sourceKey : String) (kind : AgentEventKind) (observedAt : DateTime) :
    PendingEvent where
  sourceKey := sourceKey
  kind := kind
  observedAt := observedAt
  turnId := none
  lifecycle := none
  reason := none
  turnState := none
  text := none
  outcome := none
  recoverable := none
  detail := none
  inputSha256 := none

def observerFailure (sourceKey : String) (observedAt : DateTime) (turnId : Option String)
    (detail : String) : PendingEvent :=
  { PendingEvent.new sourceKey .observerFailure observedAt with
    turnId := turnId
    recoverable := some true
    detail := some detail }

/-- `ProjectedEvents`. None of them is about the agent's lifecycle. -/
structure ProjectedEvents (Cursor : Type) where
  cursor : Cursor
  events : List PendingEvent
  not_lifecycle : ∀ event ∈ events, event.kind ≠ .agentLifecycle

/-- What `observe_agent` is told: the agent, and of its runtime snapshot what is read here.
`provider` is what the session file yields past a cursor, with the text of the error if it
cannot be read; there is none without a session path or with an unknown harness. -/
structure Observation (Cursor : Type) where
  metadata : AgentMetadata
  alive : Bool
  observedAt : DateTime
  observedTurn : Option String
  observerError : Option String
  provider : Option (Option Cursor → Except String (ProjectedEvents Cursor))

def incarnationId (sha256 : String → String) (metadata : AgentMetadata) : Option String :=
  match metadata.codexAppServer with
  | some session =>
    some (sha256 (metadata.agentId ++ "\x00codex-app-server\x00" ++ session.threadId ++ "\x00" ++
      session.sessionId))
  | none => do
      let pid ← metadata.adoptedPid
      let startTime ← metadata.adoptedStartTime
      some (sha256 (metadata.agentId ++ "\x00" ++ toString pid ++ "\x00" ++ toString startTime))

/-- The `source_key` of a lifecycle event. -/
def lifecycleKey (incarnation : String) (generation : Nat) (change : String) : String :=
  "lifecycle:" ++ incarnation ++ ":" ++ toString generation ++ ":" ++ change

def lifecycleEvent (incarnation : String) (generation : Nat) (change : String)
    (observedAt : DateTime) (lifecycle : String) (reason : Option String) : PendingEvent :=
  { PendingEvent.new (lifecycleKey incarnation generation change) .agentLifecycle observedAt with
    lifecycle := some lifecycle
    reason := reason }

/-- A new incarnation replaces the one the agent had: that one is no longer available, and
the projection starts over, but for the cursor. -/
def replaceIncarnation (state : ProjectionState Cursor) (current : String)
    (observedAt : DateTime) : ProjectionState Cursor × List (String × PendingEvent) :=
  if state.incarnationId ≠ "" ∧ state.incarnationId ≠ current then
    ({ (ProjectionState.default : ProjectionState Cursor) with cursor := state.cursor },
      [(state.incarnationId, lifecycleEvent state.incarnationId (state.lifecycleGeneration + 1)
        "unavailable:replaced" observedAt "unavailable" (some "incarnation_replaced"))])
  else (state, [])

def observedLifecycle (alive : Bool) : String := if alive then "available" else "unavailable"

/-- The lifecycle of the current incarnation, where it changed. -/
def noteLifecycle (state : ProjectionState Cursor) (current : String) (alive : Bool)
    (observedAt : DateTime) : ProjectionState Cursor × List (String × PendingEvent) :=
  let lifecycle := observedLifecycle alive
  if state.lifecycle ≠ some lifecycle then
    ({ state with
        lifecycleGeneration := state.lifecycleGeneration + 1
        lifecycle := some lifecycle },
      [(current, lifecycleEvent current (state.lifecycleGeneration + 1) lifecycle observedAt lifecycle
        (if alive then none else some "process_exited"))])
  else (state, [])

/-- What the error of a provider's projection begins with. -/
def providerFailed : String := "provider event observation failed:"

/-- The provider's events, or its error where that is a new one. -/
def noteProvider (sha256 : String → String) (state : ProjectionState Cursor) (current : String)
    (obs : Observation Cursor) : ProjectionState Cursor × List (String × PendingEvent) :=
  match obs.provider with
  | none => (state, [])
  | some project =>
    if ¬ obs.alive then (state, [])
    else
      match project state.cursor with
      | .ok projected =>
        ({ state with cursor := some projected.cursor, observerError := none },
          projected.events.map (current, ·))
      | .error err =>
        let detail := providerFailed ++ " " ++ err
        ({ state with observerError := some detail },
          if state.observerError ≠ some detail then
            [(current, observerFailure ("provider-error:" ++ sha256 detail) obs.observedAt none
              detail)]
          else [])

/-- The error of the runtime's own observer, where that is a new one. -/
def noteObserverError (sha256 : String → String) (state : ProjectionState Cursor)
    (current : String) (obs : Observation Cursor) :
    ProjectionState Cursor × List (String × PendingEvent) :=
  match obs.observerError with
  | some detail =>
    ({ state with observerError := some detail },
      if state.observerError ≠ some detail then
        [(current, observerFailure ("runtime-error:" ++ sha256 detail) obs.observedAt
          obs.observedTurn detail)]
      else [])
  | none =>
    (if state.observerError.any (fun error => !error.startsWith providerFailed) then
      { state with observerError := none }
    else state, [])

/-- The projection after an observation, and the events to insert, each with its
incarnation. -/
def observe (sha256 : String → String) (loaded : ProjectionState Cursor) (current : String)
    (obs : Observation Cursor) : ProjectionState Cursor × List (String × PendingEvent) :=
  let (state, replaced) := replaceIncarnation loaded current obs.observedAt
  let state := { state with incarnationId := current }
  let (state, changed) := noteLifecycle state current obs.alive obs.observedAt
  let (state, provided) := noteProvider sha256 state current obs
  let (state, failed) := noteObserverError sha256 state current obs
  (state, replaced ++ changed ++ provided ++ failed)

/-- The database, and the rows that retention has removed from it (which it does not keep). -/
structure AgentEventDb (Cursor : Type) where
  events : AgentEventStore
  projections : AList fun _ : String => ProjectionState Cursor
  removed : List EventRow

namespace AgentEventDb

variable (sha256 : String → String) (gap : Nat → Nat)

/-- A new database. -/
def empty : AgentEventDb Cursor := ⟨.empty, ∅, []⟩

/-- `load_projection`, with the default of an agent without one. -/
def load (db : AgentEventDb Cursor) (agentId : String) : ProjectionState Cursor :=
  (db.projections.lookup agentId).getD .default

/-- `save_projection`. -/
def save (db : AgentEventDb Cursor) (agentId : String) (state : ProjectionState Cursor) :
    AgentEventDb Cursor :=
  { db with projections := db.projections.insert agentId state }

/-- `insert_event`. SQLite gives the row the next sequence, or, past a `gap`, a later one. -/
def insert (db : AgentEventDb Cursor) (agentId incarnation : String) (pending : PendingEvent) :
    Option (AgentEventDb Cursor) :=
  let last := db.events.lastSequence
  (db.events.insertEvent sha256 ⟨agentId, incarnation, pending, last + 1 + gap last⟩).map
    fun events => { db with events := events }

/-- The pending events of an agent, in order. -/
def insertAll (db : AgentEventDb Cursor) (agentId : String) :
    List (String × PendingEvent) → Option (AgentEventDb Cursor)
  | [] => some db
  | (incarnation, event) :: rest => do
      let db ← db.insert sha256 gap agentId incarnation event
      db.insertAll agentId rest

/-- `apply_retention`. -/
def retain (db : AgentEventDb Cursor) (retentionLimit : Nat) : Option (AgentEventDb Cursor) :=
  (db.events.applyRetention retentionLimit).map fun events =>
    { db with
      events := events
      removed := db.removed ++ db.events.rows.filter (fun row => row ∉ events.rows) }

def observeAgent [DecidableEq Cursor] (retentionLimit : Nat) (db : AgentEventDb Cursor)
    (obs : Observation Cursor) : Option (AgentEventDb Cursor) :=
  let agentId := obs.metadata.agentId
  match incarnationId sha256 obs.metadata with
  | none => some db
  | some current =>
    let loaded := db.load agentId
    let (state, pending) := observe sha256 loaded current obs
    if state = loaded ∧ pending.isEmpty then some db
    else do
      let db ← db.insertAll sha256 gap agentId pending
      (db.save agentId state).retain retentionLimit

/-- The event of `record_unavailable`. -/
def unavailableEvent (state : ProjectionState Cursor) (incarnation reason : String)
    (observedAt : DateTime) : PendingEvent :=
  lifecycleEvent incarnation (state.lifecycleGeneration + 1) ("unavailable:" ++ reason) observedAt
    "unavailable" (some reason)

/-- The projection once its incarnation is unavailable. -/
def withdrawn (state : ProjectionState Cursor) : ProjectionState Cursor :=
  { state with
    lifecycleGeneration := state.lifecycleGeneration + 1
    lifecycle := some "unavailable" }

def recordUnavailable (retentionLimit : Nat) (db : AgentEventDb Cursor)
    (metadata : AgentMetadata) (observedAt : DateTime) (reason : String) :
    Option (AgentEventDb Cursor) :=
  let agentId := metadata.agentId
  match incarnationId sha256 metadata with
  | none => some db
  | some incarnation =>
    let state := db.load agentId
    if state.incarnationId = incarnation ∧ state.lifecycle ≠ some "unavailable" then do
      let db ← db.insert sha256 gap agentId incarnation
        (unavailableEvent state incarnation reason observedAt)
      (db.save agentId (withdrawn state)).retain retentionLimit
    else some db

/-- The agents that `start_runtime_epoch` finds available. -/
def stranded (state : ProjectionState Cursor) : Bool :=
  decide (state.lifecycle = some "available") && decide (state.incarnationId ≠ "")

/-- The event of `start_runtime_epoch`. -/
def restartEvent (previousLatest : Nat) (now : DateTime) (state : ProjectionState Cursor) :
    PendingEvent :=
  lifecycleEvent state.incarnationId (state.lifecycleGeneration + 1)
    ("unavailable:mux-restarted-after-" ++ toString previousLatest) now "unavailable"
    (some "mux_restarted")

/-- The loop of `start_runtime_epoch`, over the projections as they were read. -/
def restartAll (previousLatest : Nat) (now : DateTime) (db : AgentEventDb Cursor) :
    List (Sigma fun _ : String => ProjectionState Cursor) → Option (AgentEventDb Cursor)
  | [] => some db
  | ⟨agentId, state⟩ :: rest =>
    if stranded state then do
      let db ← db.insert sha256 gap agentId state.incarnationId
        (restartEvent previousLatest now state)
      restartAll previousLatest now (db.save agentId (withdrawn state)) rest
    else restartAll previousLatest now db rest

def startRuntimeEpoch (retentionLimit : Nat) (db : AgentEventDb Cursor) (now : DateTime) :
    Option (AgentEventDb Cursor) := do
  let db ← restartAll sha256 gap db.events.latestSequence now db db.projections.entries
  db.retain retentionLimit

/-- A call on the event store. -/
inductive Op (Cursor : Type) where
  | observeAgent (obs : Observation Cursor)
  | recordUnavailable (metadata : AgentMetadata) (observedAt : DateTime) (reason : String)
  | startRuntimeEpoch (now : DateTime)

variable [DecidableEq Cursor] (retentionLimit : Nat)

/-- One call. -/
def apply (db : AgentEventDb Cursor) : Op Cursor → Option (AgentEventDb Cursor)
  | .observeAgent obs => db.observeAgent sha256 gap retentionLimit obs
  | .recordUnavailable metadata observedAt reason =>
    db.recordUnavailable sha256 gap retentionLimit metadata observedAt reason
  | .startRuntimeEpoch now => db.startRuntimeEpoch sha256 gap retentionLimit now

/-- Calls one after another. -/
def run (db : AgentEventDb Cursor) : List (Op Cursor) → Option (AgentEventDb Cursor)
  | [] => some db
  | op :: ops => do
      let db ← db.apply sha256 gap retentionLimit op
      db.run ops

end AgentEventDb

end Wakterm.Agent
