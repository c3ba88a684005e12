import Mathlib.Data.Int.Notation
import Wakterm.Machine.Window

/-!
# Agents and their events

The records of `mux/src/agent.rs` and `mux/src/agent_event.rs` that requests, admissions and the
event store pass around, with the fields those read.
-/

namespace Wakterm.Agent

/-- `DateTime<Utc>`. -/
abbrev DateTime : Type := Int

inductive AgentHarness where
  | unknown | agy | claude | codex | gemini | opencode | zcode | devin | muse
  deriving DecidableEq

inductive AgentTransport where
  | plainPty | observedPty | codexAppServerTui
  deriving DecidableEq

inductive AgentTurnState where
  | unknown | waitingOnAgent | waitingOnUser
  deriving DecidableEq

structure CodexAppServerSession where
  threadId : String
  sessionId : String
  deriving DecidableEq

structure AgentMetadata where
  agentId : String
  name : String
  adoptedPid : Option Nat
  adoptedStartTime : Option Nat
  codexAppServer : Option CodexAppServerSession
  deriving DecidableEq

/-- `AgentRuntimeSnapshot`; of the observed turn, its provider's id. -/
structure AgentRuntimeSnapshot where
  harness : AgentHarness
  transport : AgentTransport
  turnState : AgentTurnState
  alive : Bool
  observedTurn : Option String
  sessionPath : Option String

inductive AgentEventKind where
  | agentLifecycle | turnStarted | turnStateChanged | plan | assistantMessage | observerFailure
  | turnFinal | approvalRequested | inputAccepted
  deriving DecidableEq

structure AgentEvent where
  sequence : Nat
  eventId : String
  kind : AgentEventKind
  agentId : String
  incarnationId : String
  observedAt : DateTime
  turnId : Option String
  lifecycle : Option String
  reason : Option String
  turnState : Option String
  text : Option String
  outcome : Option String
  recoverable : Option Bool
  detail : Option String
  inputSha256 : Option String
  deriving DecidableEq

inductive AgentEventStatus where
  | ok | cursorTooOld
  deriving DecidableEq

structure AgentEventRecovery where
  kind : String
  catalogAsOfSequence : Nat

structure AgentEventPage where
  status : AgentEventStatus
  requestedAfterSequence : Nat
  oldestAvailableSequence : Nat
  latestSequence : Nat
  nextAfterSequence : Option Nat
  events : List AgentEvent
  recovery : Option AgentEventRecovery

end Wakterm.Agent

/-!
## The event store

The durable event stream of `mux/src/agent_event.rs`.
-/

namespace Wakterm.Agent

open Wakterm.Machine

structure PendingEvent where
  sourceKey : String
  kind : AgentEventKind
  observedAt : DateTime
  turnId : Option String
  lifecycle : Option String
  reason : Option String
  turnState : Option String
  text : Option String
  outcome : Option String
  recoverable : Option Bool
  detail : Option String
  inputSha256 : Option String
  deriving DecidableEq

/-- A call of `insert_event`, and the `sequence` that SQLite has for a row it adds. -/
structure Insertion where
  agentId : String
  incarnationId : String
  pending : PendingEvent
  rowid : Nat

def Insertion.eventKey (ins : Insertion) : String :=
  ins.agentId ++ "\x00" ++ ins.incarnationId ++ "\x00" ++ ins.pending.sourceKey

/-- The event as `insert_event` leaves it in the table. -/
def Insertion.event (sha256 : String → String) (ins : Insertion) : AgentEvent where
  sequence := ins.rowid
  eventId := sha256 ins.eventKey
  kind := ins.pending.kind
  agentId := ins.agentId
  incarnationId := ins.incarnationId
  observedAt := ins.pending.observedAt
  turnId := ins.pending.turnId
  lifecycle := ins.pending.lifecycle
  reason := ins.pending.reason
  turnState := ins.pending.turnState
  text := ins.pending.text
  outcome := ins.pending.outcome
  recoverable := ins.pending.recoverable
  detail := ins.pending.detail
  inputSha256 := ins.pending.inputSha256

/-- A row of `agent_event_v1`. Its `sequence` is repeated in the record. -/
structure EventRow where
  eventKey : String
  record : AgentEvent
  deriving DecidableEq

def EventRow.sequence (row : EventRow) : Nat := row.record.sequence

/-- The database: the events in the order of their sequence, the largest sequence that
was ever given out, and the `pruned_through_sequence` of the meta table. -/
structure AgentEventStore where
  rows : List EventRow
  lastSequence : Nat
  prunedThroughSequence : Option Nat
  sorted : Increasing EventRow.sequence rows
  le_last : ∀ row ∈ rows, row.sequence ≤ lastSequence

namespace AgentEventStore

/-- A new database. -/
def empty : AgentEventStore where
  rows := []
  lastSequence := 0
  prunedThroughSequence := none
  sorted := List.Pairwise.nil
  le_last := by simp

/-- Does a row hold this event already? -/
def hasKey (store : AgentEventStore) (eventKey : String) : Bool :=
  store.rows.any fun row => row.eventKey = eventKey

/-- `insert_event`: `INSERT OR IGNORE`, and the new row's sequence in its record. There is
no outcome with a sequence that is not larger than all before. -/
def insertEvent (sha256 : String → String) (store : AgentEventStore) (ins : Insertion) :
    Option AgentEventStore :=
  if store.hasKey ins.eventKey then some store
  else if h : store.lastSequence < ins.rowid then
    some {
      rows := store.rows ++ [⟨ins.eventKey, ins.event sha256⟩]
      lastSequence := ins.rowid
      prunedThroughSequence := store.prunedThroughSequence
      sorted := store.sorted.concat fun row hrow => by
        have := store.le_last row hrow
        show row.sequence < ins.rowid
        omega
      le_last := by
        intro row hrow
        rcases List.mem_append.mp hrow with hrow | hrow
        · have := store.le_last row hrow
          omega
        · rw [List.mem_singleton] at hrow
          subst hrow
          exact Nat.le_refl ins.rowid }
  else none

/-- `DELETE FROM agent_event_v1 WHERE sequence <= cutoff`, and the mark it leaves. -/
def deleteThrough (store : AgentEventStore) (cutoff : Nat) : AgentEventStore where
  rows := past EventRow.sequence store.rows cutoff
  lastSequence := store.lastSequence
  prunedThroughSequence :=
    some (match store.prunedThroughSequence with
      | none => cutoff
      | some value => max value cutoff)
  sorted := store.sorted.past cutoff
  le_last := fun row hrow => store.le_last row (mem_past.mp hrow).1

def applyRetention (store : AgentEventStore) (retentionLimit : Nat) : Option AgentEventStore :=
  let count := store.rows.length
  if count ≤ retentionLimit then some store
  else
    let remove := count - retentionLimit
    match store.rows[remove - 1]? with
    | none => none
    | some row => some (store.deleteThrough row.sequence)

/-- `latest_sequence`: `COALESCE(MAX(sequence), 0)`. -/
def latestSequence (store : AgentEventStore) : Nat :=
  (store.rows.getLast?.map EventRow.sequence).getD 0

/-- `MIN(sequence)`, or what follows the latest in an empty table. -/
def oldestSequence (store : AgentEventStore) : Nat :=
  (store.rows.head?.map EventRow.sequence).getD (store.latestSequence + 1)

/-- `pruned_through_sequence`, where no row of the meta table means 0. -/
def prunedThrough (store : AgentEventStore) : Nat := store.prunedThroughSequence.getD 0

/-- `read_page_from_snapshot`. -/
def readPage (store : AgentEventStore) (afterSequence limit : Nat) : AgentEventPage :=
  if afterSequence < store.prunedThrough then
    { status := .cursorTooOld
      requestedAfterSequence := afterSequence
      oldestAvailableSequence := store.oldestSequence
      latestSequence := store.latestSequence
      nextAfterSequence := none
      events := []
      recovery := some { kind := "catalog_snapshot", catalogAsOfSequence := store.latestSequence } }
  else
    let events :=
      ((past EventRow.sequence store.rows afterSequence).take (min (max limit 1) 1000)).map
        EventRow.record
    { status := .ok
      requestedAfterSequence := afterSequence
      oldestAvailableSequence := store.oldestSequence
      latestSequence := store.latestSequence
      nextAfterSequence := some (nextCursor AgentEvent.sequence events afterSequence)
      events := events
      recovery := none }

end AgentEventStore

end Wakterm.Agent
