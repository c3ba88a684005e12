import Wakterm.Agent.Logic.EventStream
import Wakterm.Agent.Logic.Lifecycle
import Wakterm.Agent.Logic.Turns

/-!
# The event stream has no silent gap

For every interleaving of writer transactions and page reads, a consumer that follows
`next_after_sequence` has received exactly what was committed from its start to its cursor, in the
order of the sequences.
-/

namespace Wakterm.Theorems.EventStream

open Wakterm.Agent Wakterm.Machine

/-- **No silent gap and no duplicate.** Up to some sequence the consumer has received all
that was committed past its start, once and in order. With a cursor, that is how far it
is: an event past it was not delivered yet; if it was pruned, the next page reports that
the cursor is too old; and as many more reads as there are events up to it deliver it,
unless a page reports that. A consumer without a cursor was told so by its last page,
when an event that it had not read was pruned. -/
theorem delivered_once_in_order (sha256 : String → String) (start : Nat) (ops : List StreamOp)
    (w : Stream) (hrun : (Stream.start start).run sha256 ops = some w) :
    ∃ upto,
      w.delivered = window AgentEvent.sequence w.committed start upto ∧
      Increasing AgentEvent.sequence w.delivered ∧
      (∀ event ∈ w.committed, start < event.sequence → event.sequence ≤ upto →
        w.delivered.count event = 1) ∧
      match w.cursor with
      | some cursor =>
        upto = cursor ∧
        ∀ event ∈ w.committed, cursor < event.sequence →
          w.delivered.count event = 0 ∧
          (event ∉ w.available →
            ∀ limit, (w.store.readPage cursor limit).status = .cursorTooOld) ∧
          ∀ more w', w.run sha256 more = some w' →
            (window AgentEvent.sequence w.committed cursor event.sequence).length ≤
              Stream.reads more →
            w'.delivered.count event = 1 ∨
              ∃ page, w'.pages.getLast? = some page ∧ page.status = .cursorTooOld
      | none =>
        (∃ page, w.pages.getLast? = some page ∧ page.status = .cursorTooOld ∧
          page.requestedAfterSequence = upto) ∧
        ∃ event ∈ w.committed, upto < event.sequence ∧ event ∉ w.available := by
  have hinv := (Stream.inv_start start).run hrun
  have hconsumer := hinv.consumer
  unfold Stream.Consumer at hconsumer
  cases hcursor : w.cursor with
  | none =>
    rw [hcursor] at hconsumer
    obtain ⟨cursor, hread, hold⟩ := hconsumer
    refine ⟨cursor, hread.delivered_eq, ?_, ?_, hold.last_page, ?_⟩
    · rw [hread.delivered_eq]
      exact hinv.increasing.window start cursor
    · intro event hmem hlt hle
      exact hread.count_eq_one hinv hmem hlt hle
    · obtain ⟨event, hmem, hlt, hle⟩ := hold.pruned
      refine ⟨event, hmem, hlt, ?_⟩
      rw [hinv.available_eq, mem_past]
      omega
  | some cursor =>
    rw [hcursor] at hconsumer
    refine ⟨cursor, hconsumer.delivered_eq, ?_, ?_, rfl, ?_⟩
    · rw [hconsumer.delivered_eq]
      exact hinv.increasing.window start cursor
    · intro event hmem hlt hle
      exact hconsumer.count_eq_one hinv hmem hlt hle
    intro event hmem hpast
    have hlt := Nat.lt_of_le_of_lt hconsumer.start_le hpast
    refine ⟨hconsumer.count_eq_zero hpast, hinv.tooOld_of_pruned hmem hpast, ?_⟩
    intro more w' hmore hreads
    have hinv' := hinv.run hmore
    have hconsumer' := hinv'.consumer
    unfold Stream.Consumer at hconsumer'
    have hahead : w.ahead event =
        (window AgentEvent.sequence w.committed cursor event.sequence).length := by
      unfold Stream.ahead
      rw [hcursor]
    cases hcursor' : w'.cursor with
    | none =>
      rw [hcursor'] at hconsumer'
      obtain ⟨_, _, hold⟩ := hconsumer'
      obtain ⟨page, hpage, hstatus, _⟩ := hold.last_page
      exact .inr ⟨page, hpage, hstatus⟩
    | some cursor' =>
      rw [hcursor'] at hconsumer'
      left
      rcases hinv.ahead_run hmore hmem with hnone | ⟨hmem', hle⟩
      · rw [hcursor'] at hnone
        cases hnone
      apply hconsumer'.count_eq_one hinv' hmem' hlt
      -- Nothing is ahead of the consumer any more, so not the event either.
      have hzero : w'.ahead event = 0 := by omega
      unfold Stream.ahead at hzero
      rw [hcursor'] at hzero
      have hnil := List.eq_nil_of_length_eq_zero hzero
      by_contra hgt
      have : event ∈ window AgentEvent.sequence w'.committed cursor' event.sequence :=
        mem_window.mpr ⟨hmem', Nat.lt_of_not_le hgt, Nat.le_refl _⟩
      rw [hnil] at this
      cases this

/-- A turn's first event, for agent `a`. -/
def turnStarted (sourceKey : String) (rowid : Nat) : Insertion where
  agentId := "a"
  incarnationId := "i"
  rowid := rowid
  pending :=
    { sourceKey := sourceKey
      kind := .turnStarted
      observedAt := 0
      turnId := some sourceKey
      lifecycle := none
      reason := none
      turnState := none
      text := none
      outcome := none
      recoverable := none
      detail := none
      inputSha256 := none }

/-- A consumer reads two of three events, one page each, while a writer prunes behind it. -/
def followed : List StreamOp :=
  [.commit [turnStarted "t1" 1, turnStarted "t2" 2] none, .read 1,
    .commit [turnStarted "t3" 5] (some 2), .read 1]

theorem delivered_once_in_order_followed : ∃ w, (Stream.start 0).run id followed = some w ∧
      w.delivered.map AgentEvent.sequence = [1, 2] ∧
      Increasing AgentEvent.sequence w.delivered := by
  have hsome : ((Stream.start 0).run id followed).isSome := by rfl
  refine ⟨_, (Option.some_get hsome).symm, by rfl, ?_⟩
  obtain ⟨_, _, hinc, _⟩ := delivered_once_in_order id 0 followed _ (Option.some_get hsome).symm
  exact hinc

/-- A writer prunes the first of two events before the consumer reads. -/
def overtaken : List StreamOp :=
  [.commit [turnStarted "t1" 1, turnStarted "t2" 2] (some 1), .read 10]

/-- An event can stay unread without being pruned: behind one that was, it is not
delivered to a consumer whose cursor is too old. -/
theorem unpruned_event_withheld :
    ∃ w event, (Stream.start 0).run id overtaken = some w ∧ event ∈ w.committed ∧
      0 < event.sequence ∧ event ∈ w.available ∧
      ∀ more w', w.run id more = some w' → w'.delivered.count event = 0 := by
  have hsome : ((Stream.start 0).run id overtaken).isSome := by rfl
  have hrun := (Option.some_get hsome).symm
  refine ⟨_, (turnStarted "t2" 2).event id, hrun, ?_, by decide, ?_, ?_⟩
  · exact List.mem_cons_of_mem _ (List.mem_cons_self ..)
  · exact List.mem_cons_self ..
  · intro more w' hmore
    have hinv := (Stream.inv_start 0).run hrun
    rw [(hinv.run_of_cursor_none rfl hmore).2]
    rfl

end Wakterm.Theorems.EventStream

/-!
## The lifecycle of an agent, stored and projected

Over every sequence of observations, reports of unavailability and restarts of the mux.
-/

namespace Wakterm.Theorems.Lifecycle

open Wakterm.Agent

variable {Cursor : Type} [DecidableEq Cursor] {sha256 : String → String} {gap : Nat → Nat}
  {retentionLimit : Nat}

/-- **The stored lifecycle tracks the projection.** In every run whose calls record the
lifecycle events of the agent under new keys: while none of the agent's events was pruned, the
latest lifecycle event stored for its current incarnation carries the lifecycle that the
projection records. -/
theorem lifecycle_tracked (hsha : ∀ text, sha256 text ≠ "") {agentId : String}
    {ops : List (AgentEventDb.Op Cursor)} {db : AgentEventDb Cursor}
    (hnew : AgentEventDb.NewKeys sha256 gap retentionLimit agentId .empty ops)
    (hrun : AgentEventDb.empty.run sha256 gap retentionLimit ops = some db)
    {state : ProjectionState Cursor} (hstate : db.projections.lookup agentId = some state)
    (hunpruned : db.Unpruned agentId) :
    ∃ event, (db.lifecycles agentId state.incarnationId).getLast? = some event ∧
      event.lifecycle = state.lifecycle :=
  (((AgentEventDb.tracks_empty agentId).run hsha hnew hrun) state hstate).2 hunpruned

/-! ### An agent that returns to an earlier session -/

def shownDigest (text : String) : String := "#" ++ text

/-- An agent with a session of Codex's app server. -/
def agentOn (thread : String) : AgentMetadata where
  agentId := "agent"
  name := "agent"
  adoptedPid := none
  adoptedStartTime := none
  codexAppServer := some ⟨thread, "session"⟩

/-- The agent is seen alive on a thread. -/
def seenOn (thread : String) : AgentEventDb.Op Unit :=
  .observeAgent
    { metadata := agentOn thread
      alive := true
      observedAt := 0
      observedTurn := none
      observerError := none
      provider := none }

/-- The agent leaves a thread for another, the mux restarts, and the agent is seen again. -/
theorem lifecycle_tracked_restart : ∃ db ∈ AgentEventDb.empty.run shownDigest (fun _ => 0) 1000
        [seenOn "a", .recordUnavailable (agentOn "a") 1 "closed", seenOn "a", seenOn "b",
          .startRuntimeEpoch 2, seenOn "b"], ∃ state ∈ db.projections.lookup "agent",
        ∃ event, (db.lifecycles "agent" state.incarnationId).getLast? = some event ∧
          event.lifecycle = state.lifecycle := by
  have hex : ∃ db ∈ AgentEventDb.empty.run shownDigest (fun _ => 0) 1000
        [seenOn "a", .recordUnavailable (agentOn "a") 1 "closed", seenOn "a", seenOn "b",
          .startRuntimeEpoch 2, seenOn "b"],
      ∃ state ∈ db.projections.lookup "agent", db.Unpruned "agent" := by
    decide +kernel
  obtain ⟨db, hrun, state, hstate, hunpruned⟩ := hex
  refine ⟨db, hrun, state, hstate, ?_⟩
  refine lifecycle_tracked ?_ (by decide) hrun hstate hunpruned
  intro text h
  have := congrArg String.length h
  simp [shownDigest] at this

/-- An agent leaves a thread and returns to it: the projection says that it is available, and
the latest event stored for its incarnation says that it is not. -/
theorem returned_session_untracked : ∃ db ∈ AgentEventDb.empty.run shownDigest (fun _ => 0) 1000
        [seenOn "a", seenOn "b", seenOn "a"], ∃ state ∈ db.projections.lookup "agent",
        ∃ event ∈ (db.lifecycles "agent" state.incarnationId).getLast?,
          db.Unpruned "agent" ∧ state.lifecycle = some "available" ∧
            event.lifecycle = some "unavailable" := by
  decide +kernel

end Wakterm.Theorems.Lifecycle

/-!
## The turns of Muse and agy

For every sequence of records. agy's turns are bracketed whatever the records.
-/

namespace Wakterm.Theorems.Turns

open Wakterm.Agent

/-- **Turn bracketing.** From a cursor without an open turn, the events of a sequence of Muse
records are bracketed if and only if none of them is the end of a steered run that is read with
no turn open and nothing queued. The events of a sequence of agy records always are. -/
theorem bracketed_iff_noStray (env : Env) (approvable : Bool) {c : JsonlCursor}
    (hc : c.turnOpen = false) (records : List (DateTime × Nat × Json)) :
    (Bracketed ((museVisit env approvable).run c records).2 ↔ NoStray env approvable c records) ∧
      Bracketed ((agyVisit env).run c records).2 := by
  have hstart : Turns c.openTurn [] := by
    rw [openTurn_of_closed hc]
    exact turns_nil
  refine ⟨⟨?_, ?_⟩, ?_⟩
  · intro h
    exact noStray_of_named env approvable fun e he hkind => h.named he hkind
  · intro hnone
    refine (Turns.run (NoStray env approvable) ?_ ?_ hnone hstart).bracketed
    · intro c now offset record rest h
      exact h.2
    · intro c events now offset record rest h hturns
      exact turns_museVisit env approvable c now offset record h.1 hturns
  · refine (Turns.run (fun _ _ => True) ?_ ?_ trivial hstart).bracketed
    · intro c now offset record rest _
      trivial
    · intro c events now offset record rest _ hturns
      exact turns_agyVisit env c now offset record hturns

/-! ### A run that outlives its turn -/

/-- Digests and times are of no concern here. -/
def plainEnv : Env where
  sha256 := fun _ => "digest"
  fromSlice := fun _ => none
  print := fun _ => ""
  parseTime := fun _ => none
  timestampMicros := fun _ => none

/-- A cursor at the start of a session. -/
def freshCursor : JsonlCursor where
  sourceId := "session"
  offset := 0
  checkpointSha256 := "digest"
  currentTurnId := none
  lastAssistantText := none
  turnOpen := false
  pendingTurnStart := none
  turnBeforeGap := none
  armedAt := none
  lastRecordAt := none
  steerRuns := []
  queuedSteers := []

def inputRecord (intentId : String) : Json :=
  .obj [("payload_type", .str "runtime.user_intent.accepted"),
    ("payload", .obj [("intent_id", .str intentId), ("model_messages", .arr [])])]

def runRecord (runId : String) (fields event : List (String × Json)) : Json :=
  .obj [("payload_type", .str "runtime.session"),
    ("payload", .obj ([("kind", .str "run"), ("run_id", .str runId), ("event", .obj event)] ++
      fields))]

/-- Input that is queued for a run. -/
def queuedRecord (runId itemId : String) : Json :=
  runRecord runId [("source_run_record_id", .str itemId)]
    [("kind", .str "inbox_item_queued"), ("source", .obj [("source", .str "user_steer")])]

/-- Queued input that is handed to a run. -/
def drainedRecord (runId itemId : String) : Json :=
  runRecord runId [] [("kind", .str "inbox_item_drained"), ("item_id", .str itemId)]

/-- The end of a run. -/
def terminalRecord (runId : String) : Json :=
  runRecord runId [] [("kind", .str "terminal"), ("terminal", .str "completed")]

/-- A turn with input that a second run answers; both runs end, the second one last. -/
def steeredTurn : List (DateTime × Nat × Json) :=
  [(0, 0, inputRecord "a"), (0, 1, queuedRecord "a" "item"), (0, 2, drainedRecord "b" "item"),
    (0, 3, terminalRecord "a"), (0, 4, terminalRecord "b")]

/-- Up to the end of its own run the turn is bracketed. -/
theorem bracketed_iff_noStray_steered :
    Bracketed ((museVisit plainEnv true).run freshCursor (steeredTurn.take 4)).2 :=
  (bracketed_iff_noStray plainEnv true rfl _).1.mpr (by decide)

/-- The end of the steered run, after the turn was closed, is a final of no turn. -/
theorem steered_run_unbracketed : freshCursor.turnOpen = false ∧
      (∃ e ∈ ((museVisit plainEnv true).run freshCursor steeredTurn).2,
        e.kind = .turnFinal ∧ e.turnId = none) ∧
      ¬ Bracketed ((museVisit plainEnv true).run freshCursor steeredTurn).2 := by
  have hstray : ∃ e ∈ ((museVisit plainEnv true).run freshCursor steeredTurn).2,
      e.kind = .turnFinal ∧ e.turnId = none := by
    decide
  refine ⟨rfl, hstray, ?_⟩
  intro h
  obtain ⟨e, he, hkind, hnone⟩ := hstray
  exact h.named he hkind hnone

end Wakterm.Theorems.Turns
