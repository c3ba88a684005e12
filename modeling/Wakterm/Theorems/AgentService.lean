import Wakterm.Agent.Logic.AtMostOnce
import Wakterm.Agent.Logic.Schedule
import Wakterm.Machine.Utf8

/-!
# Durable outcomes of agent requests

`save` overwrites the snapshot of a request whatever is stored, and admissions, watchers and the
recovery save copies that they loaded earlier.
-/

namespace Wakterm.Theorems.AgentService

open Wakterm.Agent

/-- **No terminal update is lost** in a run, over any interleaving of attempts, watchers,
crashes and recoveries, in which every save finds the request not ended: a terminal snapshot
that was saved has its event and is still there later, and every request that `events_after`
returns is terminal. -/
theorem terminal_snapshot_kept (sha256 : List UInt8 → String) (before after : List Action)
    (s s' : Service) (hbefore : Service.empty.run sha256 before = some s)
    (hafter : s.run sha256 after = some s')
    (hlive : Service.RunSavesLive sha256 Service.empty before)
    (hlive' : Service.RunSavesLive sha256 s after) :
    (∀ id request, s.stores.requests.get id = some request → request.state.isTerminal = true →
      s.stores.requests.hasEvent id = true ∧ s'.stores.requests.get id = some request) ∧
    ∀ cursor limit, ∀ request ∈ s'.stores.requests.eventsAfter cursor limit,
      request.state.isTerminal = true := by
  have hinv := Service.inv_empty.run hlive hbefore
  have hinv' := hinv.run hlive' hafter
  refine ⟨?_, ?_⟩
  · intro id request hget hterminal
    exact ⟨hinv.sound.settled id request hget hterminal,
      Service.get_run_of_terminal hlive' hafter hget hterminal⟩
  · intro cursor limit request hmem
    obtain ⟨id, hget, hevent⟩ := AgentRequestStore.mem_eventsAfter hmem
    obtain ⟨stored, hstored, hterminal⟩ := hinv'.sound.event id hevent
    rw [hget] at hstored
    cases hstored
    exact hterminal

/-- A return-final prompt for agent `a`. -/
def ask : AgentPromptAdmissionRequest where
  requestId := "r"
  agentId := "a"
  incarnationId := "i"
  prompt := "do work"
  paste := false
  returnFinal := true
  timeoutMs := 0

/-- The idle agent `a`. -/
def idleAgent : AgentAdmissionCandidate where
  paneId := 7
  metadata :=
    { agentId := "a"
      name := "zola"
      adoptedPid := some 42
      adoptedStartTime := some 99
      codexAppServer := none }
  runtime :=
    { harness := .codex
      transport := .observedPty
      turnState := .waitingOnUser
      alive := true
      observedTurn := none
      sessionPath := some "/sessions/exact.jsonl" }
  eventSequence := 0
  eventStreamLive := true

/-- Attempt 0 registers its request. -/
def registered : List Action :=
  [.serve, .arrive 0 ask, .enter 0, .admitPrompt 0 (.lookup none),
    .admitPrompt 0 (.propose idleAgent 0 0 none)]

/-- It writes the prompt and keeps that it did. -/
def submitted : List Action :=
  [.admitPrompt 0 (.write .written), .admitPrompt 0 (.submit .submitted),
    .admitPrompt 0 (.record 3 none)]

/-- A page without events. -/
def noEvents : AgentEventPage where
  status := .ok
  requestedAfterSequence := 0
  oldestAvailableSequence := 1
  latestSequence := 0
  nextAfterSequence := some 0
  events := []
  recovery := none

/-- `cancel_agent_request` from beginning to end. -/
def cancelled : List Action :=
  [.reconcile 0 1 (some "r"), .watch 0 (.next none none [noEvents]), .watch 0 .load,
    .watch 0 (.cancel 2)]

/-- Cancelled after its submission, a request stays cancelled over a restart. -/
theorem terminal_snapshot_kept_cancelled : ∃ s s' request,
      Service.empty.run (fun _ => "0") (registered ++ submitted ++ cancelled) = some s ∧
      s.run (fun _ => "0") [.crash, .serve] = some s' ∧
      s.stores.requests.get "r" = some request ∧ request.state = .cancelled ∧
      s'.stores.requests.get "r" = some request := by
  have hsome : (Service.empty.run (fun _ => "0")
    (registered ++ submitted ++ cancelled)).isSome := by rfl
  have hrun := (Option.some_get hsome).symm
  refine ⟨_, _, _, hrun, rfl, rfl, rfl, ?_⟩
  -- A restart saves nothing.
  have hrestart : Service.RunSavesLive (fun _ => "0") (Option.get _ hsome) [.crash, .serve] :=
    ⟨fun _ h => (nomatch h), fun _ _ => ⟨fun _ h => (nomatch h), fun _ _ => trivial⟩⟩
  have hkept := terminal_snapshot_kept (fun _ => "0") _ [.crash, .serve] _ _ hrun rfl
    (by decide) hrestart
  exact (hkept.1 "r" _ rfl rfl).2

/-- A cancellation that lands between the registration and the submission: the admission then
saves its own copy over the cancelled one, and `events_after` returns a request that has not
ended. -/
theorem cancellation_overwritten :
    ∃ s s' request request', Service.empty.run (fun _ => "0") (registered ++ cancelled) = some s ∧
      s.run (fun _ => "0") submitted = some s' ∧
      s.stores.requests.get "r" = some request ∧ request.state.isTerminal = true ∧
      s'.stores.requests.get "r" = some request' ∧ request'.state.isTerminal = false ∧
      request' ∈ s'.stores.requests.eventsAfter 0 10 := by
  have hsome : (Service.empty.run (fun _ => "0") (registered ++ cancelled)).isSome := by rfl
  refine ⟨_, _, _, _, (Option.some_get hsome).symm, rfl, rfl, rfl, rfl, rfl, ?_⟩
  exact List.mem_cons_self ..

/-! ## At most one write -/

/-- **A prompt is written at most once**, over any interleaving of attempts, watchers, crashes
and recoveries in which the attempts for its request ID agree on `return_final`: between two
writes, the attempt that made the first one ended with the definitive outcome that the prompt
was not written. -/
theorem written_once (sha256 : List UInt8 → String) (actions : List Action) (s : Service)
    (hrun : Service.empty.run sha256 actions = some s) (id : String) (returnFinal : Bool)
    (hagree : ∀ k request, .arrive k request ∈ actions → request.requestId = id →
      request.returnFinal = returnFinal) (before between after : List ServiceEvent) (j k : Nat)
    (hwrites : s.history = before ++ .wrote id j :: between ++ .wrote id k :: after) :
    ∃ receipt, .ended id j receipt ∈ between ∧ receipt.definitive = true ∧
      receipt.promptWritten = some false := by
  have hinv := (Service.atMostOnce_empty id returnFinal).run hagree hrun
  obtain ⟨event, hmem, receipt, rfl, hdefinitive, hwritten⟩ := hinv.once.between hwrites
  exact ⟨receipt, hmem, hdefinitive, hwritten⟩

/-- Attempt `k` of a one-way prompt until the prompt is in the pane. -/
def typed (k : Nat) : List Action :=
  [.arrive k { ask with returnFinal := false }, .enter k, .admitPrompt k (.lookup none),
    .admitPrompt k (.propose idleAgent 0 0 none), .admitPrompt k (.write .written)]

/-- Attempt 0 takes its prompt back, and attempt 1 writes it. -/
def writtenAgain : List Action :=
  [.serve] ++ typed 0 ++
    [.admitPrompt 0 (.submit .takenBack), .admitPrompt 0 (.release none)] ++ typed 1

/-- A prompt that was taken back is written again. -/
theorem written_once_takenBack :
    ∃ s receipt, Service.empty.run (fun _ => "0") writtenAgain = some s ∧
      s.history = [.wrote "r" 0, .ended "r" 0 receipt, .wrote "r" 1] ∧
      receipt.definitive = true ∧ receipt.promptWritten = some false := by
  have hsome : (Service.empty.run (fun _ => "0") writtenAgain).isSome := by rfl
  have hrun := (Option.some_get hsome).symm
  have hagree : ∀ k request, .arrive k request ∈ writtenAgain → request.requestId = "r" →
      request.returnFinal = false := by
    intro k request hmem _
    simp only [writtenAgain, typed, List.mem_append, List.mem_cons, List.not_mem_nil,
      Action.arrive.injEq, reduceCtorEq, or_false, false_or] at hmem
    rcases hmem with ⟨_, rfl⟩ | ⟨_, rfl⟩ <;> rfl
  refine ⟨_, Rejection.takenBack.receipt { ask with returnFinal := false }, hrun, rfl, ?_⟩
  obtain ⟨receipt, hmem, hdefinitive, hwritten⟩ := written_once (fun _ => "0") _ _ hrun "r" false
    hagree [] [.ended "r" 0 (Rejection.takenBack.receipt { ask with returnFinal := false })] []
    0 1 rfl
  rw [List.mem_singleton] at hmem
  cases hmem
  exact ⟨hdefinitive, hwritten⟩

/-- A one-way attempt from beginning to end, and a return-final one until it has written. -/
def mixed : List Action :=
  [.serve] ++ typed 0 ++
    [.admitPrompt 0 (.submit .submitted), .admitPrompt 0 (.confirm (.recorded false none)),
      .admitPrompt 0 (.record 3 none), .arrive 1 ask, .enter 1, .admitPrompt 1 (.lookup none),
      .admitPrompt 1 (.propose idleAgent 4 4 none), .admitPrompt 1 (.write .written)]

/-- A one-way attempt is accepted, and a return-final attempt for the same request ID writes
the prompt again. -/
theorem written_twice : ∃ s receipt, Service.empty.run (fun _ => "0") mixed = some s ∧
      s.history = [.wrote "r" 0, .ended "r" 0 receipt, .wrote "r" 1] ∧
      receipt.status = .accepted ∧ receipt.definitive = true ∧
      receipt.promptWritten = some true := by
  have hsome : (Service.empty.run (fun _ => "0") mixed).isSome := by rfl
  exact ⟨_, .accepted { ask with returnFinal := false } none, (Option.some_get hsome).symm, rfl,
    rfl, rfl, rfl⟩

end Wakterm.Theorems.AgentService

/-!
## When a session file is observed

A provider's log may be observed at any time, with a record cut at any byte.
-/

namespace Wakterm.Theorems.Schedule

open Wakterm.Agent Wakterm.Machine

/-- **Observation in pieces.** From a new cursor, whatever is appended and wherever the
observations cut it, they report the events of a single observation of the whole file, but for
the times of these, and leave its cursor, but for the time of a waiting turn start. The cursors
are the same where each start of a Codex task has a time; agy and Muse have no waiting starts. -/
theorem observations_agree (env : Env) (p : Provider) (pathId : String) {file : List UInt8}
    {c : JsonlCursor} {armed : DateTime} {before : Nat → DateTime}
    (hc : project env p pathId armed before file none = some (c, [])) (glances : List Glance)
    (hkeeps : KeepsSession env p pathId file c glances) (now : DateTime) (clock : Nat → DateTime) :
    ∃ pieces whole, observeAll env p pathId file c glances = some pieces ∧
      project env p pathId now clock (file ++ appended glances) (some (p, c)) = some whole ∧
      pieces.2.map PendingEvent.timeless = whole.2.map PendingEvent.timeless ∧
      pieces.1.timeless = whole.1.timeless ∧
      ((p = .codex → ∀ line ∈ newLines (file ++ appended glances) c.offset, ∀ record,
          env.fromSlice line = some record → startsTask record → (recordTime env record).isSome) →
        pieces.1 = whole.1) := by
  obtain ⟨hfollows, -⟩ := follows_project_none hc
  have hid := hkeeps glances (List.prefix_refl _)
  have hinside : c.offset ≤ (file ++ appended glances).length := by
    rw [List.length_append]
    exact Nat.le_trans hfollows.inside (Nat.le_add_right _ _)
  have hcheck : c.checkpointSha256 = checkpointSha256 env (file ++ appended glances) c.offset := by
    rw [checkpointSha256_append hfollows.inside]
    exact hfollows.checkpoint
  have hrefl : Alike (fun s s' => s.timeless = s'.timeless) c c := by
    refine Alike.refl ?_ c
    intro s
    rfl
  obtain ⟨pieces, hpieces, hlast, hread⟩ := observeAll_alike (p.respects_timeless env) hfollows
    hkeeps (fun _ _ _ _ => trivial) hrefl clock
  refine ⟨pieces, _, hpieces, project_kept hid hinside hcheck now clock, hread.2,
    hlast.timeless_eq hread.1, ?_⟩
  intro htimed
  -- the same observations again, now with the times in view
  obtain ⟨pieces', hpieces', hlast', hread'⟩ := observeAll_alike (p.respects_eq env) hfollows
    hkeeps (fun line hline record hrecord hp => htimed hp line hline record hrecord)
    (Alike.refl (fun _ => rfl) c) clock
  have hpieces_eq : pieces = pieces' := Option.some.inj (hpieces.symm.trans hpieces')
  rw [hpieces_eq]
  exact hlast'.eq hread'.1

/-! ### Codex sessions -/

/-- A session record, the start of a task and its end, as Codex writes them. -/
def sessionRecord (id : String) : Json := .obj [("payload", .obj [("id", .str id)])]

def startedRecord : Json :=
  .obj [("type", .str "event_msg"), ("ordinal", .int 1),
    ("payload", .obj [("type", .str "task_started"), ("turn_id", .str "t")])]

def completeRecord : Json :=
  .obj [("type", .str "event_msg"), ("ordinal", .int 2),
    ("payload", .obj [("type", .str "task_complete"), ("turn_id", .str "t")])]

/-- The records as they stand in the file. -/
def sessionText (id : String) : String :=
  "\x7b\"payload\":\x7b\"id\":\"" ++ id ++ "\"\x7d\x7d"

def startedText : String :=
  "\x7b\"type\":\"event_msg\",\"ordinal\":1,\"payload\":" ++
    "\x7b\"type\":\"task_started\",\"turn_id\":\"t\"\x7d\x7d"

def completeText : String :=
  "\x7b\"type\":\"event_msg\",\"ordinal\":2,\"payload\":" ++
    "\x7b\"type\":\"task_complete\",\"turn_id\":\"t\"\x7d\x7d"

def bytes (text : String) : List UInt8 := text.toUTF8.toList

/-- What the parser makes of these texts, alone or as a line; the other lines here are no JSON.
A digest is written as the bytes themselves. -/
def sampleEnv : Env where
  sha256 := fun bytes => String.ofList (bytes.map fun byte => Char.ofNat byte.toNat)
  fromSlice := fun line =>
    [(sessionText "a", sessionRecord "a"), (sessionText "b", sessionRecord "b"),
      (startedText, startedRecord), (completeText, completeRecord)].findSome? fun known =>
        if line = bytes known.1 ∨ line = bytes (known.1 ++ "\n") then some known.2 else none
  print := fun _ => ""
  parseTime := fun _ => none
  timestampMicros := fun _ => none

/-- The cursor of a session without turns. -/
def newCursor (sourceId : String) (offset : Nat) (checkpoint : List UInt8) : JsonlCursor where
  sourceId := sourceId
  offset := offset
  checkpointSha256 := sampleEnv.sha256 checkpoint
  currentTurnId := none
  lastAssistantText := none
  turnOpen := false
  pendingTurnStart := none
  turnBeforeGap := none
  armedAt := none
  lastRecordAt := none
  steerRuns := []
  queuedSteers := []

def sessionFile : List UInt8 := bytes (sessionText "a" ++ "\n")

/-- The start of a task, seen without its last bytes and then whole, and its end. -/
def cutGlances : List Glance :=
  [⟨(bytes startedText).take 40, 1, fun _ => 1⟩, ⟨(bytes startedText).drop 40, 2, fun _ => 2⟩,
    ⟨newline :: bytes (completeText ++ "\n"), 3, fun _ => 3⟩]

theorem observations_agree_cut : ∃ pieces whole,
      observeAll sampleEnv .codex "" sessionFile (newCursor "a" 23 sessionFile) cutGlances =
        some pieces ∧
      project sampleEnv .codex "" 4 (fun _ => 4) (sessionFile ++ appended cutGlances)
        (some (.codex, newCursor "a" 23 sessionFile)) = some whole ∧
      pieces.2.map PendingEvent.timeless = whole.2.map PendingEvent.timeless ∧
      pieces.1.timeless = whole.1.timeless := by
  have hc : project sampleEnv .codex "" 0 (fun _ => 0) sessionFile none =
      some (newCursor "a" 23 sessionFile, []) := by
    decide +kernel
  have hkeeps : KeepsSession sampleEnv .codex "" sessionFile (newCursor "a" 23 sessionFile)
      cutGlances :=
    keepsSession_of_lines (by decide +kernel) (by decide +kernel) cutGlances
  obtain ⟨pieces, whole, hpieces, hwhole, hevents, hcursor, -⟩ :=
    observations_agree sampleEnv .codex "" hc cutGlances hkeeps 4 fun _ => 4
  exact ⟨pieces, whole, hpieces, hwhole, hevents, hcursor⟩

/-- A session file whose first line is not complete, and the line that follows it once the first
turned out to be no JSON. -/
def brokenGlances : List Glance :=
  [⟨bytes ("x\n" ++ sessionText "b" ++ "\n"), 1, fun _ => 1⟩,
    ⟨bytes (completeText ++ "\n"), 2, fun _ => 2⟩]

theorem bytes_eq : bytes = fun text => text.toUTF8.data.toList :=
  funext fun text => toList_eq_data text.toUTF8

theorem apart_of_map {α β : Type} {f : α → β} {a b : Option α} {x y : β}
    (ha : a.map f = some x) (hb : b.map f = some y) (hxy : x ≠ y) :
    ∃ r ∈ a, ∃ r' ∈ b, f r ≠ f r' := by
  obtain ⟨r, hr, hx⟩ := Option.map_eq_some_iff.mp ha
  obtain ⟨r', hr', hy⟩ := Option.map_eq_some_iff.mp hb
  exact ⟨r, hr, r', hr', by rwa [hx, hy]⟩

def startSeen (r : JsonlCursor × List PendingEvent) : Option Int :=
  r.1.pendingTurnStart.map PendingTurnStart.observedAt

theorem starts_seen : (observeAll sampleEnv .codex "" sessionFile (newCursor "a" 23 sessionFile)
        [⟨bytes (startedText ++ "\n"), 1, fun _ => 1⟩, ⟨[], 2, fun _ => 2⟩]).map startSeen =
      some (some 1) ∧
    (project sampleEnv .codex "" 2 (fun _ => 2) (sessionFile ++ bytes (startedText ++ "\n"))
        (some (.codex, newCursor "a" 23 sessionFile))).map startSeen = some (some 2) := by
  unfold sessionFile newCursor sampleEnv
  rw [bytes_eq]
  decide +kernel

theorem events_seen : (observeAll sampleEnv .codex "" (bytes (sessionText "a")) (newCursor "a" 0 [])
        brokenGlances).map (fun r => r.2.length) = some 3 ∧
    (project sampleEnv .codex "" 2 (fun _ => 2) (bytes (sessionText "a") ++ appended brokenGlances)
        (some (.codex, newCursor "a" 0 []))).map (fun r => r.2.length) = some 1 := by
  unfold newCursor sampleEnv brokenGlances
  rw [bytes_eq]
  decide +kernel

/-- Without these conditions the observations matter. The first session has a task that was
started without a time: its waiting start has the time of the observation. The second names
another session once its first line is complete: the new one is read from its end at that
time. -/
theorem observations_differ : (project sampleEnv .codex "" 0 (fun _ => 0) sessionFile none =
        some (newCursor "a" 23 sessionFile, []) ∧
      ∃ pieces ∈ observeAll sampleEnv .codex "" sessionFile (newCursor "a" 23 sessionFile)
          [⟨bytes (startedText ++ "\n"), 1, fun _ => 1⟩, ⟨[], 2, fun _ => 2⟩],
        ∃ whole ∈ project sampleEnv .codex "" 2 (fun _ => 2)
            (sessionFile ++ bytes (startedText ++ "\n"))
            (some (.codex, newCursor "a" 23 sessionFile)), pieces.1 ≠ whole.1) ∧
    project sampleEnv .codex "" 0 (fun _ => 0) (bytes (sessionText "a")) none =
        some (newCursor "a" 0 [], []) ∧
      ∃ pieces ∈ observeAll sampleEnv .codex "" (bytes (sessionText "a")) (newCursor "a" 0 [])
          brokenGlances, ∃ whole ∈ project sampleEnv .codex "" 2 (fun _ => 2)
            (bytes (sessionText "a") ++ appended brokenGlances) (some (.codex, newCursor "a" 0 [])),
          pieces.2.map (fun e => (e.sourceKey, e.kind)) ≠
            whole.2.map fun e => (e.sourceKey, e.kind) := by
  -- the first half differs in the time of the waiting start, the second in the number of events
  refine ⟨⟨by decide +kernel, ?_⟩, by decide +kernel, ?_⟩
  · obtain ⟨pieces, hp, whole, hw, hne⟩ :=
      apart_of_map starts_seen.1 starts_seen.2 (by decide)
    exact ⟨pieces, hp, whole, hw, fun heq => hne (by simp [startSeen, heq])⟩
  · obtain ⟨pieces, hp, whole, hw, hne⟩ := apart_of_map events_seen.1 events_seen.2 (by decide)
    refine ⟨pieces, hp, whole, hw, fun heq => hne ?_⟩
    simpa using congrArg List.length heq

end Wakterm.Theorems.Schedule
