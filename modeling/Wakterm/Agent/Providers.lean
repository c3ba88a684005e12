import Wakterm.Agent.Jsonl

/-!
# Codex, agy and Muse

The visitors of `project_codex`, `project_agy` and `project_muse`, which turn one record of the
provider's log into events and the next cursor, and the projection of a whole session file
around them: where a new cursor starts, and what becomes of it when the file is of another
session or was rewritten.
-/

namespace Wakterm.Agent

open Wakterm.Machine

variable (env : Env)

def eventTime (now : DateTime) (record : Json) : DateTime := (recordTime env record).getD now

/-- `input_accepted`, of input that does not wait in a queue. -/
def inputAccepted (sourceKey : String) (observedAt : DateTime) (turnId : Option String)
    (inputSha256 : String) : PendingEvent :=
  { PendingEvent.new sourceKey .inputAccepted observedAt with
    turnId := turnId
    inputSha256 := some inputSha256 }

def turnStarted (recordKey : String) (observedAt : DateTime) (turnId : String)
    (inputSha256 : Option String) : PendingEvent :=
  { PendingEvent.new (recordKey ++ ":started") .turnStarted observedAt with
    turnId := some turnId
    inputSha256 := inputSha256 }

def turnState (sourceKey : String) (observedAt : DateTime) (turnId : Option String)
    (state : String) : PendingEvent :=
  { PendingEvent.new sourceKey .turnStateChanged observedAt with
    turnId := turnId
    turnState := some state }

def assistantMessage (recordKey : String) (observedAt : DateTime) (turnId : Option String)
    (text : String) : PendingEvent :=
  { PendingEvent.new (recordKey ++ ":message") .assistantMessage observedAt with
    turnId := turnId
    text := some text }

def turnFinal (recordKey : String) (observedAt : DateTime) (turnId : Option String)
    (completed : Bool) (text : Option String) : PendingEvent :=
  { PendingEvent.new (recordKey ++ ":final") .turnFinal observedAt with
    turnId := turnId
    outcome := some (if completed then "completed" else "aborted")
    text := text }

/-! ## Codex -/

def codexTurnId (record : Json) : Option String := do
  let payload ← record.get "payload"
  let id ← (payload.get "turn_id").or
    ((payload.get "internal_chat_message_metadata_passthrough").bind (·.get "turn_id"))
  id.asStr

def codexMessageText (payload : Json) : Option String := do
  let content ← (payload.get "content").bind Json.asArray
  joinTexts ((content.filter fun block => block.getStr "type" = some "output_text").filterMap
    fun block => block.getStr "text")

def codexResponseMessageText (payload : Json) : Option String := do
  let content ← (payload.get "content").bind Json.asArray
  joinTexts (content.filterMap fun block => block.getStr "text")

def codexResponseMessageIsSyntheticContext (payload : Json) : Bool :=
  ((payload.get "content").bind Json.asArray).any fun content => content.any fun block =>
    (block.getStr "text").any fun text =>
      "<environment_context>".toList.isPrefixOf (trim text).toList &&
        "</environment_context>".toList.isSuffixOf (trim text).toList

/-- The key of a Codex record: by its ordinal, or by its place and text. -/
def codexRecordKey (sourceId : String) (offset : Nat) (record : Json) : String :=
  match (record.get "ordinal").bind Json.asU64 with
  | some ordinal => "codex:" ++ sourceId ++ ":" ++ toString ordinal
  | none =>
    "codex:" ++ sourceId ++ ":" ++ toString offset ++ ":" ++ env.digest (env.print record)

/-- A record that should name its turn and does not. -/
def missingTurn (recordKey : String) (timestamp : DateTime) (detail : String) :
    List PendingEvent :=
  [observerFailure (recordKey ++ ":missing-turn") timestamp none detail]

/-- The waiting start of this turn takes place now, without input. -/
def startTurn (c : JsonlCursor) (turnId : String) : JsonlCursor × List PendingEvent :=
  match c.pendingTurnStart with
  | none => (c, [])
  | some pending =>
    if pending.turnId = turnId then ({ c with pendingTurnStart := none }, pending.events none)
    else (c, [])

/-- `task_started`: the start waits for the turn's input. A start that waited before takes
place now. -/
def codexTaskStarted (recordKey : String) (timestamp : DateTime) (turnId : Option String)
    (c : JsonlCursor) : JsonlCursor × List PendingEvent :=
  match turnId with
  | none =>
    (c, missingTurn recordKey timestamp "Codex task_started lacks an exact provider turn id")
  | some turnId =>
    ({ c with
        lastAssistantText := none
        pendingTurnStart := some ⟨recordKey, turnId, timestamp⟩ },
      c.pendingTurnStart.elim [] (·.events none))

/-- `task_complete` and `turn_aborted`. -/
def codexTurnEnd (recordKey : String) (timestamp : DateTime) (turnId : Option String)
    (payload : Json) (c : JsonlCursor) : JsonlCursor × List PendingEvent :=
  match turnId.or c.currentTurnId with
  | none =>
    (c, missingTurn recordKey timestamp "Codex terminal event lacks an exact provider turn id")
  | some turnId =>
    let (c, started) := startTurn c turnId
    let text := (((payload.getStr "last_agent_message").map trim).filter (· ≠ "")).or
      c.lastAssistantText
    (c, started ++
      [turnFinal recordKey timestamp (some turnId) (payload.getStr "type" = some "task_complete")
          text,
        turnState (recordKey ++ ":state") timestamp (some turnId) "waiting_on_user"])

/-- Input of the user: the first of a turn starts it. -/
def codexUserMessage (recordKey : String) (timestamp : DateTime) (turnId : Option String)
    (message : String) (c : JsonlCursor) : JsonlCursor × List PendingEvent :=
  let sha256 := messageSha256 env.digest message
  match c.pendingTurnStart with
  | some pending =>
    ({ c with pendingTurnStart := none },
      pending.events (some sha256) ++
        [inputAccepted (recordKey ++ ":input") timestamp (some pending.turnId) sha256])
  | none =>
    (c, [inputAccepted (recordKey ++ ":input") timestamp (turnId.or c.currentTurnId) sha256])

def codexAssistantMessage (recordKey : String) (timestamp : DateTime) (turnId : Option String)
    (text : String) (c : JsonlCursor) : JsonlCursor × List PendingEvent :=
  match turnId.or c.currentTurnId with
  | none =>
    (c, missingTurn recordKey timestamp "Codex assistant message lacks an exact provider turn id")
  | some turnId =>
    let (c, started) := startTurn c turnId
    ({ c with lastAssistantText := some text },
      started ++ [assistantMessage recordKey timestamp (some turnId) text])

/-- A message among the `response_item` records, by its role. -/
def codexMessage (recordKey : String) (timestamp : DateTime) (turnId : Option String)
    (payload : Json) (c : JsonlCursor) : JsonlCursor × List PendingEvent :=
  if payload.getStr "role" = some "user" then
    if codexResponseMessageIsSyntheticContext payload then (c, [])
    else
      match codexResponseMessageText payload with
      | none => (c, [])
      | some message => codexUserMessage env recordKey timestamp turnId message c
  else if payload.getStr "role" = some "assistant" then
    match codexMessageText payload with
    | none => (c, [])
    | some text => codexAssistantMessage recordKey timestamp turnId text c
  else (c, [])

/-- The visitor of `project_codex`. -/
def codexVisit : Visitor := fun now offset record c =>
  let timestamp := eventTime env now record
  let recordKey := codexRecordKey env c.sourceId offset record
  let turnId := codexTurnId record
  let c := { c with currentTurnId := turnId.or c.currentTurnId }
  let payload := (record.get "payload").getD .null
  if record.getStr "type" = some "event_msg" then
    if payload.getStr "type" = some "task_started" then
      codexTaskStarted recordKey timestamp turnId c
    else if payload.getStr "type" = some "task_complete" ∨
        payload.getStr "type" = some "turn_aborted" then
      codexTurnEnd recordKey timestamp turnId payload c
    else (c, [])
  else if record.getStr "type" = some "response_item" then
    if payload.getStr "type" = some "message" then
      codexMessage env recordKey timestamp turnId payload c
    else (c, [])
  else (c, [])

/-! ## agy -/

def agyTurnId (conversationId : String) (record : Json) : Option String := do
  let step ← (record.get "step_index").bind Json.asU64
  some (conversationId ++ ":" ++ toString step)

def agyUserRequest (content : String) : Option String := do
  let request ← afterFirst "<USER_REQUEST>".toList content.toList
  let request ← beforeFirst "</USER_REQUEST>".toList request
  some (trim (String.ofList request))

/-- Whether a response of agy calls tools. They are recorded as text, empty when there are
none. -/
def agyCallsTools (record : Json) : Bool :=
  match record.get "tool_calls" with
  | none => false
  | some (.arr calls) => !calls.isEmpty
  | some (.str calls) => !(trim calls = "" || trim calls = "[]")
  | some .null => false
  | some _ => true

def agyUserInput (recordKey : String) (timestamp : DateTime) (record : Json) (c : JsonlCursor) :
    JsonlCursor × List PendingEvent :=
  match agyTurnId c.sourceId record with
  | none => (c, missingTurn recordKey timestamp "agy user input lacks a step index")
  | some turnId =>
    let sha256 := ((record.getStr "content").bind agyUserRequest).map (messageSha256 env.digest)
    ({ c with currentTurnId := some turnId, lastAssistantText := none, turnOpen := true },
      [turnStarted recordKey timestamp turnId sha256] ++
        (sha256.map (inputAccepted (recordKey ++ ":input") timestamp (some turnId))).toList ++
        [turnState (recordKey ++ ":state") timestamp (some turnId) "waiting_on_agent"])

/-- A response of the planner. One that calls no tools ends the turn. -/
def agyPlannerResponse (recordKey : String) (timestamp : DateTime) (record : Json)
    (c : JsonlCursor) : JsonlCursor × List PendingEvent :=
  match c.currentTurnId, ((record.getStr "content").map trim).filter (· ≠ "") with
  | some turnId, some text =>
    let message := assistantMessage recordKey timestamp (some turnId) text
    if !agyCallsTools record && c.turnOpen then
      ({ c with lastAssistantText := some text, turnOpen := false },
        [message, turnFinal recordKey timestamp (some turnId) true (some text),
          turnState (recordKey ++ ":final-state") timestamp (some turnId) "waiting_on_user"])
    else ({ c with lastAssistantText := some text }, [message])
  | _, _ => (c, [])

/-- The visitor of `project_agy`. -/
def agyVisit : Visitor := fun now offset record c =>
  let timestamp := eventTime env now record
  let step := match (record.get "step_index").bind Json.asU64 with
    | some step => toString step
    | none => "offset-" ++ toString offset
  let recordKey := "agy:" ++ c.sourceId ++ ":" ++ step
  if record.getStr "type" = some "USER_INPUT" then agyUserInput env recordKey timestamp record c
  else if record.getStr "type" = some "PLANNER_RESPONSE" ∧
      record.getStr "status" = some "DONE" then
    agyPlannerResponse recordKey timestamp record c
  else (c, [])

/-! ## Muse -/

namespace Muse

inductive Record where
  | input (intentId text : String)
  | assistant (runId text : String)
  | terminal (runId : String) (completed : Bool)
  | steerQueued (runId itemId : String)
  | steerDrained (runId itemId : String)
  | approvalRequested (runId actionId : String) (command : Option String)
  | approvalDecided (runId actionId : String)

def recordedAt (record : Json) : Option DateTime :=
  ((record.get "recorded_at").bind Json.asI64).bind env.timestampMicros

def answerableCommand (event : Json) : Option String := do
  let subject ← event.get "approval_subject"
  let choices ← (event.get "available_choices").bind Json.asArray
  let choices := choices.filterMap fun choice => choice.getStr "choice_id"
  let phase ← event.getStr "presentation_phase"
  if phase ≠ "human_pending" then none
  else do
    let kind ← subject.getStr "kind"
    if kind ≠ "shell_command" then none
    else do
      let stages ← (subject.get "stages").bind Json.asArray
      if stages.length = 1 ∧ "allow_once" ∈ choices ∧ "abort" ∈ choices then
        subject.getStr "raw_command"
      else none

/-- The text of an input: the text blocks of its messages, one a line. -/
def inputText (payload : Json) : Option String := do
  let messages ← (payload.get "model_messages").bind Json.asArray
  let blocks := (messages.filterMap fun message => (message.get "content").bind Json.asArray).flatten
  let texts := (blocks.filter fun block => block.getStr "kind" = some "text").filterMap
    fun block => block.getStr "text"
  some ("\n".intercalate texts)

/-- The records about runs and approvals. -/
def parseSession (payload : Json) : Option Record := do
  let event ← payload.get "event"
  let runId ← payload.getStr "run_id"
  let kind ← payload.getStr "kind"
  let eventKind ← event.getStr "kind"
  if kind = "run" then
    if eventKind = "assistant_message_committed" then
      (event.getStr "text").map (.assistant runId)
    else if eventKind = "terminal" then
      some (.terminal runId (event.getStr "terminal" = some "completed"))
    else if eventKind = "inbox_item_queued" then
      if (event.get "source").bind (·.getStr "source") = some "user_steer" then
        (payload.getStr "source_run_record_id").map (.steerQueued runId)
      else none
    else if eventKind = "inbox_item_drained" then
      (event.getStr "item_id").map (.steerDrained
        (((event.get "drain_target_run_stream").bind (·.getStr "id")).getD runId))
    else none
  else if kind = "approval" then
    if eventKind = "requested" then
      (event.getStr "pending_action_id").map
        (.approvalRequested runId · (answerableCommand event))
    else if eventKind = "decision_applied" then
      (event.getStr "pending_action_id").map (.approvalDecided runId)
    else none
  else none

def parse (record : Json) : Option Record :=
  if (record.get "children").isSome then none
  else do
    let payload ← record.get "payload"
    let payloadType ← record.getStr "payload_type"
    if payloadType = "runtime.user_intent.accepted" then do
      let text ← inputText payload
      let intentId ← payload.getStr "intent_id"
      some (.input intentId text)
    else if payloadType = "runtime.session" then parseSession payload
    else none

end Muse

def JsonlCursor.openTurn (c : JsonlCursor) : Option String :=
  c.currentTurnId.filter fun _ => c.turnOpen

/-- Whether a run works on the open turn, or on input that was sent to a turn. -/
def JsonlCursor.owns (c : JsonlCursor) (runId : String) : Bool :=
  decide (c.openTurn = some runId) || c.steerRuns.contains runId

/-- What Muse's projection makes of a record that a turn consists of. `approvable` says whether
`approval_request` can name the agent's incarnation. -/
def museRecord (approvable : Bool) (recordKey : String) (timestamp : DateTime)
    (c : JsonlCursor) : Muse.Record → JsonlCursor × List PendingEvent
  | .input intentId text =>
    let sha256 := messageSha256 env.digest text
    match c.openTurn with
    | some turnId => (c, [inputAccepted (recordKey ++ ":input") timestamp (some turnId) sha256])
    | none =>
      ({ c with
          currentTurnId := some intentId
          lastAssistantText := none
          turnOpen := true
          steerRuns := []
          queuedSteers := [] },
        [turnStarted recordKey timestamp intentId (some sha256),
          inputAccepted (recordKey ++ ":input") timestamp (some intentId) sha256,
          turnState (recordKey ++ ":state") timestamp (some intentId) "waiting_on_agent"])
  | .steerQueued runId itemId =>
    if c.owns runId then ({ c with queuedSteers := c.queuedSteers ++ [itemId] }, []) else (c, [])
  | .steerDrained runId itemId =>
    if c.queuedSteers.contains itemId then
      ({ c with
          queuedSteers := c.queuedSteers.filter (· ≠ itemId)
          steerRuns := if c.owns runId then c.steerRuns else c.steerRuns ++ [runId] }, [])
    else (c, [])
  | .approvalRequested runId _ (some _) =>
    if c.owns runId && approvable then
      (c, [{ PendingEvent.new (recordKey ++ ":approval") .approvalRequested timestamp with
        turnId := c.openTurn }])
    else (c, [])
  | .approvalRequested _ _ none => (c, [])
  | .approvalDecided _ _ => (c, [])
  | .assistant runId text =>
    if c.owns runId then
      if trim text = "" then (c, [])
      else
        ({ c with lastAssistantText := some (trim text) },
          [assistantMessage recordKey timestamp c.openTurn (trim text)])
    else (c, [])
  | .terminal runId completed =>
    if c.owns runId && c.queuedSteers.isEmpty then
      ({ c with turnOpen := false },
        [turnFinal recordKey timestamp c.openTurn completed
            (if completed then c.lastAssistantText else none),
          turnState (recordKey ++ ":final-state") timestamp c.openTurn "waiting_on_user"])
    else (c, [])

/-- The visitor of `project_muse`. -/
def museVisit (approvable : Bool) : Visitor := fun now offset record c =>
  let timestamp := (Muse.recordedAt env record).getD now
  let id := (record.getStr "id").getD ("offset-" ++ toString offset)
  match Muse.parse record with
  | none => (c, [])
  | some parsed => museRecord env approvable ("muse:" ++ c.sourceId ++ ":" ++ id) timestamp c parsed

/-! ## A session file -/

/-- The providers that append to a file of JSON lines, less Claude. -/
inductive Provider where
  | codex
  | agy
  | muse (approvable : Bool)

namespace Provider

/-- The provider's visitor. -/
def visit : Provider → Visitor
  | .codex => codexVisit env
  | .agy => agyVisit env
  | .muse approvable => museVisit env approvable

/-- The provider's name. -/
def name : Provider → String
  | .codex => "codex"
  | .agy => "agy"
  | .muse _ => "muse"

end Provider

/-- `reader.lines()`: the lines without their end, and a last one without a newline. -/
def fileLines (file : List UInt8) : List (List UInt8) :=
  (splitLines file).1.map (fun line =>
      let body := line.dropLast
      if body.getLast? = some 13 then body.dropLast else body) ++
    (if (splitLines file).2.isEmpty then [] else [(splitLines file).2])

/-- Is the line a text? -/
def isUtf8 (line : List UInt8) : Bool := (ByteArray.mk line.toArray).validateUTF8

/-- The loop of `jsonl_source_id`, for Codex. -/
def findSourceId : List (List UInt8) → Option String
  | [] => none
  | line :: lines =>
    if !isUtf8 line then none
    else
      match (env.fromSlice line).bind fun record =>
          ((record.get "payload").bind fun payload =>
            ((payload.get "id").or (payload.get "session_id")).bind Json.asStr).filter (· ≠ "") with
      | some id => some id
      | none => findSourceId lines

/-- The session that a file is of: Codex names it in one of the first 32 lines, agy and Muse in
the path. -/
def Provider.sourceId (pathId : String) (file : List UInt8) : Provider → Option String
  | .codex => findSourceId env ((fileLines file).take 32)
  | _ => some pathId

def completeJsonlTail (file : List UInt8) : Nat :=
  if endsLine file then file.length else (splitLines file).1.flatten.length

/-- The turn that a record names, for `latest_jsonl_turn`. -/
def Provider.turnOf (sourceId : String) (record : Json) : Provider → Option (Option String)
  | .codex => (codexTurnId record).map some
  | .agy =>
    if record.getStr "type" = some "USER_INPUT" then some (agyTurnId sourceId record) else none
  | .muse _ => none

/-- `latest_jsonl_turn`; `none` where a line is no text. -/
def latestJsonlTurn (p : Provider) (sourceId : String) :
    List (List UInt8) → Option String → Option (Option String)
  | [], current => some current
  | line :: lines, current =>
    if !isUtf8 line then none
    else latestJsonlTurn p sourceId lines
      (((env.fromSlice line).bind fun record => p.turnOf sourceId record).getD current)

def initialJsonlCursor (p : Provider) (sourceId : String) (file : List UInt8) :
    Option JsonlCursor := do
  let offset := completeJsonlTail file
  let turn ← latestJsonlTurn env p sourceId (fileLines file) none
  some
    { sourceId := sourceId
      offset := offset
      checkpointSha256 := checkpointSha256 env file offset
      currentTurnId := turn
      lastAssistantText := none
      turnOpen := false
      pendingTurnStart := none
      turnBeforeGap := none
      armedAt := none
      lastRecordAt := none
      steerRuns := []
      queuedSteers := [] }

def copiedHistorySlack : Int := 2000000000

/-- What the report of a new baseline says. -/
def resetDetail (p : Provider) (previous : Option JsonlCursor) : String :=
  match previous with
  | none => p.name ++ " provider session was rewritten; a new tail baseline was armed"
  | some previous =>
    if previous.lastRecordAt.isSome then
      "confirmed " ++ p.name ++ " provider session changed; the new session is read from its " ++
        "start, reporting records newer than the previous session's"
    else "confirmed " ++ p.name ++ " provider session changed; a new tail baseline was armed"

def resetJsonlProjection (p : Provider) (now : DateTime) (sourceId : String) (file : List UInt8)
    (previous : Option JsonlCursor) : Option (JsonlCursor × List PendingEvent) := do
  let c ← initialJsonlCursor env p sourceId file
  let c := match previous with
    | none => c
    | some previous =>
      match previous.lastRecordAt with
      | some time =>
        { c with
          offset := 0
          checkpointSha256 := checkpointSha256 env file 0
          currentTurnId := none
          armedAt := some time }
      | none => { c with armedAt := some (now - copiedHistorySlack) }
  some (c, [observerFailure (p.name ++ ":" ++ c.sourceId ++ ":baseline-reset:" ++ toString c.offset ++
    ":" ++ c.checkpointSha256) now none (resetDetail p previous)])

/-- Reading on from a cursor of this session, or starting over where the file was rewritten. -/
def readOn (p : Provider) (now : DateTime) (clock : Nat → DateTime) (sourceId : String)
    (file : List UInt8) (c : JsonlCursor) : Option (JsonlCursor × List PendingEvent) :=
  match readNewJsonl env (p.visit env) clock file c with
  | some result => some result
  | none => resetJsonlProjection env p now sourceId file none

/-- `project_codex`, `project_agy` and `project_muse`: one observation of the session file, with
the cursor that the one before has left. `none` is an error. -/
def project (p : Provider) (pathId : String) (now : DateTime) (clock : Nat → DateTime)
    (file : List UInt8) (cursor : Option (Provider × JsonlCursor)) :
    Option (JsonlCursor × List PendingEvent) := do
  let sourceId ← p.sourceId env pathId file
  match cursor with
  | none => (initialJsonlCursor env p sourceId file).map fun c => (c, [])
  | some (q, c) =>
    if q.name = p.name ∧ c.sourceId = sourceId then readOn env p now clock sourceId file c
    else do
      -- the file is of another session
      let (c, events) ← resetJsonlProjection env p now sourceId file (some c)
      let (c, more) ← readOn env p now clock sourceId file c
      some (c, events ++ more)

end Wakterm.Agent
