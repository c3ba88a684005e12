import Mathlib.Logic.Function.Basic
import Wakterm.Agent.Admit
import Wakterm.Agent.Jsonl
import Wakterm.Machine.Steps
import Wakterm.Mux.ClaudeQuestionKeys

/-!
# Approvals of the app server

`agent_approval.rs`: `capture_agent_approval` makes a pending approval of a message of the Codex app
server, and `resolve_agent_approval` takes it out, checks the resolution and responds.
-/

namespace Wakterm.Mux

open Wakterm.Agent Wakterm.Machine

structure AgentApprovalRequest where
  kind : String
  requestId : String
  agentId : String
  incarnationId : String
  turnId : String
  itemId : String
  observedAt : DateTime
  prompt : Option String
  reason : Option String
  command : Option String
  cwd : Option String
  choices : List AgentApprovalChoice
  questions : List AgentApprovalQuestion

structure AgentApprovalResolutionRequest where
  requestId : String
  agentId : String
  incarnationId : String
  choiceId : String
  answers : List AgentApprovalAnswer

structure AgentApprovalResolution where
  requestId : String
  agentId : String
  incarnationId : String
  choiceId : String
  resolved : Bool

structure PendingAgentApproval where
  request : AgentApprovalRequest
  appServerRequestId : Json
  threadId : String
  responses : List (String × Json)

/-! ## Reading a request -/

def scalarRequestId (value : Json) : Option String :=
  value.asStr <|> value.asI64.map toString <|> value.asU64.map toString

def presentField (params : Json) (key : String) : Option Json :=
  match params.get key with
  | some .null => none
  | value => value

def effectiveDecisions (params : Json) : List Json :=
  match (params.get "availableDecisions").bind Json.asArray with
  | some decisions => decisions
  | none =>
    let extra :=
      match presentField params "proposedExecpolicyAmendment" with
      | some amendment =>
        [.obj [("acceptWithExecpolicyAmendment", .obj [("execpolicy_amendment", amendment)])]]
      | none =>
        if (presentField params "additionalPermissions").isNone &&
            (presentField params "networkApprovalContext").isSome then
          [.str "acceptForSession"]
        else []
    .str "accept" :: extra ++ [.str "cancel"]

def renderCommandPrefix (value : Json) : String :=
  let rendered :=
    match value with
    | .str text => text.toList
    | .arr values => [' '].intercalate ((values.filterMap Json.asStr).map String.toList)
    | _ => []
  let rendered := rendered.map fun c => if c = '\n' ∨ c = '\r' then ' ' else c
  let rendered := if 48 < rendered.length then rendered.take 45 ++ "...".toList else rendered
  if rendered.isEmpty then "matching commands" else String.ofList rendered

/-- `describe_decision`: the id of the choice, and its label. -/
def describeDecision (decision : Json) : Option (String × String) :=
  match decision with
  | .str "accept" => some ("allow_once", "Allow once")
  | .str "acceptForSession" => some ("allow_session", "Allow for this session")
  | .str "decline" => some ("reject", "Reject")
  | .str "cancel" => some ("reject", "Reject")
  | .obj object =>
    match object.lookup "acceptWithExecpolicyAmendment" with
    | some amendment =>
      let commands := (amendment.get "execpolicy_amendment").elim "matching commands"
        renderCommandPrefix
      some ("allow_prefix", "Always allow: " ++ commands)
    | none =>
      if (object.lookup "applyNetworkPolicyAmendment").isSome then
        some ("allow_network", "Always allow this network access")
      else none
  | _ => none

/-- The choices of the decisions, and their responses: the first of each id. -/
def decisionChoices : List Json → List AgentApprovalChoice × List (String × Json) →
    List AgentApprovalChoice × List (String × Json)
  | [], out => out
  | decision :: decisions, (choices, responses) =>
    match describeDecision decision with
    | none => decisionChoices decisions (choices, responses)
    | some (choiceId, label) =>
      if (responses.lookup choiceId).isSome then decisionChoices decisions (choices, responses)
      else
        decisionChoices decisions
          (choices ++ [⟨choiceId, label, none⟩],
            responses ++ [(choiceId, .obj [("decision", decision)])])

/-- The choices of a question's options, and their responses. -/
def optionChoices (questionId : String) :
    Nat → List Json → Option (List AgentApprovalChoice × List (String × Json))
  | _, [] => some ([], [])
  | index, option :: options => do
      let label ← option.getStr "label"
      let choiceId := "option_" ++ toString (index + 1)
      let (choices, responses) ← optionChoices questionId (index + 1) options
      return (⟨choiceId, label, option.getStr "description"⟩ :: choices,
        (choiceId, .obj [("answers", .obj [(questionId, .obj [("answers", .arr [.str label])])])])
          :: responses)

section Parse

variable (sha256 : List UInt8 → String)

/-- `incarnation_id`. -/
def incarnationIdOf (metadata : AgentMetadata) : Option String :=
  match metadata.codexAppServer with
  | some session =>
    some (textSha256 sha256 (metadata.agentId ++ "\x00codex-app-server\x00" ++ session.threadId ++
      "\x00" ++ session.sessionId))
  | none => do
      let pid ← metadata.adoptedPid
      let startTime ← metadata.adoptedStartTime
      return incarnationIdFromParts sha256 metadata.agentId pid startTime

/-- Is the agent's session that of the thread? -/
def runsThread (threadId : String) (metadata : AgentMetadata) : Bool :=
  metadata.codexAppServer.any (·.threadId = threadId)

def requestIdOf (threadId turnId itemId : String) (appServerRequestId : Json) : Option String := do
  let scalar ← scalarRequestId appServerRequestId
  let digest := textSha256 sha256
    (threadId ++ "\x00" ++ turnId ++ "\x00" ++ itemId ++ "\x00" ++ scalar)
  return String.ofList (digest.toList.take 24)

def parseCommandApproval (message : Json) (metadata : AgentMetadata) (now : DateTime) :
    Option PendingAgentApproval := do
  let appServerRequestId ← message.get "id"
  let params ← message.get "params"
  let threadId ← params.getStr "threadId"
  if !runsThread threadId metadata then none
  let incarnation ← incarnationIdOf sha256 metadata
  let turnId ← params.getStr "turnId"
  let itemId ← params.getStr "itemId"
  let requestId ← requestIdOf sha256 threadId turnId itemId appServerRequestId
  let (choices, responses) := decisionChoices (effectiveDecisions params) ([], [])
  if choices.isEmpty then none
  return {
    request := {
      kind := "command_approval", requestId, agentId := metadata.agentId
      incarnationId := incarnation, turnId, itemId, observedAt := now, prompt := none
      reason := params.getStr "reason", command := params.getStr "command"
      cwd := params.getStr "cwd", choices, questions := [] }
    appServerRequestId, threadId, responses }

def parseCodexQuestion (message : Json) (metadata : AgentMetadata) (now : DateTime) :
    Option PendingAgentApproval := do
  let appServerRequestId ← message.get "id"
  let params ← message.get "params"
  let threadId ← params.getStr "threadId"
  if !runsThread threadId metadata then none
  if let some (.bool false) := params.get "isBlocking" then none
  let questions ← (params.get "questions").bind Json.asArray
  let question ← if let [question] := questions then some question else none
  let options ← (question.get "options").bind Json.asArray
  if options.length < 2 then none
  let questionId ← question.getStr "id"
  let turnId ← params.getStr "turnId"
  let itemId ← params.getStr "itemId"
  let requestId ← requestIdOf sha256 threadId turnId itemId appServerRequestId
  let (choices, responses) ← optionChoices questionId 0 options
  let incarnation ← incarnationIdOf sha256 metadata
  let prompt ← question.getStr "question"
  return {
    request := {
      kind := "user_question", requestId, agentId := metadata.agentId
      incarnationId := incarnation, turnId, itemId, observedAt := now, prompt := some prompt
      reason := question.getStr "header", command := none, cwd := none, choices, questions := [] }
    appServerRequestId, threadId, responses }

def parseCodexApproval (message : Json) (metadata : AgentMetadata) (now : DateTime) :
    Option PendingAgentApproval :=
  match message.getStr "method" with
  | some "item/commandExecution/requestApproval" =>
    parseCommandApproval sha256 message metadata now
  | some "item/tool/requestUserInput" => parseCodexQuestion sha256 message metadata now
  | _ => none

/-- The thread of a message that asks for an approval. -/
def approvalThread (message : Json) : Option String :=
  match message.getStr "method" with
  | some "item/commandExecution/requestApproval" | some "item/tool/requestUserInput" =>
    (message.get "params").bind (·.getStr "threadId")
  | _ => none

end Parse

end Wakterm.Mux

/-!
## Approvals that are captured and resolved at once

Any number of calls of `capture_agent_approval` and `resolve_agent_approval` are under way.
-/

namespace Wakterm.Mux

open Wakterm.Agent Wakterm.Machine

inductive ApprovalError where
  | identityChanged | unavailable | incarnationChanged | choiceUnavailable | respond | other

/-- Their texts; that of the app server is its own. -/
def ApprovalError.text : ApprovalError → Option String
  | identityChanged => some "approval target identity changed"
  | unavailable => some "approval target is no longer available"
  | incarnationChanged => some "approval target incarnation changed"
  | choiceUnavailable => some "approval choice is not available"
  | respond | other => none

/-- An approval, and the number of its capture. -/
structure Captured where
  serial : Nat
  approval : PendingAgentApproval

/-- What a call does next. -/
inductive ApprovalCall where
  | find (message : Json) (now : DateTime)
  | insert (approval : PendingAgentApproval)
  | take (resolution : AgentApprovalResolutionRequest)
  | check (resolution : AgentApprovalResolutionRequest) (held : Captured)
  | respond (resolution : AgentApprovalResolutionRequest) (held : Captured)
      (current : AgentMetadata) (response : Json)
  | putBack (resolution : AgentApprovalResolutionRequest) (held : Captured) (err : ApprovalError)
  | elsewhere (resolution : AgentApprovalResolutionRequest)
  | captured (request : Option AgentApprovalRequest)
  | resolved (resolution : AgentApprovalResolution)
  | handled (resolution : AgentApprovalResolutionRequest)
  | failed (err : ApprovalError)

/-- A response that the app server has accepted, and what the agents were then. -/
structure AcceptedAnswer where
  held : Captured
  resolution : AgentApprovalResolutionRequest
  appServerRequestId : Json
  response : Json
  agents : List AgentMetadata

/-- The pending approvals by request id, the agents, the calls and what they did. `touched` are the
calls whose request id another call has captured or asked for since they took it. -/
structure Approvals where
  pending : String → Option Captured
  agents : List AgentMetadata
  calls : List ApprovalCall
  captures : List PendingAgentApproval
  accepted : List AcceptedAnswer
  touched : List Nat

/-- The request that a call has in its hands. -/
def ApprovalCall.held : ApprovalCall → Option (AgentApprovalResolutionRequest × Captured)
  | check resolution held | respond resolution held _ _ | putBack resolution held _ =>
    some (resolution, held)
  | _ => none

/-- Has the call a request of the id in its hands? -/
def ApprovalCall.holds (requestId : String) (call : ApprovalCall) : Bool :=
  call.held.any fun held => held.1.requestId = requestId

namespace Approvals

/-- Nothing is pending. -/
def start (agents : List AgentMetadata) : Approvals := ⟨fun _ => none, agents, [], [], [], []⟩

/-- A call goes on. -/
def goto (s : Approvals) (i : Nat) (call : ApprovalCall) : Approvals :=
  { s with calls := s.calls.set i call }

/-- The other calls that have a request of the id in their hands. -/
def holders (s : Approvals) (i : Nat) (requestId : String) : List Nat :=
  (List.range s.calls.length).filter fun j =>
    j ≠ i && (s.calls[j]?).any (·.holds requestId)

/-- They are told that another call was there. -/
def touch (s : Approvals) (i : Nat) (requestId : String) : Approvals :=
  { s with touched := s.holders i requestId ++ s.touched }

section Step

variable (sha256 : List UInt8 → String)

/-- `capture_agent_approval` up to the map: the agent of the thread. -/
def stepFind (s : Approvals) (message : Json) (now : DateTime) : ApprovalCall :=
  let approval := do
    let threadId ← approvalThread message
    let metadata ← s.agents.find? (runsThread threadId)
    parseCodexApproval sha256 message metadata now
  match approval with
  | some approval => .insert approval
  | none => .captured none

/-- The approval is entered, in the stead of one of the same id. -/
def stepInsert (s : Approvals) (i : Nat) (approval : PendingAgentApproval) : Approvals :=
  let s := s.touch i approval.request.requestId
  { s with
      pending := Function.update s.pending approval.request.requestId
        (some ⟨s.captures.length, approval⟩)
      captures := s.captures ++ [approval] }.goto i (.captured (some approval.request))

/-- The approval is taken out, and the resolution compared with it. -/
def stepTake (s : Approvals) (i : Nat) (resolution : AgentApprovalResolutionRequest) : Approvals :=
  let t := s.touch i resolution.requestId
  match s.pending resolution.requestId with
  | none => t.goto i (.elsewhere resolution)
  | some held =>
    let t := { t with pending := Function.update t.pending resolution.requestId none }
    if held.approval.request.agentId = resolution.agentId ∧
        held.approval.request.incarnationId = resolution.incarnationId then
      t.goto i (.check resolution held)
    else t.goto i (.putBack resolution held .identityChanged)

/-- The agent as it is now, and the response that is chosen. -/
def stepCheck (s : Approvals) (resolution : AgentApprovalResolutionRequest) (held : Captured) :
    ApprovalCall :=
  match s.agents.find? (·.agentId = resolution.agentId) with
  | none => .putBack resolution held .unavailable
  | some current =>
    if incarnationIdOf sha256 current = some resolution.incarnationId then
      match held.approval.responses.lookup resolution.choiceId with
      | none => .putBack resolution held .choiceUnavailable
      | some response => .respond resolution held current response
    else .putBack resolution held .incarnationChanged

/-- The response, and whether the app server accepts it. -/
def stepRespond (s : Approvals) (i : Nat) (resolution : AgentApprovalResolutionRequest)
    (held : Captured) (response : Json) (ok : Bool) : Approvals :=
  if ok then
    let answer : AcceptedAnswer :=
      ⟨held, resolution, held.approval.appServerRequestId, response, s.agents⟩
    { s with accepted := s.accepted ++ [answer] }.goto i
      (.resolved ⟨resolution.requestId, resolution.agentId, resolution.incarnationId,
        resolution.choiceId, true⟩)
  else s.goto i (.putBack resolution held .respond)

def stepPutBack (s : Approvals) (i : Nat) (resolution : AgentApprovalResolutionRequest)
    (held : Captured) (err : ApprovalError) : Approvals :=
  let s := s.touch i resolution.requestId
  { s with pending := Function.update s.pending resolution.requestId (some held) }.goto i
    (.failed err)

/-- The next step of a call. -/
def advance (s : Approvals) (i : Nat) (ok : Bool) : ApprovalCall → Option Approvals
  | .find message now => some (s.goto i (s.stepFind sha256 message now))
  | .insert approval => some (s.stepInsert i approval)
  | .take resolution => some (s.stepTake i resolution)
  | .check resolution held => some (s.goto i (s.stepCheck sha256 resolution held))
  | .respond resolution held _ response => some (s.stepRespond i resolution held response ok)
  | .putBack resolution held err => some (s.stepPutBack i resolution held err)
  | .elsewhere resolution =>
    some (s.goto i (if ok then .handled resolution else .failed .other))
  | .captured _ | .resolved _ | .handled _ | .failed _ => none

/-- A call begins or goes on, or the agents are others. -/
inductive Event where
  | capture (message : Json) (now : DateTime)
  | resolve (resolution : AgentApprovalResolutionRequest)
  | agents (agents : List AgentMetadata)
  | advance (i : Nat) (ok : Bool)

def step (s : Approvals) : Event → Option Approvals
  | .capture message now => some { s with calls := s.calls ++ [.find message now] }
  | .resolve resolution => some { s with calls := s.calls ++ [.take resolution] }
  | .agents agents => some { s with agents := agents }
  | .advance i ok => s.calls[i]?.bind (s.advance sha256 i ok)

end Step

end Approvals

end Wakterm.Mux
