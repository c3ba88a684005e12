import Mathlib.Algebra.Group.Nat.Defs
import Mathlib.Data.List.AList
import Wakterm.Agent.Request

/-!
# Prompt admission

`mux/src/agent_admission.rs`: the durable `AgentAdmissionStore` makes one-way admissions idempotent.
-/

namespace Wakterm.Agent

def agentApiSchema : String := "wakterm.agent-api.v1"

structure AgentPromptAdmissionRequest where
  requestId : String
  agentId : String
  incarnationId : String
  prompt : String
  paste : Bool
  returnFinal : Bool
  timeoutMs : Nat

inductive AgentAdmissionStatus where
  | accepted | busy | unsupported | unavailable | staleIncarnation | invalid | observerFailure
  | internalFailure | indeterminate
  deriving DecidableEq

structure AgentAdmissionReceipt where
  schema : String
  requestId : String
  status : AgentAdmissionStatus
  definitive : Bool
  promptWritten : Option Bool
  agentId : Option String
  incarnationId : Option String
  returnFinal : Bool
  request : Option AgentRequest
  detail : Option String
  deriving DecidableEq

namespace AgentAdmissionReceipt

def accepted (request : AgentPromptAdmissionRequest) (nestedRequest : Option AgentRequest) :
    AgentAdmissionReceipt where
  schema := agentApiSchema
  requestId := request.requestId
  status := .accepted
  definitive := true
  promptWritten := some true
  agentId := some request.agentId
  incarnationId := some request.incarnationId
  returnFinal := request.returnFinal
  request := nestedRequest
  detail := none

def rejected (request : AgentPromptAdmissionRequest) (status : AgentAdmissionStatus)
    (detail : String) : AgentAdmissionReceipt where
  schema := agentApiSchema
  requestId := request.requestId
  status := status
  definitive := true
  promptWritten := some false
  agentId := some request.agentId
  incarnationId := some request.incarnationId
  returnFinal := request.returnFinal
  request := none
  detail := some detail

def indeterminate (request : AgentPromptAdmissionRequest) (nestedRequest : Option AgentRequest)
    (detail : String) : AgentAdmissionReceipt where
  schema := agentApiSchema
  requestId := request.requestId
  status := .indeterminate
  definitive := false
  promptWritten := none
  agentId := some request.agentId
  incarnationId := some request.incarnationId
  returnFinal := request.returnFinal
  request := nestedRequest
  detail := some detail

end AgentAdmissionReceipt

def toLeBytes (n : Nat) : List UInt8 :=
  (List.range 8).map fun i => UInt8.ofNat (n / 256 ^ i % 256)

/-- `admission_fingerprint`, with the digest of its bytes in hexadecimal. -/
def admissionFingerprint (sha256 : List UInt8 → String)
    (request : AgentPromptAdmissionRequest) : String :=
  sha256 (agentApiSchema.toUTF8.toList ++ [0] ++ request.agentId.toUTF8.toList ++ [0] ++
    request.incarnationId.toUTF8.toList ++ [0] ++ request.prompt.toUTF8.toList ++
    [request.paste.toUInt8, request.returnFinal.toUInt8] ++ toLeBytes request.timeoutMs)

inductive StoredAdmissionState where
  | prepared | accepted | indeterminate
  deriving DecidableEq

structure StoredOneWayAdmission where
  fingerprint : String
  state : StoredAdmissionState
  receipt : AgentAdmissionReceipt

inductive OneWayAdmissionClaim where
  | new
  | existing (receipt : AgentAdmissionReceipt)
  | conflict
  deriving DecidableEq

/-- A row of `agent_prompt_admission`. -/
structure AdmissionRow where
  fingerprint : String
  record : StoredOneWayAdmission

structure AgentAdmissionStore where
  rows : AList fun _ : String => AdmissionRow

namespace AgentAdmissionStore

/-- A new database. -/
def empty : AgentAdmissionStore := ⟨∅⟩

/-- The row of a request ID. -/
def row (store : AgentAdmissionStore) (requestId : String) : Option AdmissionRow :=
  store.rows.lookup requestId

/-- The row of a request ID that is there, with another record. -/
def update (store : AgentAdmissionStore) (requestId : String) (row : AdmissionRow)
    (record : StoredOneWayAdmission) : AgentAdmissionStore :=
  ⟨store.rows.insert requestId { row with record := record }⟩

def claim (sha256 : List UInt8 → String) (store : AgentAdmissionStore)
    (request : AgentPromptAdmissionRequest) : OneWayAdmissionClaim × AgentAdmissionStore :=
  let fingerprint := admissionFingerprint sha256 request
  match store.row request.requestId with
  | none =>
    let stored : StoredOneWayAdmission :=
      { fingerprint := fingerprint
        state := .prepared
        receipt := .indeterminate request none "prompt admission is prepared but not complete" }
    (.new, ⟨store.rows.insert request.requestId ⟨fingerprint, stored⟩⟩)
  | some row =>
    if row.fingerprint ≠ fingerprint then (.conflict, store)
    else if row.record.state = .prepared then
      -- An attempt that never finished: whether it wrote the prompt is not known.
      let receipt : AgentAdmissionReceipt := .indeterminate request none
        "a prior admission attempt did not durably record whether prompt delivery occurred"
      (.existing receipt, store.update request.requestId row
        { row.record with state := .indeterminate, receipt := receipt })
    else (.existing row.record.receipt, store)

/-- `finish`, which fails when the request ID was not claimed. -/
def finish (store : AgentAdmissionStore) (receipt : AgentAdmissionReceipt) :
    Option AgentAdmissionStore :=
  (store.row receipt.requestId).map fun row =>
    store.update receipt.requestId row
      { fingerprint := row.fingerprint
        state := if receipt.status = .accepted then .accepted else .indeterminate
        receipt := receipt }

def releaseUnwritten (store : AgentAdmissionStore) (requestId : String) : AgentAdmissionStore :=
  match store.row requestId with
  | none => store
  | some row =>
    if row.record.state = .prepared then ⟨store.rows.erase requestId⟩ else store

end AgentAdmissionStore

end Wakterm.Agent
