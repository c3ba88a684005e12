import Mathlib.Algebra.Group.Int.Defs
import Mathlib.Algebra.Group.Nat.Defs
import Mathlib.Data.Int.Notation
import Wakterm.Agent.Projection
import Wakterm.Agent.Request
import Wakterm.Machine.Lines

/-!
# JSON values and text

The part of `serde_json::Value` and of Rust's `str` that the provider logs are read with.
-/

namespace Wakterm.Agent

/-- `serde_json::Value`. A number is an integer of 64 bits, with or without sign, or a floating
point number, which nothing here reads. -/
inductive Json where
  | null
  | bool (value : Bool)
  | int (value : Int)
  | float
  | str (value : String)
  | arr (values : List Json)
  | obj (entries : List (String × Json))

namespace Json

def get (v : Json) (key : String) : Option Json :=
  match v with
  | .obj entries => entries.lookup key
  | _ => none

def asStr : Json → Option String
  | .str value => some value
  | _ => none

def asArray : Json → Option (List Json)
  | .arr values => some values
  | _ => none

def asU64 : Json → Option Nat
  | .int value => if 0 ≤ value ∧ value < 2 ^ 64 then some value.toNat else none
  | _ => none

def asI64 : Json → Option Int
  | .int value => if -(2 ^ 63) ≤ value ∧ value < 2 ^ 63 then some value else none
  | _ => none

/-- `get(key).and_then(Value::as_str)`. -/
def getStr (v : Json) (key : String) : Option String := (v.get key).bind asStr

end Json

/-! ## Text -/

/-- What stands behind the first occurrence of `pattern`. -/
def afterFirst (pattern : List Char) : List Char → Option (List Char)
  | [] => if pattern.isEmpty then some [] else none
  | c :: text =>
    if pattern.isPrefixOf (c :: text) then some ((c :: text).drop pattern.length)
    else afterFirst pattern text

/-- What stands before the first occurrence of `pattern`. -/
def beforeFirst (pattern : List Char) : List Char → Option (List Char)
  | [] => if pattern.isEmpty then some [] else none
  | c :: text =>
    if pattern.isPrefixOf (c :: text) then some []
    else (beforeFirst pattern text).map (c :: ·)

/-- The texts that are there and not blank, trimmed, one a line; `none` if there is none. -/
def joinTexts (texts : List String) : Option String :=
  let parts := (texts.map trim).filter (· ≠ "")
  if parts.isEmpty then none else some ("\n".intercalate parts)

end Wakterm.Agent

/-!
## Reading a provider's log

Codex, agy and Muse append their session to a file of JSON lines. A `JsonlCursor` says how far the
file was read and what the records so far leave open.
-/

namespace Wakterm.Agent

open Wakterm.Machine

/-- What the program takes from elsewhere: the digest of bytes in hex, `serde_json::from_slice`
and the text of a value, `DateTime::parse_from_rfc3339` and `Utc.timestamp_micros`. -/
structure Env where
  sha256 : List UInt8 → String
  fromSlice : List UInt8 → Option Json
  print : Json → String
  parseTime : String → Option DateTime
  timestampMicros : Int → Option DateTime

def Env.digest (env : Env) (text : String) : String := env.sha256 text.toUTF8.toList

def maxProviderRecordBytes : Nat := 4 * 1024 * 1024

def checkpointBytes : Nat := 64 * 1024

structure PendingTurnStart where
  recordKey : String
  turnId : String
  observedAt : DateTime
  deriving DecidableEq

def PendingTurnStart.events (start : PendingTurnStart) (inputSha256 : Option String) :
    List PendingEvent :=
  [{ PendingEvent.new (start.recordKey ++ ":started") .turnStarted start.observedAt with
      turnId := some start.turnId
      inputSha256 := inputSha256 },
    { PendingEvent.new (start.recordKey ++ ":state") .turnStateChanged start.observedAt with
      turnId := some start.turnId
      turnState := some "waiting_on_agent" }]

/-- `JsonlCursor`, less what only Claude's projection keeps in it. -/
structure JsonlCursor where
  sourceId : String
  offset : Nat
  checkpointSha256 : String
  currentTurnId : Option String
  lastAssistantText : Option String
  turnOpen : Bool
  pendingTurnStart : Option PendingTurnStart
  turnBeforeGap : Option String
  armedAt : Option DateTime
  lastRecordAt : Option DateTime
  steerRuns : List String
  queuedSteers : List String
  deriving DecidableEq

def JsonlCursor.suspendTurnAtGap (c : JsonlCursor) : JsonlCursor :=
  { c with
    currentTurnId := none
    turnBeforeGap := c.currentTurnId.or c.turnBeforeGap
    lastAssistantText := none }

/-- What a provider makes of one record: the time it is given, its offset, the record and the
cursor. -/
abbrev Visitor : Type := DateTime → Nat → Json → JsonlCursor → JsonlCursor × List PendingEvent

section Reading

variable (env : Env)

/-- `checkpoint_sha256`, of a file that has `offset` bytes. -/
def checkpointSha256 (file : List UInt8) (offset : Nat) : String :=
  env.sha256 ((file.take offset).drop (offset - checkpointBytes))

def recordTime (record : Json) : Option DateTime :=
  (((record.get "timestamp").or (record.get "created_at")).bind Json.asStr).bind env.parseTime

/-- The rest of a record that is too long is read in pieces and forgotten. The bytes that were
read, if the record's newline is among them. -/
def drain : Nat → List UInt8 → Nat → Option Nat
  | 0, _, _ => none
  | fuel + 1, rest, consumed =>
    let line := readUntil (64 * 1024) rest
    if line.isEmpty then none
    else if endsLine line then some (consumed + line.length)
    else drain fuel (rest.drop line.length) (consumed + line.length)

/-- A record that is too long: it might have been a new turn or a message. -/
def skipOversized (now : DateTime) (c : JsonlCursor) (consumed : Nat) :
    JsonlCursor × List PendingEvent :=
  let start := toString c.offset
  ({ c.suspendTurnAtGap with offset := c.offset + consumed },
    [observerFailure (c.sourceId ++ ":" ++ start ++ ":oversized-record") now none
      ("provider record at byte " ++ start ++ " exceeds the " ++ toString maxProviderRecordBytes ++
        "-byte bound; skipped " ++ toString consumed ++
        " bytes and resumed at the next record; turn attribution was cleared")])

/-- A complete line that is no JSON; the parser's own message is left out of the detail. -/
def skipInvalid (now : DateTime) (c : JsonlCursor) (read : Nat) :
    JsonlCursor × List PendingEvent :=
  let start := toString c.offset
  ({ c.suspendTurnAtGap with offset := c.offset + read },
    [observerFailure (c.sourceId ++ ":" ++ start ++ ":invalid-record") now none
      ("provider record at byte " ++ start ++ " is not valid JSON; skipped " ++ toString read ++
        " bytes and resumed at the next record; turn attribution was cleared")])

/-- A complete line: its record is visited. Records that the previous session file had already
reported change the cursor but report no events. -/
def readRecord (visit : Visitor) (now : DateTime) (c : JsonlCursor) (line : List UInt8) :
    JsonlCursor × List PendingEvent :=
  match env.fromSlice line with
  | none => skipInvalid now c line.length
  | some record =>
    let start := c.offset
    let (c, visited) := visit now start record { c with offset := c.offset + line.length }
    let time := recordTime env record
    let recordedEarlier := c.armedAt.any fun armedAt => time.any fun time => time ≤ armedAt
    ({ c with lastRecordAt := match time with
        | none => c.lastRecordAt
        | some time => some (c.lastRecordAt.elim time (max · time)) },
      if recordedEarlier then [] else visited)

/-- The loop of `read_new_jsonl`, on the bytes past the cursor. -/
def readRecords (visit : Visitor) (clock : Nat → DateTime) :
    Nat → List UInt8 → JsonlCursor → JsonlCursor × List PendingEvent
  | 0, _, c => (c, [])
  | fuel + 1, rest, c =>
    let line := readUntil (maxProviderRecordBytes + 1) rest
    if line.isEmpty then (c, [])
    else if maxProviderRecordBytes < line.length then
      let complete :=
        if endsLine line then some line.length
        else drain fuel (rest.drop line.length) line.length
      match complete with
      | none => (c, [])
      | some consumed =>
        let (c, skipped) := skipOversized (clock c.offset) c consumed
        let (c, events) := readRecords visit clock fuel (rest.drop consumed) c
        (c, skipped ++ events)
    else if !endsLine line then (c, [])
    else
      let (c, visited) := readRecord env visit (clock c.offset) c line
      let (c, events) := readRecords visit clock fuel (rest.drop line.length) c
      (c, visited ++ events)

/-- `read_new_jsonl`. `none` is the error that the session was truncated or rewritten. -/
def readNewJsonl (visit : Visitor) (clock : Nat → DateTime) (file : List UInt8)
    (c : JsonlCursor) : Option (JsonlCursor × List PendingEvent) :=
  if file.length < c.offset ∨ checkpointSha256 env file c.offset ≠ c.checkpointSha256 then none
  else
    let rest := file.drop c.offset
    let (c, events) := readRecords env visit clock (rest.length + 1) rest c
    some ({ c with checkpointSha256 := checkpointSha256 env file c.offset }, events)

end Reading

end Wakterm.Agent
