import Mathlib.Logic.Function.Basic
import Wakterm.Machine.Steps

/-!
# Blob leases in a temporary directory

`SimpleTempDir` of the `wakterm-blob-leases` crate: a directory with one file for each content that
is leased, and the number of leases and readers of each behind a lock.
-/

namespace Wakterm.Blob

open Machine

structure ContentId where
  bytes : List UInt8
  length_bytes : bytes.length = 32
  deriving DecidableEq

/-- The name of its file, as it is displayed: a byte below 16 is one digit. -/
def ContentId.path (contentId : ContentId) : List Char :=
  "sha256-".toList ++ contentId.bytes.flatMap fun byte => Nat.toDigits 16 byte.toNat

/-- The variants of `Error` that `SimpleTempDir` returns. -/
inductive Error where
  | contentNotFound (contentId : ContentId)
  | io
  | storageDirIoError (path : List Char)

/-- What a call returns: data only from `get_data`. -/
abbrev Outcome : Type := Except Error (List UInt8)

/-- The operations. A lease and a reader are dropped alike. -/
inductive Op where
  | store (contentId : ContentId) (data : List UInt8)
  | leaseByContent (contentId : ContentId)
  | getData (contentId : ContentId)
  | getReader (contentId : ContentId)
  | drop (contentId : ContentId)

/-- What a call does next. -/
inductive Phase where
  | lock | createDir | exists | createFile | write | persist | read | open | addRef | remove

/-- A call, under way or over. -/
inductive Call where
  | running (op : Op) (phase : Phase)
  | done (outcome : Outcome)

/-- `SimpleTempDir`, its directory, the calls, and the leases and readers that callers hold. -/
structure SimpleTempDir where
  refs : ContentId → Option Nat
  locked : Option Nat
  files : List Char → Option (List UInt8)
  calls : List Call
  live : List ContentId
  underflow : Bool

namespace SimpleTempDir

def new : SimpleTempDir := ⟨fun _ => none, none, fun _ => none, [], [], false⟩

/-- The call goes on. -/
def goto (s : SimpleTempDir) (i : Nat) (call : Call) : SimpleTempDir :=
  { s with calls := s.calls.set i call }

/-- The lock is taken, if it is free. Whoever has it waits for ever. -/
def acquire (s : SimpleTempDir) (i : Nat) : Option SimpleTempDir :=
  if s.locked = none then some { s with locked := some i } else none

/-- The lock is released, as the call returns. -/
def leave (s : SimpleTempDir) (i : Nat) (outcome : Outcome) : SimpleTempDir :=
  { s with locked := none, calls := s.calls.set i (.done outcome) }

/-- The call returns `Ok` with a lease or a reader, which is alive from now on. -/
def handOut (s : SimpleTempDir) (i : Nat) (contentId : ContentId) : SimpleTempDir :=
  { s.leave i (.ok []) with live := contentId :: s.live }

/-- `*refs.entry(content_id).or_insert(0) += 1`. -/
def increment (s : SimpleTempDir) (contentId : ContentId) : SimpleTempDir :=
  { s with refs := Function.update s.refs contentId (some ((s.refs contentId).getD 0 + 1)) }

/-- `*count = ..`. -/
def setCount (s : SimpleTempDir) (contentId : ContentId) (count : Nat) : SimpleTempDir :=
  { s with refs := Function.update s.refs contentId (some count) }

/-- A file is written, or removed. -/
def setFile (s : SimpleTempDir) (path : List Char) (data : Option (List UInt8)) : SimpleTempDir :=
  { s with files := Function.update s.files path data }

/-- `store`. -/
def stepStore (s : SimpleTempDir) (i : Nat) (contentId : ContentId) (data : List UInt8)
    (ok : Bool) : Phase → Option SimpleTempDir
  | .lock => (s.acquire i).map (goto · i (.running (.store contentId data) .createDir))
  | .createDir =>
    if ok then some (s.goto i (.running (.store contentId data) .exists))
    else some (s.leave i (.error (.storageDirIoError contentId.path)))
  | .exists =>
    if ok && (s.files contentId.path).isSome then
      some ((s.increment contentId).handOut i contentId)
    else some (s.goto i (.running (.store contentId data) .createFile))
  | .createFile =>
    if ok then some (s.goto i (.running (.store contentId data) .write))
    else some (s.leave i (.error .io))
  | .write =>
    if ok then some (s.goto i (.running (.store contentId data) .persist))
    else some (s.leave i (.error .io))
  | .persist =>
    if ok then some (((s.setFile contentId.path data).increment contentId).handOut i contentId)
    else some (s.leave i (.error .io))
  | _ => none

/-- `lease_by_content`. What it calls takes the lock again. -/
def stepLease (s : SimpleTempDir) (i : Nat) (contentId : ContentId) (ok : Bool) :
    Phase → Option SimpleTempDir
  | .lock => (s.acquire i).map (goto · i (.running (.leaseByContent contentId) .createDir))
  | .createDir =>
    if ok then some (s.goto i (.running (.leaseByContent contentId) .exists))
    else some (s.leave i (.error (.storageDirIoError contentId.path)))
  | .exists =>
    if ok && (s.files contentId.path).isSome then
      some (s.goto i (.running (.leaseByContent contentId) .addRef))
    else some (s.leave i (.error (.contentNotFound contentId)))
  | .addRef => (s.acquire i).map fun s => (s.increment contentId).handOut i contentId
  | _ => none

/-- `get_data`. -/
def stepData (s : SimpleTempDir) (i : Nat) (contentId : ContentId) (ok : Bool) :
    Phase → Option SimpleTempDir
  | .lock => (s.acquire i).map (goto · i (.running (.getData contentId) .createDir))
  | .createDir =>
    if ok then some (s.goto i (.running (.getData contentId) .read))
    else some (s.leave i (.error (.storageDirIoError contentId.path)))
  | .read =>
    match s.files contentId.path with
    | some data =>
      if ok then some (s.leave i (.ok data))
      else some (s.leave i (.error (.storageDirIoError contentId.path)))
    | none => some (s.leave i (.error (.storageDirIoError contentId.path)))
  | _ => none

/-- `get_reader`: the lock is taken once the file is open. -/
def stepReader (s : SimpleTempDir) (i : Nat) (contentId : ContentId) (ok : Bool) :
    Phase → Option SimpleTempDir
  | .createDir =>
    if ok then some (s.goto i (.running (.getReader contentId) .open))
    else some (s.goto i (.done (.error (.storageDirIoError contentId.path))))
  | .open =>
    if ok && (s.files contentId.path).isSome then
      some (s.goto i (.running (.getReader contentId) .addRef))
    else some (s.goto i (.done (.error .io)))
  | .addRef => (s.acquire i).map fun s => (s.increment contentId).handOut i contentId
  | _ => none

/-- What `del_ref` does once it has the lock: the last reference takes the file with it. -/
def delRef (s : SimpleTempDir) (i : Nat) (contentId : ContentId) : SimpleTempDir :=
  match s.refs contentId with
  | some 0 => { s.leave i (.ok []) with underflow := true }
  | some 1 => s.goto i (.running (.drop contentId) .createDir)
  | some (count + 2) => (s.setCount contentId (count + 1)).leave i (.ok [])
  | none => s.leave i (.ok [])

/-- `del_ref`, by which a lease or a reader is dropped. -/
def stepDrop (s : SimpleTempDir) (i : Nat) (contentId : ContentId) (ok : Bool) :
    Phase → Option SimpleTempDir
  | .lock => (s.acquire i).map (delRef · i contentId)
  | .createDir =>
    if ok then some (s.goto i (.running (.drop contentId) .remove))
    else some ((s.setCount contentId 0).leave i (.ok []))
  | .remove =>
    if ok then some (((s.setFile contentId.path none).setCount contentId 0).leave i (.ok []))
    else some ((s.setCount contentId 0).leave i (.ok []))
  | _ => none

/-- The next step of a call. -/
def advance (s : SimpleTempDir) (i : Nat) (ok : Bool) : Call → Option SimpleTempDir
  | .running (.store contentId data) phase => s.stepStore i contentId data ok phase
  | .running (.leaseByContent contentId) phase => s.stepLease i contentId ok phase
  | .running (.getData contentId) phase => s.stepData i contentId ok phase
  | .running (.getReader contentId) phase => s.stepReader i contentId ok phase
  | .running (.drop contentId) phase => s.stepDrop i contentId ok phase
  | .done _ => none

/-- A call begins, or goes on; what it does to the file system may fail. A lease or a reader is
dropped by the one who holds it. -/
inductive Event where
  | store (contentId : ContentId) (data : List UInt8)
  | leaseByContent (contentId : ContentId)
  | getData (contentId : ContentId)
  | getReader (contentId : ContentId)
  | drop (holder : Nat)
  | advance (i : Nat) (ok : Bool)

def begin (s : SimpleTempDir) (op : Op) (phase : Phase) : SimpleTempDir :=
  { s with calls := s.calls ++ [.running op phase] }

def step (s : SimpleTempDir) : Event → Option SimpleTempDir
  | .store contentId data => some (s.begin (.store contentId data) .lock)
  | .leaseByContent contentId => some (s.begin (.leaseByContent contentId) .lock)
  | .getData contentId => some (s.begin (.getData contentId) .lock)
  | .getReader contentId => some (s.begin (.getReader contentId) .createDir)
  | .drop holder =>
    s.live[holder]?.map fun contentId =>
      { s with live := s.live.eraseIdx holder }.begin (.drop contentId) .lock
  | .advance i ok => s.calls[i]?.bind (s.advance i ok)

end SimpleTempDir

end Wakterm.Blob
