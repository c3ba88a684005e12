import Wakterm.Mux.SessionRestore

/-!
# `mux::session_persistence`: the session files

A commit keeps the last committed bytes as `session.json.prev` and replaces `session.json`; a
restore removes the session files one by one.
-/

namespace Wakterm.Mux

def sessionVersion : Nat := 5

/-- `SavedSession`; the windows, intents and tokens are its contents. -/
structure SavedSession (Contents : Type) where
  version : Nat
  contents : Contents
  deriving DecidableEq

/-- `build_saved_session`, from what the mux has to save. -/
def buildSavedSession {Contents : Type} (contents : Contents) : SavedSession Contents where
  version := sessionVersion
  contents := contents

/-- `serde_json` for `SavedSession`: what was written reads back. -/
structure SessionFormat (Contents Bytes : Type) where
  toVec : SavedSession Contents → Bytes
  fromSlice : Bytes → Except Failure (SavedSession Contents)
  roundTrip : ∀ session, fromSlice (toVec session) = .ok session

inductive SessionFile where
  | session
  | previous
  | legacy
  deriving DecidableEq

/-- `config::DATA_DIR` and `config::RUNTIME_DIR`. -/
structure SessionDirs where
  dataDir : String
  runtimeDir : String

/-- `session_path`, `previous_session_path` and `legacy_session_path`. -/
def SessionFile.path (dirs : SessionDirs) : SessionFile → String
  | .session => dirs.dataDir ++ "/session.json"
  | .previous => dirs.dataDir ++ "/session.json.prev"
  | .legacy => dirs.runtimeDir ++ "/session.json"

/-- The contents of the files that exist. -/
abbrev SessionFiles (Bytes : Type) := SessionFile → Option Bytes

/-- A file that has been replaced, or removed. -/
def SessionFiles.set {Bytes : Type} (files : SessionFiles Bytes) (file : SessionFile)
    (bytes : Option Bytes) : SessionFiles Bytes :=
  fun f => if f = file then bytes else files f

section Load

variable {Contents Bytes : Type} (fmt : SessionFormat Contents Bytes) (dirs : SessionDirs)

def readValidSessionBytes (files : SessionFiles Bytes) : Option Bytes :=
  match files .session with
  | none => none
  | some bytes =>
    match fmt.fromSlice bytes with
    | .error _ => none
    | .ok session => if session.version = sessionVersion then some bytes else none

/-- One file of `load_first_valid_session`. -/
def readSession (file : SessionFile) (bytes : Bytes) :
    Except Failure (SavedSession Contents) :=
  match withContext [s!"parsing session from {file.path dirs}"] (fmt.fromSlice bytes) with
  | .error e => .error e
  | .ok session =>
    if session.version = sessionVersion then .ok session
    else .error [s!"session file {file.path dirs} has version {session.version}, " ++
      s!"expected {sessionVersion}"]

/-- The loop of `load_first_valid_session`, with the last failure so far. -/
def loadFirstValidSession (files : SessionFiles Bytes) :
    List SessionFile → Option Failure → Except Failure (Option (SessionFile × SavedSession Contents))
  | [], none => .ok none
  | [], some e => .error ("no valid saved session fallback" :: e)
  | file :: rest, failure =>
    match files file with
    | none => loadFirstValidSession files rest failure
    | some bytes =>
      match readSession fmt dirs file bytes with
      | .ok session => .ok (some (file, session))
      | .error e => loadFirstValidSession files rest (some e)

/-- `load_session`, with the file the session comes from. -/
def loadSession (files : SessionFiles Bytes) :
    Except Failure (Option (SessionFile × SavedSession Contents)) :=
  loadFirstValidSession fmt dirs files [.session, .previous, .legacy] none

end Load

/-! ## Runs of the steps -/

/-- The call that is under way: the files a commit has yet to write, or those a
`clear_session` has yet to remove. -/
inductive SessionCall (Contents Bytes : Type) where
  | idle
  | committing (session : SavedSession Contents) (writes : List (SessionFile × Bytes))
  | clearing (removals : List SessionFile)

/-- The data directory and the process, `LAST_COMMITTED_SESSION` being all that
the calls share in memory. Of the run it is remembered which commit was the
last to complete, which ones have begun since, and whether a removal has come
since `session.json` was last written. -/
structure SessionStore (Contents Bytes : Type) where
  files : SessionFiles Bytes
  lastCommitted : Option Bytes
  call : SessionCall Contents Bytes
  completed : Option (SavedSession Contents)
  pending : List (SavedSession Contents)
  cleared : Bool

/-- What can happen next. `restore totalTabs` is a `restore_session` whose
respawn brings back that many tabs. -/
inductive SessionEvent (Contents : Type) where
  | commit (contents : Contents)
  | restore (totalTabs : Nat)
  | advance
  | crash

namespace SessionStore

variable {Contents Bytes : Type} (fmt : SessionFormat Contents Bytes) (dirs : SessionDirs)

/-- A process that has just started on what is in the directories. -/
def start (files : SessionFiles Bytes) : SessionStore Contents Bytes where
  files := files
  lastCommitted := none
  call := .idle
  completed := none
  pending := []
  cleared := false

/-- The beginning of `commit_serialized_session`, up to its first write; when
the bytes are those last committed there is nothing to write. -/
def beginCommit [DecidableEq Bytes] (s : SessionStore Contents Bytes)
    (session : SavedSession Contents) : SessionStore Contents Bytes :=
  let bytes := fmt.toVec session
  let lastCommitted := s.lastCommitted.or (readValidSessionBytes fmt s.files)
  if lastCommitted = some bytes then
    { s with lastCommitted := lastCommitted, completed := some session, pending := [] }
  else
    { s with
      lastCommitted := lastCommitted
      call := .committing session
        ((lastCommitted.map fun previous => (.previous, previous)).toList ++ [(.session, bytes)])
      pending := session :: s.pending }

/-- `restore_session` up to `clear_session`: a session is loaded and respawned. -/
def beginRestore (s : SessionStore Contents Bytes) (totalTabs : Nat) :
    SessionStore Contents Bytes :=
  match loadSession fmt dirs s.files with
  | .ok (some _) =>
    if 0 < totalTabs then { s with call := .clearing [.session, .previous, .legacy] } else s
  | _ => s

/-- The next step of the call under way. -/
def advance (s : SessionStore Contents Bytes) : SessionStore Contents Bytes :=
  match s.call with
  | .idle => s
  | .committing session ((file, bytes) :: writes) =>
    { s with
      files := s.files.set file (some bytes)
      call := .committing session writes
      cleared := if file = .session then false else s.cleared }
  | .committing session [] =>
    -- the directory has been synced
    { s with
      lastCommitted := some (fmt.toVec session)
      call := .idle
      completed := some session
      pending := [] }
  | .clearing (file :: removals) =>
    { s with
      files := s.files.set file none
      call := .clearing removals
      cleared := true }
  | .clearing [] => { s with lastCommitted := none, call := .idle }

/-- One event. Calls follow each other, so a new one waits for the last. -/
def step [DecidableEq Bytes] (s : SessionStore Contents Bytes) :
    SessionEvent Contents → SessionStore Contents Bytes
  | .commit contents =>
    match s.call with
    | .idle => s.beginCommit fmt (buildSavedSession contents)
    | _ => s
  | .restore totalTabs =>
    match s.call with
    | .idle => s.beginRestore fmt dirs totalTabs
    | _ => s
  | .advance => s.advance fmt
  | .crash => { s with lastCommitted := none, call := .idle }

def run [DecidableEq Bytes] (s : SessionStore Contents Bytes)
    (events : List (SessionEvent Contents)) : SessionStore Contents Bytes :=
  events.foldl (step fmt dirs) s

end SessionStore

end Wakterm.Mux
