import Wakterm.Mux.SessionStore

/-!
# The session files over a run

What a run keeps, crashes included: until a removal, `session.json` holds the
session of the last completed commit or of one that has begun since; after a
removal there is no `session.json` before the next commit has written it.
-/

namespace Wakterm.Mux

variable {file : SessionFile}

variable {Contents Bytes : Type} {fmt : SessionFormat Contents Bytes} {dirs : SessionDirs}

/-! ## Loading -/

/-- The file holds a session of this version. -/
def Readable (fmt : SessionFormat Contents Bytes) (bytes : Bytes)
    (session : SavedSession Contents) : Prop :=
  fmt.fromSlice bytes = .ok session ∧ session.version = sessionVersion

theorem readable_toVec (session : SavedSession Contents)
    (h : session.version = sessionVersion) : Readable fmt (fmt.toVec session) session :=
  ⟨fmt.roundTrip session, h⟩

variable {bytes : Bytes} {session : SavedSession Contents} {files : SessionFiles Bytes}

theorem readSession_readable (h : Readable fmt bytes session) :
    readSession fmt dirs file bytes = .ok session := by
  simp only [readSession, h.1, withContext, Except.mapError, h.2, if_true]

/-- There is such a file, and it holds this session. -/
def Holds (fmt : SessionFormat Contents Bytes) (files : SessionFiles Bytes) (file : SessionFile)
    (session : SavedSession Contents) : Prop :=
  ∃ bytes, files file = some bytes ∧ Readable fmt bytes session

theorem readable_of_readSession
    (h : readSession fmt dirs file bytes = .ok session) : Readable fmt bytes session := by
  unfold readSession at h
  cases hread : fmt.fromSlice bytes with
  | error e =>
    rw [hread] at h
    cases h
  | ok found =>
    simp only [hread, withContext, Except.mapError] at h
    split at h
    · next hversion =>
      cases h
      exact ⟨hread, hversion⟩
    · cases h

theorem Holds.unique {other : SavedSession Contents}
    (h : Holds fmt files file session) (h' : Holds fmt files file other) : session = other := by
  obtain ⟨bytes, hfile, hread, -⟩ := h
  obtain ⟨bytes', hfile', hread', -⟩ := h'
  rw [hfile] at hfile'
  cases hfile'
  rw [hread] at hread'
  cases hread'
  rfl

/-- A file that holds a session is loaded; otherwise the next ones are tried. -/
theorem loadFirst_cons (fmt : SessionFormat Contents Bytes) (dirs : SessionDirs)
    (files : SessionFiles Bytes) (file : SessionFile) (rest : List SessionFile)
    (failure : Option Failure) :
    (∃ session, Holds fmt files file session ∧ loadFirstValidSession fmt dirs files (file :: rest)
        failure = .ok (some (file, session))) ∨
      (∀ other, ¬ Holds fmt files file other) ∧ ∃ failure',
        loadFirstValidSession fmt dirs files (file :: rest) failure =
          loadFirstValidSession fmt dirs files rest failure' := by
  rw [loadFirstValidSession]
  cases hfile : files file with
  | none =>
    refine .inr ⟨?_, failure, rfl⟩
    rintro other ⟨bytes, hbytes, -⟩
    cases hfile.symm.trans hbytes
  | some bytes =>
    dsimp only
    cases hread : readSession fmt dirs file bytes with
    | ok session =>
      exact .inl ⟨session, ⟨bytes, hfile, readable_of_readSession hread⟩, rfl⟩
    | error e =>
      refine .inr ⟨?_, some e, rfl⟩
      rintro other ⟨bytes', hbytes, hother⟩
      cases hfile.symm.trans hbytes
      cases hread.symm.trans (readSession_readable hother)

/-- What is loaded from the files behind `session.json`. -/
theorem loadFallback_iff : (∃ file, loadFirstValidSession fmt dirs files [.previous, .legacy] none =
      .ok (some (file, session))) ↔
    Holds fmt files .previous session ∨
      (∀ other, ¬ Holds fmt files .previous other) ∧ Holds fmt files .legacy session := by
  rcases loadFirst_cons fmt dirs files .previous [.legacy] none with
    ⟨found, hholds, hload⟩ | ⟨hnone, failure, hload⟩
  · rw [hload]
    constructor
    · rintro ⟨file, heq⟩
      cases heq
      exact .inl hholds
    · rintro (h | ⟨hnone, -⟩)
      · rw [h.unique hholds]
        exact ⟨_, rfl⟩
      · exact absurd hholds (hnone found)
  · rw [hload]
    rcases loadFirst_cons fmt dirs files .legacy [] failure with
      ⟨found, hholds, hload⟩ | ⟨hnone', failure', hload⟩
    · rw [hload]
      constructor
      · rintro ⟨file, heq⟩
        cases heq
        exact .inr ⟨hnone, hholds⟩
      · rintro (h | ⟨-, h⟩)
        · exact absurd h (hnone session)
        · rw [h.unique hholds]
          exact ⟨_, rfl⟩
    · rw [hload]
      constructor
      · rintro ⟨file, heq⟩
        cases failure' with
        | none => cases heq
        | some e => cases heq
      · rintro (h | ⟨-, h⟩)
        · exact absurd h (hnone session)
        · exact absurd h (hnone' session)

theorem loadSession_of_readable (hfile : files .session = some bytes)
    (h : Readable fmt bytes session) :
    loadSession fmt dirs files = .ok (some (.session, session)) := by
  simp only [loadSession, loadFirstValidSession, hfile, readSession_readable h]

theorem loadSession_of_gone (hfile : files .session = none) : loadSession fmt dirs files =
      loadFirstValidSession fmt dirs files [.previous, .legacy] none := by
  simp only [loadSession, loadFirstValidSession, hfile]

theorem session_of_readValidSessionBytes (h : readValidSessionBytes fmt files = some bytes) :
    files .session = some bytes := by
  unfold readValidSessionBytes at h
  cases hfile : files .session with
  | none =>
    rw [hfile] at h
    cases h
  | some found =>
    rw [hfile] at h
    cases hread : fmt.fromSlice found with
    | error e =>
      simp only [hread] at h
      cases h
    | ok session =>
      simp only [hread] at h
      by_cases hversion : session.version = sessionVersion
      · rw [if_pos hversion] at h
        exact h
      · rw [if_neg hversion] at h
        cases h

@[simp] theorem SessionFiles.set_self (files : SessionFiles Bytes) (file : SessionFile)
    (bytes : Option Bytes) : files.set file bytes file = bytes := by
  simp [SessionFiles.set]

theorem SessionFiles.set_session {bytes : Option Bytes} (h : file ≠ .session) :
    files.set file bytes .session = files .session := by
  simp [SessionFiles.set, Ne.symm h]

namespace SessionStore

/-- The sessions a load may return: of the last completed commit, or of one
that has begun since. -/
def Acceptable (s : SessionStore Contents Bytes) (session : SavedSession Contents) : Prop :=
  s.completed = some session ∨ session ∈ s.pending

/-- `session.json` holds an acceptable session. -/
def Held (fmt : SessionFormat Contents Bytes) (s : SessionStore Contents Bytes) : Prop :=
  ∃ bytes session, s.files .session = some bytes ∧ Readable fmt bytes session ∧
    s.Acceptable session

/-- What is left to write of a commit: perhaps the previous file, then the
session file; once all is written the session file has the new bytes. -/
def Writing (fmt : SessionFormat Contents Bytes) (s : SessionStore Contents Bytes)
    (session : SavedSession Contents) (writes : List (SessionFile × Bytes)) : Prop :=
  (writes = [] ∧ s.cleared = false ∧ s.files .session = some (fmt.toVec session)) ∨
    writes = [(.session, fmt.toVec session)] ∨
    ∃ previous, writes = [(.previous, previous), (.session, fmt.toVec session)]

/-- What every run keeps. -/
structure Sound (fmt : SessionFormat Contents Bytes) (s : SessionStore Contents Bytes) :
    Prop where
  last : ∀ bytes, s.call = .idle → s.lastCommitted = some bytes →
    s.files .session = some bytes
  gone : s.cleared = true → s.files .session = none
  kept : s.cleared = false → s.completed.isSome = true → s.Held fmt
  committing : ∀ session writes, s.call = .committing session writes →
    session.version = sessionVersion ∧ session ∈ s.pending ∧ s.Writing fmt session writes
  clearing : ∀ removals, s.call = .clearing removals →
    s.cleared = true ∨ removals = [.session, .previous, .legacy]

theorem sound_start (files : SessionFiles Bytes) :
    (start files : SessionStore Contents Bytes).Sound fmt where
  last _ _ h := by cases h
  gone h := by cases h
  kept _ h := by cases h
  committing _ _ h := by cases h
  clearing _ h := by cases h

variable {s : SessionStore Contents Bytes}

theorem Sound.lastCommitted (h : s.Sound fmt) (hidle : s.call = .idle) {bytes : Bytes}
    (hlast : s.lastCommitted.or (readValidSessionBytes fmt s.files) = some bytes) :
    s.files .session = some bytes := by
  cases hmem : s.lastCommitted with
  | some found =>
    rw [hmem, Option.some_or] at hlast
    exact h.last bytes hidle (hmem.trans hlast)
  | none =>
    rw [hmem, Option.none_or] at hlast
    exact session_of_readValidSessionBytes hlast

theorem Sound.beginCommit [DecidableEq Bytes] (h : s.Sound fmt) (hidle : s.call = .idle)
    (session : SavedSession Contents) (hversion : session.version = sessionVersion) :
    (s.beginCommit fmt session).Sound fmt := by
  unfold SessionStore.beginCommit
  by_cases hsame : s.lastCommitted.or (readValidSessionBytes fmt s.files) =
      some (fmt.toVec session)
  · rw [if_pos hsame]
    have hfile := h.lastCommitted hidle hsame
    exact
      { last := fun bytes _ hlast => h.lastCommitted hidle hlast
        gone := h.gone
        kept := fun _ _ =>
          ⟨_, session, hfile, readable_toVec session hversion, .inl rfl⟩
        committing := fun x writes hcall => absurd (hidle.symm.trans hcall) (by simp)
        clearing := fun removals hcall => absurd (hidle.symm.trans hcall) (by simp) }
  · rw [if_neg hsame]
    refine
      { last := fun bytes hcall _ => by cases hcall
        gone := h.gone
        kept := fun hcleared hsome => ?_
        committing := fun x writes hcall => ?_
        clearing := fun removals hcall => by cases hcall }
    · obtain ⟨bytes, x, hfile, hread, hx⟩ := h.kept hcleared hsome
      exact ⟨bytes, x, hfile, hread, hx.imp id (List.mem_cons_of_mem _)⟩
    · simp only [SessionCall.committing.injEq] at hcall
      obtain ⟨rfl, rfl⟩ := hcall
      refine ⟨hversion, List.mem_cons_self, ?_⟩
      cases s.lastCommitted.or (readValidSessionBytes fmt s.files) with
      | none => exact .inr (.inl rfl)
      | some previous => exact .inr (.inr ⟨previous, rfl⟩)

theorem Sound.beginRestore (h : s.Sound fmt) (totalTabs : Nat) :
    (s.beginRestore fmt dirs totalTabs).Sound fmt := by
  unfold SessionStore.beginRestore
  split
  · by_cases htabs : 0 < totalTabs
    · rw [if_pos htabs]
      exact
        { last := fun bytes hcall _ => by cases hcall
          gone := h.gone
          kept := h.kept
          committing := fun x writes hcall => by cases hcall
          clearing := fun removals hcall => .inr (SessionCall.clearing.inj hcall).symm }
    · rw [if_neg htabs]
      exact h
  · exact h

theorem Sound.write (h : s.Sound fmt) {session : SavedSession Contents}
    {bytes : Bytes} {writes : List (SessionFile × Bytes)}
    (hcall : s.call = .committing session ((file, bytes) :: writes)) :
    (s.advance fmt).Sound fmt := by
  obtain ⟨hversion, hmem, hwriting⟩ := h.committing _ _ hcall
  simp only [SessionStore.advance, hcall]
  rcases hwriting with ⟨hnil, _⟩ | hone | ⟨previous, htwo⟩
  · cases hnil
  · -- the session file itself
    simp only [List.cons.injEq, Prod.mk.injEq] at hone
    obtain ⟨⟨rfl, rfl⟩, rfl⟩ := hone
    have hfile : (s.files.set .session (some (fmt.toVec session))) .session =
        some (fmt.toVec session) := SessionFiles.set_self _ _ _
    exact
      { last := fun bytes hidle _ => by cases hidle
        gone := fun hcleared => by cases hcleared
        kept := fun _ _ => ⟨_, session, hfile,
          readable_toVec session hversion, .inr hmem⟩
        committing := fun x rest hx => by
          simp only [SessionCall.committing.injEq] at hx
          obtain ⟨rfl, rfl⟩ := hx
          exact ⟨hversion, hmem, .inl ⟨rfl, rfl, hfile⟩⟩
        clearing := fun removals hx => by cases hx }
  · -- the previous file, which `session.json` does not depend on
    simp only [List.cons.injEq, Prod.mk.injEq] at htwo
    obtain ⟨⟨rfl, rfl⟩, rfl⟩ := htwo
    have hfile : (s.files.set .previous (some bytes)) .session = s.files .session :=
      SessionFiles.set_session (by simp)
    refine
      { last := fun bytes hidle _ => by cases hidle
        gone := fun hcleared => hfile.trans (h.gone hcleared)
        kept := fun hcleared hsome => ?_
        committing := fun x rest hx => ?_
        clearing := fun removals hx => by cases hx }
    · obtain ⟨found, x, hfound, hread, hx⟩ := h.kept hcleared hsome
      exact ⟨found, x, hfile.trans hfound, hread, hx⟩
    · simp only [SessionCall.committing.injEq] at hx
      obtain ⟨rfl, rfl⟩ := hx
      exact ⟨hversion, hmem, .inr (.inl rfl)⟩

theorem Sound.remove (h : s.Sound fmt) {removals : List SessionFile}
    (hcall : s.call = .clearing (file :: removals)) : (s.advance fmt).Sound fmt := by
  simp only [SessionStore.advance, hcall]
  have hgone : (s.files.set file none) .session = none := by
    by_cases hfile : file = .session
    · rw [hfile, SessionFiles.set_self]
    · rw [SessionFiles.set_session hfile]
      rcases h.clearing _ hcall with hcleared | hall
      · exact h.gone hcleared
      · exact absurd (List.cons.inj hall).1 hfile
  exact
    { last := fun bytes hidle _ => by cases hidle
      gone := fun _ => hgone
      kept := fun hcleared _ => by cases hcleared
      committing := fun x writes hx => by cases hx
      clearing := fun rest _ => .inl rfl }

theorem Sound.advance (h : s.Sound fmt) : (s.advance fmt).Sound fmt := by
  cases hcall : s.call with
  | idle =>
    simp only [SessionStore.advance, hcall]
    exact h
  | committing session writes =>
    cases writes with
    | cons write writes => exact h.write hcall
    | nil =>
      obtain ⟨hversion, hmem, hwriting⟩ := h.committing _ _ hcall
      simp only [SessionStore.advance, hcall]
      rcases hwriting with ⟨_, hcleared, hfile⟩ | hone | ⟨previous, htwo⟩
      · exact
          { last := fun bytes _ hlast => hfile.trans hlast
            gone := fun hgone => by
              rw [hcleared] at hgone
              cases hgone
            kept := fun _ _ =>
              ⟨_, session, hfile, readable_toVec session hversion, .inl rfl⟩
            committing := fun x writes hx => by cases hx
            clearing := fun removals hx => by cases hx }
      · cases hone
      · cases htwo
  | clearing removals =>
    cases removals with
    | cons file removals => exact h.remove hcall
    | nil =>
      simp only [SessionStore.advance, hcall]
      exact
        { last := fun bytes _ hlast => by cases hlast
          gone := h.gone
          kept := h.kept
          committing := fun x writes hx => by cases hx
          clearing := fun removals hx => by cases hx }

theorem Sound.crash (h : s.Sound fmt) :
    { s with lastCommitted := none, call := .idle }.Sound fmt where
  last _ _ hlast := by cases hlast
  gone := h.gone
  kept := h.kept
  committing _ _ hcall := by cases hcall
  clearing _ hcall := by cases hcall

theorem Sound.step [DecidableEq Bytes] (h : s.Sound fmt) (e : SessionEvent Contents) :
    (s.step fmt dirs e).Sound fmt := by
  cases e with
  | advance => exact h.advance
  | crash => exact h.crash
  | commit contents =>
    cases hcall : s.call with
    | idle =>
      simp only [SessionStore.step, hcall]
      exact h.beginCommit hcall _ rfl
    | committing session writes =>
      simp only [SessionStore.step, hcall]
      exact h
    | clearing removals =>
      simp only [SessionStore.step, hcall]
      exact h
  | restore totalTabs =>
    cases hcall : s.call with
    | idle =>
      simp only [SessionStore.step, hcall]
      exact h.beginRestore totalTabs
    | committing session writes =>
      simp only [SessionStore.step, hcall]
      exact h
    | clearing removals =>
      simp only [SessionStore.step, hcall]
      exact h

/-- **Every run is sound**, whatever was in the files at first. -/
theorem Sound.run [DecidableEq Bytes] (h : s.Sound fmt) (events : List (SessionEvent Contents)) :
    (s.run fmt dirs events).Sound fmt := by
  induction events generalizing s with
  | nil => exact h
  | cons e events ih => exact ih (h.step e)

end SessionStore

end Wakterm.Mux
