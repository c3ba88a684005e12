import Wakterm.Mux.Logic.SessionRestore
import Wakterm.Mux.Logic.SessionStore

/-!
# The saved session after a crash

Writing is crash safe: at every point of every run `session.json` holds the session of the last
completed commit or of one begun since, until a `clear_session` removes it.
-/

namespace Wakterm.Theorems.SessionStore

open Wakterm.Mux Wakterm.Mux.SessionStore

variable {Contents Bytes : Type}

/-- Once a commit has completed, what would be loaded is its session, or that
of a commit begun since. -/
def Survives (fmt : SessionFormat Contents Bytes) (dirs : SessionDirs)
    (s : SessionStore Contents Bytes) : Prop :=
  s.completed.isSome = true →
    ∃ file session, loadSession fmt dirs s.files = .ok (some (file, session)) ∧
      s.Acceptable session

/-- No removal has come since `session.json` was last written, unless the first of the other files
that holds a session happens to hold an acceptable one. -/
def Uncleared (fmt : SessionFormat Contents Bytes) (s : SessionStore Contents Bytes) : Prop :=
  s.completed.isSome = true → s.cleared = true → ∃ session, s.Acceptable session ∧
    (Holds fmt s.files .previous session ∨
      (∀ other, ¬ Holds fmt s.files .previous other) ∧ Holds fmt s.files .legacy session)

/-- **Exactly when the session survives a crash**, at every point of every run,
whatever the files held at first. -/
theorem survives_iff_uncleared [DecidableEq Bytes] (fmt : SessionFormat Contents Bytes)
    (dirs : SessionDirs) (files : SessionFiles Bytes) (events : List (SessionEvent Contents)) :
    Survives fmt dirs ((SessionStore.start files).run fmt dirs events) ↔
      Uncleared fmt ((SessionStore.start files).run fmt dirs events) := by
  have hsound : ((SessionStore.start files).run fmt dirs events).Sound fmt :=
    (sound_start files).run events
  generalize (SessionStore.start files).run fmt dirs events = s at hsound
  constructor
  · intro h hsome hcleared
    obtain ⟨file, session, hload, hok⟩ := h hsome
    rw [loadSession_of_gone (hsound.gone hcleared)] at hload
    exact ⟨session, hok, loadFallback_iff.mp ⟨file, hload⟩⟩
  · intro h hsome
    cases hcleared : s.cleared with
    | true =>
      rw [loadSession_of_gone (hsound.gone hcleared)]
      obtain ⟨session, hok, hheld⟩ := h hsome hcleared
      obtain ⟨file, hload⟩ := loadFallback_iff.mpr hheld
      exact ⟨file, session, hload, hok⟩
    | false =>
      obtain ⟨bytes, session, hfile, hread, hok⟩ := hsound.kept hcleared hsome
      exact ⟨.session, session, loadSession_of_readable hfile hread, hok⟩

/-- Sessions that are their own bytes. -/
def plainFormat : SessionFormat Nat (SavedSession Nat) where
  toVec session := session
  fromSlice bytes := .ok bytes
  roundTrip _ := rfl

/-- Two commits, a restart with a restore that brings back a tab, and a crash
after the first file has been removed. -/
def clearedTooSoon : List (SessionEvent Nat) :=
  [.commit 1, .advance, .advance, .commit 2, .advance, .advance, .advance, .crash,
    .restore 1, .advance, .crash]

/-- The session before the last one is loaded. -/
theorem older_session_loaded : ¬ ∀ events, Survives plainFormat ⟨"data", "run"⟩
      ((SessionStore.start fun _ => none).run plainFormat ⟨"data", "run"⟩ events) := by
  intro hall
  obtain ⟨file, session, hload, hok⟩ := hall clearedTooSoon rfl
  have hfirst : loadSession plainFormat ⟨"data", "run"⟩
      ((SessionStore.start fun _ => none).run plainFormat ⟨"data", "run"⟩
        clearedTooSoon).files = .ok (some (.previous, buildSavedSession 1)) := rfl
  rw [hfirst] at hload
  cases hload
  rcases hok with hlast | hpending
  · cases hlast
  · cases hpending

end Wakterm.Theorems.SessionStore

/-!
## A restored tab has the saved layout

When no split fails, the tab that `restore_tab` leaves has the shape and the directions of the saved
tree, and each of its leaves is the pane spawned for the saved leaf at the same place.
-/

namespace Wakterm.Theorems.SessionRestore

open Wakterm.Mux Wakterm.Bintree

variable {σ Command Intent : Type}

/-- The tab has the saved layout, and its panes are those spawned for the saved
leaves, in their order. -/
def Restores (env : RestoreEnv σ Command Intent) (saved : SavedPanes Intent) (tree : PaneNode)
    (s : Restoring σ Command Intent) : Prop :=
  ∃ root : PaneTree, s.tab.pane = some root ∧ layout root = layout tree.intoTree ∧
    (s.spawned.map fun x => (x.entry, x.pane)).Perm
      ((tree.intoTree.leaves.map some).zip root.leaves) ∧
    ∀ x ∈ s.spawned, env.SpawnedFor saved x

/-- **The layout is rebuilt**, whatever the nesting of the saved splits: every
saved tree without `Empty` comes back with its shape, its directions and its
leaves in place, unless a spawn or a split fails. -/
theorem restoreTab_restores (env : RestoreEnv σ Command Intent) (saved : SavedPanes Intent)
    (rest : σ) (tree : PaneNode) (defaultSize : TerminalSize) (windowId : WindowId)
    (s : Restoring σ Command Intent) (hfull : tree.intoTree.Full)
    (h : env.restoreTab saved rest tree defaultSize windowId = some (.ok s))
    (hsplits : s.warnings = []) : Restores env saved tree s := by
  simp only [RestoreEnv.restoreTab, Option.bind_eq_bind, Option.bind_eq_some_iff] at h
  obtain ⟨saved?, _, r₁, hfirst, h⟩ := h
  cases r₁ with
  | error e => cases h
  | ok s₁ =>
    simp only [Option.bind_eq_some_iff] at h
    obtain ⟨r₂, hnode, h⟩ := h
    cases r₂ with
    | error e => cases h
    | ok s₂ =>
      simp only [Option.bind_eq_some_iff, Option.some.injEq, Except.ok.injEq] at h
      obtain ⟨tab₁, hresize, tab₂, hactive, rfl⟩ := h
      obtain ⟨x, hentry, hx, hspawned, hroot, hz, hindex⟩ := RestoreEnv.restoreFirst_ok hfirst
      -- the first pane stands for the whole tree
      obtain ⟨t, new, hbuilt⟩ := RestoreEnv.restoreNode_rebuilt tree (p := .top) hnode hfull
        trivial hroot hindex hsplits
      obtain ⟨root, hroot', hskel⟩ :=
        TabInner.resizeImpl_skeleton (hbuilt.zoomed.trans hz) hbuilt.pane hresize
      obtain ⟨calls, rfl, _⟩ := TabInner.onlyCalls_of_setActiveIdx hactive
      refine ⟨root, hroot', (layout_of_skeleton hskel).trans hbuilt.layout, ?_, ?_⟩
      · have hleaves : root.leaves = t.leaves := by
          rw [← BinTree.leaves_mapData (·.direction) root,
            ← BinTree.leaves_mapData (·.direction) t]
          exact congrArg BinTree.leaves hskel
        have hkeys := hbuilt.keys
        rw [← hentry] at hkeys
        simp only [hbuilt.spawned, hspawned, hleaves]
        exact hkeys
      · have hfirst : ∀ y ∈ s₁.spawned, env.SpawnedFor saved y := by
          rw [hspawned]
          intro y hy
          obtain rfl := List.mem_singleton.mp hy
          exact hx
        exact (RestoreEnv.spawnedFor_of_restoreNode tree hnode hfirst :
          ∀ y ∈ s₂.spawned, env.SpawnedFor saved y)

/-- A domain that numbers the panes it spawns and takes every size. -/
def numbering : RestoreEnv Nat String String where
  declaredCwd intent := intent
  workingDir _ := none
  urlToFilePath _ := none
  prepareAgentRestore n intent := .ok (("resume " ++ intent, intent), n)
  unrestorableAgentNotice _ := .ok none
  newDefaultProg := "sh"
  setEnv command name value := name ++ "=" ++ value ++ " " ++ command
  spawnPane n _ _ _ := .ok (⟨n, 0⟩, n + 1)
  addPane n _ := .ok n
  allocTabId n := (n, n)
  addTab n _ _ := .ok n
  restoreAgentIntent n _ _ := .ok n
  accepts _ _ := true

/-- A session without agents or tokens. -/
def plainPanes : SavedPanes String where
  restoreIntents _ := none
  paneTokens _ := none

def savedPane (paneId : PaneId) (cols : Nat) : PaneNode :=
  .leaf
    { windowId := 0
      tabId := 0
      paneId := paneId
      size := ⟨24, cols, 0, 0, 96⟩
      isActivePane := false
      isZoomedPane := false
      workspace := "default"
      topRow := 0
      leftCol := 0 }

/-- Two panes above each other to the left of a third. -/
def stackAndPane : PaneNode :=
  .split
    (.split (savedPane 7 40) (savedPane 9 40)
      { direction := .vertical
        first := ⟨12, 40, 400, 240, 96⟩
        second := ⟨11, 40, 400, 220, 96⟩ })
    (savedPane 8 39)
    { direction := .horizontal
      first := ⟨24, 40, 400, 480, 96⟩
      second := ⟨24, 39, 390, 480, 96⟩ }

/-- The pane of the outer split is spawned before that of the inner one, and
comes after it in the tab. -/
theorem stackAndPane_restored :
    ∃ s, numbering.restoreTab plainPanes 0 stackAndPane ⟨24, 80, 800, 480, 96⟩ 0 =
      some (.ok s) ∧ Restores numbering plainPanes stackAndPane s := by
  have hrun : ∃ s, numbering.restoreTab plainPanes 0 stackAndPane ⟨24, 80, 800, 480, 96⟩ 0 =
      some (.ok s) ∧ s.warnings = [] := ⟨_, rfl, rfl⟩
  obtain ⟨s, hs, hsplits⟩ := hrun
  exact ⟨s, hs, restoreTab_restores numbering plainPanes 0 stackAndPane
    ⟨24, 80, 800, 480, 96⟩ 0 s ⟨⟨trivial, trivial⟩, trivial⟩ hs hsplits⟩

/-- An `Empty` tree is restored as a tab with one pane. -/
theorem empty_restored_as_pane :
    ¬ ∀ (tree : PaneNode) (s : Restoring Nat String String), tree.intoTree.Proper →
      numbering.restoreTab plainPanes 0 tree ⟨24, 80, 800, 480, 96⟩ 0 = some (.ok s) →
      s.warnings = [] → Restores numbering plainPanes tree s := by
  intro hall
  obtain ⟨root, hroot, hlayout, -⟩ := hall .empty _ (.inl rfl) rfl rfl
  have hleaf : root.numLeaves = 0 := numLeaves_of_layout hlayout
  cases hroot
  cases hleaf

end Wakterm.Theorems.SessionRestore
