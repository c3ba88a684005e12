import Wakterm.Agent.Request
import Wakterm.Mux.TabSync

/-!
# `mux::session_persistence`: rebuilding a tab from its saved tree

`restore_tab` spawns a pane for the first saved leaf and splits its way to the saved tree,
`restore_node` being the recursion.
-/

namespace Wakterm.Mux

open Wakterm.Machine Wakterm.Bintree

/-- An `anyhow::Error`: its contexts, outermost first, down to the cause. -/
abbrev Failure := List String

/-- `Context::context`, once for each text. -/
def withContext {α : Type} (texts : List String) (r : Except Failure α) : Except Failure α :=
  r.mapError (texts ++ ·)

def restoredPaneTokenEnv : String := "WAKTERM_RESTORED_PANE_TOKEN"

/-- What a restore asks of the rest of the program. `urlToFilePath` is
`Url::parse` followed by `to_file_path` or else the path of the url, and
`workingDir` the path of an entry's `working_dir`. `addTab` covers
`add_tab_and_active_pane` and `add_tab_to_window`. -/
structure RestoreEnv (σ Command Intent : Type) where
  declaredCwd : Intent → String
  workingDir : PaneEntry → Option String
  urlToFilePath : String → Option String
  prepareAgentRestore : σ → Intent → Except Failure ((Command × Intent) × σ)
  unrestorableAgentNotice : PaneEntry → Except Failure (Option Command)
  newDefaultProg : Command
  setEnv : Command → String → String → Command
  spawnPane : σ → TerminalSize → Option Command → Option String →
    Except Failure (Pane × σ)
  addPane : σ → Pane → Except Failure σ
  allocTabId : σ → TabId × σ
  addTab : σ → TabInner → WindowId → Except Failure σ
  restoreAgentIntent : σ → PaneId → Intent → Except Failure σ
  accepts : Pane → TerminalSize → Bool

/-- The parts of a saved session that are looked up by the saved pane id. -/
structure SavedPanes (Intent : Type) where
  restoreIntents : PaneId → Option Intent
  paneTokens : PaneId → Option String

/-- One `spawn_pane` of a restore: the saved leaf it is for, what the pane was
spawned with, and the pane. -/
structure SpawnedPane (Command Intent : Type) where
  entry : Option PaneEntry
  size : TerminalSize
  command : Option Command
  cwd : Option String
  intent : Option Intent
  pane : Pane

/-- A restore under way: the rest of the program, the tab, `leaf_index`, the
panes spawned so far and the failed splits, which the code only warns about. -/
structure Restoring (σ Command Intent : Type) where
  rest : σ
  tab : TabInner
  leafIndex : Nat
  spawned : List (SpawnedPane Command Intent)
  warnings : List SplitError

def firstLeafEntry : PaneNode → Option PaneEntry
  | .empty => none
  | .leaf entry => some entry
  | .split left right _ => (firstLeafEntry left).or (firstLeafEntry right)

/-- The share of the split's second half, in percent; the cast to `u8` wraps. -/
def restorePercent (d : SplitDirectionAndSize) : Nat :=
  let total := uadd (uadd (d.first.cells d.direction.axis) 1) (d.second.cells d.direction.axis)
  if 0 < total then umul (d.second.cells d.direction.axis) 100 / total % 2 ^ 8 else 50

/-- The request `restore_node` makes for a saved split. -/
def restoreRequest (d : SplitDirectionAndSize) : SplitRequest where
  direction := d.direction
  targetIsSecond := true
  topLevel := false
  -- no side of less than a tenth
  size := .percent (min (max (restorePercent d) 10) 90)

def restoreSize (saved : TerminalSize) : TerminalSize where
  rows := max saved.rows 60
  cols := max saved.cols 200
  pixelWidth := max saved.pixelWidth (200 * 10)
  pixelHeight := max saved.pixelHeight (60 * 20)
  dpi := saved.dpi

namespace RestoreEnv

variable {σ Command Intent : Type} (env : RestoreEnv σ Command Intent)
  (saved : SavedPanes Intent)

def restoreCwdForEntry (entry : PaneEntry) : Option String :=
  match saved.restoreIntents entry.paneId with
  | none => env.workingDir entry
  | some intent =>
    let cwd := Agent.trim (env.declaredCwd intent)
    if cwd = "" then env.workingDir entry
    else if "file://".toList.isPrefixOf cwd.toList then
      (env.urlToFilePath cwd).or (some cwd)
    else some cwd

/-- `prepare_restore_for_entry`, or else the notice that takes its place. -/
def preparedCommand (rest : σ) (entry : PaneEntry) :
    Except Failure ((Option Command × Option Intent) × σ) :=
  match saved.restoreIntents entry.paneId with
  | some intent => do
      let (prepared, rest) ← env.prepareAgentRestore rest intent
      .ok ((some prepared.1, some prepared.2), rest)
  | none => do
      let notice ← env.unrestorableAgentNotice entry
      .ok ((notice, none), rest)

def restoreCommandForEntry (rest : σ) (entry : PaneEntry) :
    Except Failure ((Option Command × Option Intent) × σ) := do
  let ((command, intent), rest) ← env.preparedCommand saved rest entry
  match saved.paneTokens entry.paneId with
  | none => .ok ((command, intent), rest)
  | some token =>
    .ok ((some (env.setEnv (command.getD env.newDefaultProg) restoredPaneTokenEnv token),
      intent), rest)

/-- What the first leaf of a subtree is spawned with. -/
def commandFor (rest : σ) : Option PaneEntry →
    Except Failure ((Option Command × Option Intent) × σ)
  | none => .ok ((none, none), rest)
  | some entry => env.restoreCommandForEntry saved rest entry

/-- Work out what the first leaf of `node` runs and spawn its pane. -/
def spawnFirstLeaf (rest : σ) (node : PaneNode) (size : TerminalSize) (contexts : List String) :
    Except Failure (SpawnedPane Command Intent × σ) := do
  let entry := firstLeafEntry node
  let cwd := entry.bind (env.restoreCwdForEntry saved)
  let ((command, intent), rest) ← env.commandFor saved rest entry
  let (pane, rest) ← withContext contexts (env.spawnPane rest size command cwd)
  .ok ({ entry, size, command, cwd, intent, pane }, rest)

/-- Register the intent of a spawned pane, if it has one. -/
def registerIntent (rest : σ) (spawned : SpawnedPane Command Intent) (contexts : List String) :
    Except Failure σ :=
  match spawned.intent with
  | none => .ok rest
  | some intent =>
    withContext contexts (env.restoreAgentIntent rest spawned.pane.paneId intent)

/-- A restore with the result of a split; that one failed is no reason to
stop. -/
def afterSplit (s : Restoring σ Command Intent) (rest : σ)
    (spawned : SpawnedPane Command Intent) (res : Except SplitError Nat × TabInner) :
    Restoring σ Command Intent :=
  { s with
    rest := rest
    tab := res.2
    spawned := s.spawned ++ [spawned]
    warnings :=
      match res.1 with
      | .ok _ => s.warnings
      | .error e => s.warnings ++ [e] }

/-- The pane for the right side of a split: spawned, added to the mux, its
intent registered. -/
def spawnRight (rest : σ) (right : PaneNode) (size : TerminalSize) :
    Except Failure (SpawnedPane Command Intent × σ) := do
  let (spawned, rest) ←
    env.spawnFirstLeaf saved rest right size ["spawning pane for split"]
  let rest ← env.addPane rest spawned.pane
  let rest ← env.registerIntent rest spawned
    ["registering agent restore intent for split pane"]
  .ok (spawned, rest)

/-- The part of `restore_node` before it recurses: the pane that stands for the
whole subtree is split. -/
def restoreSplit (right : PaneNode) (node : SplitDirectionAndSize)
    (s : Restoring σ Command Intent) : Option (Except Failure (Restoring σ Command Intent)) :=
  match env.spawnRight saved s.rest right node.second with
  | .error e => some (.error e)
  | .ok (spawned, rest) => do
      let res ← s.tab.splitAndInsert env.accepts s.leafIndex (restoreRequest node) spawned.pane
      some (.ok (afterSplit s rest spawned res))

def restoreNode : PaneNode → Restoring σ Command Intent →
    Option (Except Failure (Restoring σ Command Intent))
  | .empty, s => some (.ok s)
  | .leaf _, s => some (.ok { s with leafIndex := s.leafIndex + 1 })
  | .split left right node, s => do
      match ← env.restoreSplit saved right node s with
      | .error e => some (.error e)
      | .ok s =>
        match ← restoreNode left s with
        | .error e => some (.error e)
        | .ok s => restoreNode right s

/-- Register the intent of the first pane with the pane the tab lists first. -/
def registerFirstIntent (rest : σ) (intent : Option Intent) (panes : List PositionedPane) :
    Except Failure σ :=
  match intent with
  | none => .ok rest
  | some intent =>
    match panes.head? with
    | none => .error ["restored tab has no first pane"]
    | some positioned =>
      withContext ["registering agent restore intent for first pane"]
        (env.restoreAgentIntent rest positioned.pane.paneId intent)

/-- `Domain::spawn` and what `restore_tab` does before the recursion: the tab
with the first leaf's pane. -/
def restoreFirst (rest : σ) (tree : PaneNode) (size : TerminalSize) (windowId : WindowId) :
    Option (Except Failure (Restoring σ Command Intent)) :=
  match env.spawnFirstLeaf saved rest tree size ["spawning first pane for tab", "spawn"] with
  | .error e => some (.error e)
  | .ok (spawned, rest) => do
      let (id, rest) := env.allocTabId rest
      let tab ← (TabInner.new id size).assignPane spawned.pane
      match withContext ["spawning first pane for tab"] (env.addTab rest tab windowId) with
      | .error e => some (.error e)
      | .ok rest => do
          let (panes, tab) ← tab.iterPanesIgnoringZoom
          match env.registerFirstIntent rest spawned.intent panes with
          | .error e => some (.error e)
          | .ok rest =>
            some (.ok
              { rest := rest
                tab := tab
                leafIndex := 0
                spawned := [spawned]
                warnings := [] })

def restoreTab (rest : σ) (tree : PaneNode) (defaultSize : TerminalSize)
    (windowId : WindowId) : Option (Except Failure (Restoring σ Command Intent)) := do
  let size := restoreSize ((← tree.rootSize).getD defaultSize)
  match ← env.restoreFirst saved rest tree size windowId with
  | .error e => some (.error e)
  | .ok s =>
    match ← env.restoreNode saved tree s with
    | .error e => some (.error e)
    | .ok s => do
        let tab ← s.tab.resize size
        let tab ← tab.setActiveIdx 0
        some (.ok { s with tab := tab })

end RestoreEnv

end Wakterm.Mux
