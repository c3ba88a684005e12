import Wakterm.Machine.Loop
import Wakterm.Mux.Logic.TabOps
import Wakterm.Mux.SessionRestore

/-!
# What `restore_node` builds

While a subtree is being restored one pane stands for all of it, at the end of a path whose leaves
to the left are as many as `leaf_index` says.
-/

namespace Wakterm.Mux

open Wakterm.Machine Wakterm.Bintree

/-- The shape of a tree with the directions of its splits. -/
def layout {L : Type} (t : BinTree L SplitDirectionAndSize) : BinTree Unit SplitDirection :=
  (t.mapData (·.direction)).mapLeaves fun _ => ()

section Layout

variable {L K : Type} {t : BinTree L SplitDirectionAndSize}
  {u : BinTree K SplitDirectionAndSize}

theorem numLeaves_of_layout (h : layout t = layout u) : t.numLeaves = u.numLeaves := by
  simpa [layout] using congrArg BinTree.numLeaves h

theorem full_of_layout (h : layout t = layout u) : t.Full ↔ u.Full := by
  have hfull : (layout t).Full ↔ (layout u).Full := by rw [h]
  simpa [layout] using hfull

theorem layout_of_skeleton {t u : PaneTree} (h : skeleton t = skeleton u) : layout t = layout u :=
  congrArg (BinTree.mapLeaves fun _ => ()) h

end Layout

theorem exists_firstLeafEntry {node : PaneNode} (h : node.intoTree.Full) :
    ∃ entry, firstLeafEntry node = some entry := by
  induction node with
  | empty => exact h.elim
  | leaf entry => exact ⟨entry, rfl⟩
  | split left right d ihl ihr =>
    obtain ⟨entry, hentry⟩ := ihl h.1
    exact ⟨entry, by simp only [firstLeafEntry, hentry, Option.some_or]⟩

namespace TabInner

variable {tab tab' : TabInner}

theorem computeSplitSize_direction {paneIndex : Nat} {request : SplitRequest}
    {info : SplitDirectionAndSize}
    (h : tab.computeSplitSize paneIndex request = some (some info, tab')) :
    info.direction = request.direction := by
  simp only [computeSplitSize, Option.bind_eq_bind, Option.bind_eq_some_iff] at h
  obtain ⟨cell, _, h⟩ := h
  by_cases htop : request.topLevel = true
  · rw [if_pos htop] at h
    simp only [Option.some.injEq, Prod.mk.injEq] at h
    rw [← h.1]
    rfl
  · rw [if_neg htop] at h
    simp only [Option.bind_eq_some_iff] at h
    obtain ⟨_, _, panes, _, h⟩ := h
    simp only [Option.some.injEq, Prod.mk.injEq, Option.map_eq_some_iff] at h
    obtain ⟨⟨pos, _, rfl⟩, _⟩ := h
    rfl

theorem splitAndInsert_place {accepts : Pane → TerminalSize → Bool}
    {p : Path Pane SplitDirectionAndSize} {standing pane : Pane} {request : SplitRequest}
    {paneIndex i : Nat} (hp : p.Full) (hroot : tab.pane = some (p.plug (.leaf standing)))
    (hindex : paneIndex = p.leavesBefore.length) (hsecond : request.targetIsSecond = true)
    (hlevel : request.topLevel = false)
    (h : splitAndInsert accepts tab paneIndex request pane = some (.ok i, tab')) :
    ∃ info : SplitDirectionAndSize, info.direction = request.direction ∧
      tab'.pane = some (p.plug (.node (.leaf standing) (.leaf pane) (some info))) ∧
      tab'.zoomed = tab.zoomed := by
  cases splitOutcome_of_run hroot h with
  | top htop =>
    have hlevel' := htop.topLevel
    rw [hlevel] at hlevel'
    cases hlevel'
  | @leaf info p' existing _ _ hleaf hrun =>
    -- the search ends at the path we know
    have hcursor := (Path.leafCursors_plug p (.leaf standing) 0 Nat.one_pos).trans rfl
    have hgo := BinTree.goToNthLeaf_cursor (p.plug (.leaf standing))
      (.inr ((Path.full_plug p _).mpr ⟨trivial, hp⟩)) paneIndex
    rw [hindex, ← Nat.add_zero p.leavesBefore.length, hcursor] at hgo
    have hsame := hleaf.found.symm.trans (hindex ▸ hgo)
    simp only [Option.some.injEq, Except.ok.injEq, Cursor.mk.injEq, BinTree.leaf.injEq] at hsame
    obtain ⟨rfl, rfl⟩ := hsame
    refine ⟨info, computeSplitSize_direction hleaf.size, ?_⟩
    rw [splitLeafAndInsert_found hleaf.found] at hrun
    simp only [SplitRequest.order, hsecond, if_true] at hrun
    by_cases hfirst : accepts existing info.first = false
    · rw [if_pos hfirst] at hrun
      cases hrun
    · rw [if_neg hfirst] at hrun
      by_cases hlast : accepts pane info.second = false
      · rw [if_pos hlast] at hrun
        cases hrun
      · rw [if_neg hlast] at hrun
        simp only [Option.some.injEq, Prod.mk.injEq] at hrun
        rw [← hrun.2]
        simp only [withLeafSplit, SplitRequest.order, hsecond, if_true, and_self]

end TabInner

/-- The saved leaf a pane was spawned for, with the pane. -/
def SpawnedPane.key {Command Intent : Type} (s : SpawnedPane Command Intent) :
    Option PaneEntry × Pane :=
  (s.entry, s.pane)

namespace RestoreEnv

variable {σ Command Intent : Type} {env : RestoreEnv σ Command Intent}
  {saved : SavedPanes Intent}

/-- The pane came from `spawn_pane` with the directory and the command of its
entry, and the entry's intent was registered for it. -/
structure SpawnedFor (env : RestoreEnv σ Command Intent) (saved : SavedPanes Intent)
    (s : SpawnedPane Command Intent) : Prop where
  cwd : s.cwd = s.entry.bind (env.restoreCwdForEntry saved)
  command : ∃ rest rest', env.commandFor saved rest s.entry = .ok ((s.command, s.intent), rest')
  spawned : ∃ rest rest', env.spawnPane rest s.size s.command s.cwd = .ok (s.pane, rest')
  registered : ∀ intent, s.intent = some intent →
    ∃ rest rest', env.restoreAgentIntent rest s.pane.paneId intent = .ok rest'

theorem withContext_eq_ok {α : Type} {texts : List String} {r : Except Failure α} {a : α} :
    withContext texts r = .ok a ↔ r = .ok a := by
  cases r with
  | error e => simp [withContext, Except.mapError]
  | ok b => simp [withContext, Except.mapError]

variable {rest' rest : σ} {node : SplitDirectionAndSize} {size : TerminalSize}
  {s' s : Restoring σ Command Intent} {right : PaneNode} {p : Path Pane SplitDirectionAndSize}

theorem spawnFirstLeaf_ok {node : PaneNode} {contexts : List String}
    {s : SpawnedPane Command Intent}
    (h : env.spawnFirstLeaf saved rest node size contexts = .ok (s, rest')) :
    s.entry = firstLeafEntry node ∧ s.cwd = s.entry.bind (env.restoreCwdForEntry saved) ∧
      (∃ r r', env.commandFor saved r s.entry = .ok ((s.command, s.intent), r')) ∧
      ∃ r r', env.spawnPane r s.size s.command s.cwd = .ok (s.pane, r') := by
  simp only [spawnFirstLeaf, bind_eq_ok] at h
  obtain ⟨⟨⟨command, intent⟩, rest₁⟩, hcommand, ⟨pane, rest₂⟩, hspawn, h⟩ := h
  cases h
  exact ⟨rfl, rfl, ⟨rest, rest₁, hcommand⟩, rest₁, rest₂, withContext_eq_ok.mp hspawn⟩

theorem spawnRight_ok {s : SpawnedPane Command Intent}
    (h : env.spawnRight saved rest right size = .ok (s, rest')) :
    s.entry = firstLeafEntry right ∧ env.SpawnedFor saved s := by
  simp only [spawnRight, bind_eq_ok] at h
  obtain ⟨⟨spawned, rest₁⟩, hspawn, rest₂, _, rest₃, hintent, h⟩ := h
  cases h
  obtain ⟨hentry, hcwd, hcommand, hpane⟩ := spawnFirstLeaf_ok hspawn
  refine ⟨hentry, hcwd, hcommand, hpane, ?_⟩
  intro intent hi
  rw [registerIntent, hi] at hintent
  exact ⟨_, _, withContext_eq_ok.mp hintent⟩

theorem restoreSplit_ok (h : env.restoreSplit saved right node s = some (.ok s')) :
    ∃ spawned rest res, env.spawnRight saved s.rest right node.second = .ok (spawned, rest) ∧
      s.tab.splitAndInsert env.accepts s.leafIndex (restoreRequest node) spawned.pane = some res ∧
      s' = afterSplit s rest spawned res := by
  unfold restoreSplit at h
  cases hright : env.spawnRight saved s.rest right node.second with
  | error e =>
    rw [hright] at h
    cases h
  | ok out =>
    obtain ⟨spawned, rest⟩ := out
    rw [hright] at h
    simp only [Option.bind_eq_bind, Option.bind_eq_some_iff, Option.some.injEq,
      Except.ok.injEq] at h
    obtain ⟨res, hres, rfl⟩ := h
    exact ⟨spawned, rest, res, rfl, hres, rfl⟩

theorem restoreNode_split {left : PaneNode}
    (h : env.restoreNode saved (.split left right node) s = some (.ok s')) :
    ∃ s₁ s₂, env.restoreSplit saved right node s = some (.ok s₁) ∧
      env.restoreNode saved left s₁ = some (.ok s₂) ∧
      env.restoreNode saved right s₂ = some (.ok s') := by
  simp only [restoreNode, Option.bind_eq_bind, Option.bind_eq_some_iff] at h
  obtain ⟨r₁, h₁, h⟩ := h
  cases r₁ with
  | error e => cases h
  | ok s₁ =>
    simp only [Option.bind_eq_some_iff] at h
    obtain ⟨r₂, h₂, h⟩ := h
    cases r₂ with
    | error e => cases h
    | ok s₂ => exact ⟨s₁, s₂, h₁, h₂, h⟩

theorem warnings_of_restoreNode (node : PaneNode) (h : env.restoreNode saved node s = some (.ok s'))
    (hw : s'.warnings = []) : s.warnings = [] := by
  induction node generalizing s s' with
  | empty =>
    cases h
    exact hw
  | leaf entry =>
    cases h
    exact hw
  | split left right d ihl ihr =>
    obtain ⟨s₁, s₂, h₁, h₂, h₃⟩ := restoreNode_split h
    have hw₁ := ihl h₂ (ihr h₃ hw)
    obtain ⟨spawned, rest, ⟨res, tab⟩, _, _, rfl⟩ := restoreSplit_ok h₁
    cases res with
    | ok i => exact hw₁
    | error e => simp [afterSplit] at hw₁

theorem spawnedFor_of_restoreNode (node : PaneNode)
    (h : env.restoreNode saved node s = some (.ok s'))
    (hs : ∀ x ∈ s.spawned, env.SpawnedFor saved x) : ∀ x ∈ s'.spawned, env.SpawnedFor saved x := by
  induction node generalizing s s' with
  | empty =>
    cases h
    exact hs
  | leaf entry =>
    cases h
    exact hs
  | split left right d ihl ihr =>
    obtain ⟨s₁, s₂, h₁, h₂, h₃⟩ := restoreNode_split h
    refine ihr h₃ (ihl h₂ ?_)
    obtain ⟨spawned, rest, res, hright, _, rfl⟩ := restoreSplit_ok h₁
    intro x hx
    rcases List.mem_append.mp hx with hx | hx
    · exact hs x hx
    · obtain rfl := List.mem_singleton.mp hx
      exact (spawnRight_ok hright).2

theorem restoreSplit_place {standing : Pane}
    (h : env.restoreSplit saved right node s = some (.ok s')) (hp : p.Full)
    (hroot : s.tab.pane = some (p.plug (.leaf standing)))
    (hindex : s.leafIndex = p.leavesBefore.length) (hw : s'.warnings = []) :
    ∃ (spawned : SpawnedPane Command Intent) (info : SplitDirectionAndSize),
      spawned.entry = firstLeafEntry right ∧ info.direction = node.direction ∧
      s'.tab.pane = some (p.plug (.node (.leaf standing) (.leaf spawned.pane) (some info))) ∧
      s'.tab.zoomed = s.tab.zoomed ∧ s'.leafIndex = s.leafIndex ∧
      s'.spawned = s.spawned ++ [spawned] := by
  obtain ⟨spawned, rest, ⟨res, tab⟩, hright, hsplit, rfl⟩ := restoreSplit_ok h
  cases res with
  | error e => simp [afterSplit] at hw
  | ok i =>
    obtain ⟨info, hdir, hpane, hzoomed⟩ :=
      TabInner.splitAndInsert_place hp hroot hindex rfl rfl hsplit
    exact ⟨spawned, info, (spawnRight_ok hright).1, hdir, hpane, hzoomed, rfl, rfl⟩

/-- A subtree restored in place of the pane that stood for it. -/
structure Rebuilt (node : PaneNode) (p : Path Pane SplitDirectionAndSize) (standing : Pane)
    (s s' : Restoring σ Command Intent) (t : PaneTree)
    (new : List (SpawnedPane Command Intent)) : Prop where
  pane : s'.tab.pane = some (p.plug t)
  zoomed : s'.tab.zoomed = s.tab.zoomed
  layout : layout t = layout node.intoTree
  leafIndex : s'.leafIndex = s.leafIndex + t.numLeaves
  spawned : s'.spawned = s.spawned ++ new
  /-- Each leaf has the pane spawned for it. -/
  keys : ((firstLeafEntry node, standing) :: new.map SpawnedPane.key).Perm
    ((node.intoTree.leaves.map some).zip t.leaves)

/-- **`restore_node` builds the saved subtree** where its stand-in was. -/
theorem restoreNode_rebuilt (node : PaneNode) {standing : Pane}
    (h : env.restoreNode saved node s = some (.ok s')) (hnode : node.intoTree.Full) (hp : p.Full)
    (hroot : s.tab.pane = some (p.plug (.leaf standing)))
    (hindex : s.leafIndex = p.leavesBefore.length) (hw : s'.warnings = []) :
    ∃ t new, Rebuilt node p standing s s' t new := by
  induction node generalizing s s' p standing with
  | empty => exact hnode.elim
  | leaf entry =>
    cases h
    exact ⟨.leaf standing, [], hroot, rfl, rfl, rfl, (List.append_nil _).symm,
      List.Perm.refl _⟩
  | split left right d ihl ihr =>
    obtain ⟨s₁, s₂, h₁, h₂, h₃⟩ := restoreNode_split h
    have hw₂ := warnings_of_restoreNode right h₃ hw
    obtain ⟨x, info, hentry, hdir, hpane₁, hzoomed₁, hindex₁, hspawned₁⟩ :=
      restoreSplit_place h₁ hp hroot hindex (warnings_of_restoreNode left h₂ hw₂)
    -- the left side, with the new pane to its right
    obtain ⟨tl, newl, hl⟩ := ihl (p := .left (.leaf x.pane) (some info) p) h₂ hnode.1
      ⟨trivial, hp⟩ hpane₁ (hindex₁.trans hindex) hw₂
    have hleft : s₂.leafIndex = (Path.right tl (some info) p).leavesBefore.length := by
      rw [hl.leafIndex, hindex₁, hindex]
      simp [Path.leavesBefore]
    -- the right side, with the left one done
    obtain ⟨tr, newr, hr⟩ := ihr (p := .right tl (some info) p) h₃ hnode.2
      ⟨(full_of_layout hl.layout).mpr hnode.1, hp⟩ hl.pane hleft hw
    obtain ⟨first, hfirst⟩ := exists_firstLeafEntry hnode.1
    refine ⟨.node tl tr (some info), x :: (newl ++ newr), hr.pane, ?_, ?_, ?_, ?_, ?_⟩
    · rw [hr.zoomed, hl.zoomed, hzoomed₁]
    · have hsame : layout (.node tl tr (some info)) =
          .node (layout tl) (layout tr) (some info.direction) := rfl
      rw [hsame, hl.layout, hr.layout, hdir]
      rfl
    · rw [hr.leafIndex, hl.leafIndex, hindex₁, BinTree.numLeaves, Nat.add_assoc]
    · rw [hr.spawned, hl.spawned, hspawned₁]
      simp only [List.append_assoc, List.cons_append, List.nil_append]
    · have hlen : (left.intoTree.leaves.map some).length = tl.leaves.length := by
        simp [numLeaves_of_layout hl.layout]
      have hkey : x.key = (firstLeafEntry right, x.pane) := by
        rw [SpawnedPane.key, hentry]
      have hboth := hl.keys.append hr.keys
      rw [List.cons_append] at hboth
      simp only [firstLeafEntry, PaneNode.intoTree, BinTree.leaves, List.map_append,
        List.zip_append hlen, hfirst, Option.some_or, List.map_cons, hkey] at hboth ⊢
      exact (List.Perm.cons _ List.perm_middle.symm).trans hboth

/-! ## The tab as a whole -/

theorem restoreFirst_ok {tree : PaneNode} {windowId : WindowId}
    (h : env.restoreFirst saved rest tree size windowId = some (.ok s)) :
    ∃ x : SpawnedPane Command Intent, x.entry = firstLeafEntry tree ∧
      env.SpawnedFor saved x ∧ s.spawned = [x] ∧ s.tab.pane = some (.leaf x.pane) ∧
      s.tab.zoomed = none ∧ s.leafIndex = 0 := by
  unfold restoreFirst at h
  cases hspawn : env.spawnFirstLeaf saved rest tree size
      ["spawning first pane for tab", "spawn"] with
  | error e =>
    rw [hspawn] at h
    cases h
  | ok out =>
    obtain ⟨x, rest₁⟩ := out
    rw [hspawn] at h
    obtain ⟨hentry, hcwd, hcommand, hpane⟩ := spawnFirstLeaf_ok hspawn
    simp only [Option.bind_eq_bind, Option.bind_eq_some_iff] at h
    obtain ⟨tab, htab, h⟩ := h
    have hroot : tab.pane = some (.leaf x.pane) := by
      rw [← Option.some.inj htab]
      rfl
    have hz : tab.zoomed = none := by
      rw [← Option.some.inj htab]
      rfl
    have hfull : (BinTree.leaf x.pane : PaneTree).Proper := .inr trivial
    cases hadd : withContext ["spawning first pane for tab"]
        (env.addTab (env.allocTabId rest₁).2 tab windowId) with
    | error e =>
      rw [hadd] at h
      cases h
    | ok rest₂ =>
      simp only [hadd, TabInner.iterPanesIgnoringZoom_eq hroot hfull, Option.bind_some] at h
      cases hintent : env.registerFirstIntent rest₂ x.intent
          (tab.positioned (.leaf x.pane) .top 0) with
      | error e =>
        rw [hintent] at h
        cases h
      | ok rest₃ =>
        rw [hintent] at h
        cases h
        refine ⟨x, hentry, ⟨hcwd, hcommand, hpane, ?_⟩, rfl, hroot, hz, rfl⟩
        intro intent hi
        rw [hi] at hintent
        exact ⟨_, _, withContext_eq_ok.mp hintent⟩

end RestoreEnv

end Wakterm.Mux
