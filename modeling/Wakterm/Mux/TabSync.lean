import Wakterm.Mux.TabSplits

/-!
# `TabInner`: the mux client and server sides of a tab

`pane_tree` turns a tab's tree into the `PaneNode` sent to a client,
`sync_with_pane_tree` rebuilds a tab from it, `collect_pane_sizes` lists the
sizes a client sends back, and `rebuild_splits_sizes_from_contained_panes`
infers the server's split sizes from the panes that were resized to them.
-/

namespace Wakterm.Mux

open Wakterm.Machine Wakterm.Bintree

abbrev WindowId := Nat

/-- `PaneEntry`, without the fields only the user interface reads. -/
structure PaneEntry where
  windowId : WindowId
  tabId : TabId
  paneId : PaneId
  size : TerminalSize
  isActivePane : Bool
  isZoomedPane : Bool
  workspace : String
  topRow : Nat
  leftCol : Nat

inductive PaneNode where
  | empty
  | split (left right : PaneNode) (node : SplitDirectionAndSize)
  | leaf (entry : PaneEntry)

def PaneNode.intoTree : PaneNode → BinTree PaneEntry SplitDirectionAndSize
  | .empty => .empty
  | .split left right node => .node left.intoTree right.intoTree (some node)
  | .leaf e => .leaf e

/-- `PaneNode::root_size`; `SplitDirectionAndSize::size` can panic. -/
def PaneNode.rootSize : PaneNode → Option (Option TerminalSize)
  | .empty => some none
  | .split _ _ node => node.size.map some
  | .leaf entry => some (some entry.size)

def PaneNode.windowAndTabIds : PaneNode → Option (WindowId × TabId)
  | .empty => none
  | .split left right _ =>
    match left.windowAndTabIds with
    | some ids => some ids
    | none => right.windowAndTabIds
  | .leaf entry => some (entry.windowId, entry.tabId)

/-- What every leaf entry of one `pane_tree` call has in common. -/
structure PaneTreeArgs where
  tabId : TabId
  windowId : WindowId
  activePaneId : Option PaneId
  zoomed : Option Pane
  workspace : String
  dims : Pane → TerminalSize

/-- `pane_tree`; a node without data makes its `unwrap` panic. `dims` is what
the panes' `get_dimensions` report. -/
def paneTree (args : PaneTreeArgs) : PaneTree → Nat → Nat → Option PaneNode
  | .empty, _, _ => some .empty
  | .node _ _ none, _, _ => none
  | .node left right (some d), leftCol, topRow => do
      let l ← paneTree args left leftCol topRow
      let r ← paneTree args right
        (if d.direction = .vertical then leftCol else uadd leftCol d.leftOfSecond)
        (if d.direction = .horizontal then topRow else uadd topRow d.topOfSecond)
      some (.split l r d)
  | .leaf pane, leftCol, topRow =>
    some (.leaf
      { windowId := args.windowId
        tabId := args.tabId
        paneId := pane.paneId
        size := args.dims pane
        isActivePane := args.activePaneId = some pane.paneId
        isZoomedPane := args.zoomed.map (·.paneId) = some pane.paneId
        workspace := args.workspace
        topRow := topRow
        leftCol := leftCol })

/-- `build_from_pane_tree`: the tree of the panes made for the entries, and the
last pane made for an active and for a zoomed entry. -/
def buildFromPaneTree (makePane : PaneEntry → Pane) :
    BinTree PaneEntry SplitDirectionAndSize → Option Pane → Option Pane →
      PaneTree × Option Pane × Option Pane
  | .empty, active, zoomed => (.empty, active, zoomed)
  | .node left right d, active, zoomed =>
    let (l, active, zoomed) := buildFromPaneTree makePane left active zoomed
    let (r, active, zoomed) := buildFromPaneTree makePane right active zoomed
    (.node l r d, active, zoomed)
  | .leaf entry, active, zoomed =>
    let pane := makePane entry
    (.leaf pane, if entry.isActivePane then some pane else active,
      if entry.isZoomedPane then some pane else zoomed)

/-- What a tab asks of the mux about the window it is in. -/
structure MuxView where
  windowContainingTab : TabId → Option WindowId
  workspaceOfWindow : WindowId → Option String

namespace TabInner

/-- The loop of `sync_with_pane_tree` that resolves the active pane to its
index; it also gives the tree back. -/
def findPane (paneId : PaneId) : Nat → Nat → PaneCursor → Option (Option Nat × PaneTree)
  | 0, _, _ => none
  | fuel + 1, index, c =>
    match c.it with
    | .leaf pane =>
      if paneId = pane.paneId then some (some index, c.tree)
      else
        match c.preorderNext with
        | .ok c => findPane paneId fuel (index + 1) c
        | .error c => some (none, c.tree)
    | _ =>
      match c.preorderNext with
      | .ok c => findPane paneId fuel index c
      | .error c => some (none, c.tree)

def syncWithPaneTree (tab : TabInner) (size : TerminalSize) (root : PaneNode)
    (makePane : PaneEntry → Pane) : Option TabInner := do
  let (t, active, zoomed) := buildFromPaneTree makePane root.intoTree none none
  let (found, tree) ←
    match active with
    | some active => findPane active.paneId t.numNodes 0 t.cursor
    | none => some (none, t.cursor.tree)
  let tab :=
    match found with
    | some index => { tab with active := index, recency := tab.recency.tag index }
    | none => { tab with active := 0 }
  { tab with pane := some tree, zoomed := zoomed, size := size }.resizeImpl size false

def codecPaneTreeWithActivePaneId (mux : MuxView) (dims : Pane → TerminalSize)
    (tab : TabInner) (activePaneId : Option PaneId) : Option PaneNode :=
  match mux.windowContainingTab tab.id with
  | none => some .empty
  | some windowId =>
    match mux.workspaceOfWindow windowId with
    | none => some .empty
    | some workspace =>
      match tab.pane with
      | none => some .empty
      | some root =>
        paneTree
          { tabId := tab.id
            windowId := windowId
            activePaneId := activePaneId
            zoomed := tab.zoomed
            workspace := workspace
            dims := dims } root 0 0

def codecPaneTree (mux : MuxView) (dims : Pane → TerminalSize) (tab : TabInner) :
    Option PaneNode := do
  let (active, tab) ← tab.getActivePane
  codecPaneTreeWithActivePaneId mux dims tab (active.map (·.paneId))

/-- `compute_size` of `rebuild_splits_sizes_from_contained_panes`: every node
takes its children's sizes from below. -/
def computeSize (dims : Pane → TerminalSize) :
    PaneTree → Option (PaneTree × Option TerminalSize)
  | .empty => some (.empty, none)
  | .leaf pane => some (.leaf pane, some (dims pane))
  | .node left right none => some (.node left right none, none)
  | .node left right (some d) => do
      let (l, first) ← computeSize dims left
      let (r, second) ← computeSize dims right
      let d := { d with first := first.getD d.first, second := second.getD d.second }
      let size ← d.size
      some (.node l r (some d), some size)

def rebuildSplitsSizesFromContainedPanes (dims : Pane → TerminalSize) (tab : TabInner) :
    Option TabInner :=
  if tab.zoomed.isSome then some tab
  else
    match tab.pane with
    | none => some tab
    | some root => do
        let (root, size) ← computeSize dims root
        match size with
        | some size =>
          some { tab with pane := some (reconcileTreeSizes root size), size := size }
        | none => some { tab with pane := some root }

end TabInner

end Wakterm.Mux
