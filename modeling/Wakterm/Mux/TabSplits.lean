import Wakterm.Mux.Tab
import Wakterm.Rangeset.RangeSet

/-!
# `TabInner`: moving dividers, splitting and removing panes

The operations of `mux/src/tab.rs` that work on the split tree through a cursor: `resize_split_by`,
`adjust_pane_size`, `split_and_insert` and `remove_pane_if`.
-/

namespace Wakterm.Mux

open Wakterm.Machine Wakterm.Bintree

inductive PaneDirection where
  | up
  | down
  | left
  | right
  | next
  | prev
  deriving DecidableEq

inductive SplitSize where
  | cells (n : Nat)
  | percent (n : Nat)
  deriving DecidableEq

structure SplitRequest where
  direction : SplitDirection
  targetIsSecond : Bool
  topLevel : Bool
  size : SplitSize

/-- The ways `split_and_insert` can fail. -/
inductive SplitError where
  | zoomed
  | invalidPaneIndex (paneIndex : Nat)
  | noSpace
  | resize (pane : Pane)
  deriving DecidableEq

/-- The texts of the errors `split_and_insert` makes itself; a failed
`Pane::resize` is passed on as the pane reported it. -/
def SplitError.message : SplitError → Option String
  | .zoomed => some "cannot split while zoomed"
  | .invalidPaneIndex paneIndex =>
    some s!"invalid pane_index {paneIndex}; cannot split!"
  | .noSpace => some "No space for split!"
  | .resize _ => none

/-! ## Moving a divider -/

/-- The body of `adjust_node_at_cursor`: the divider moves by `delta`, but
leaves one cell to either child of the moved node. -/
def SplitDirectionAndSize.moveDivider (d : SplitDirectionAndSize) (delta : Int)
    (cell : TerminalSize) : SplitDirectionAndSize :=
  let ax := d.direction.axis
  let extent := d.extent ax
  let cells := min (max (isat (asIsize (d.first.cells ax) + delta)) 1)
    (isat (asIsize extent - 2))
  let first := d.first.withCells ax (asUsize cells) cell
  { d with
    first := first
    second := d.second.withCells ax (extent - usatAdd (first.cells ax) 1) cell }

namespace TabInner

def adjustNodeAtCursor (tab : TabInner) (c : PaneCursor) (delta : Int) :
    Option PaneCursor := do
  let cell ← cellDimensions tab.size
  match c.it with
  | .node l r (some d) => some { c with it := .node l r (some (d.moveDivider delta cell)) }
  | _ => some c

/-- The body of the loop of `cascade_size_from_cursor`. -/
def cascadeVisit (rootSize : TerminalSize) (calls : List PaneCall) (c : PaneCursor) :
    List PaneCall × PaneCursor :=
  let paneSize := holeSize rootSize c.path
  match c.it with
  | .leaf pane => (calls ++ [.resize pane paneSize], c)
  | .node l r (some d) =>
    (calls, { c with it := .node l r (some (d.applyPaneSize paneSize)) })
  | _ => (calls, c)

def cascadeSizeFromCursor (tab : TabInner) (c : PaneCursor) : Option TabInner :=
  match c.preorderNext with
  | .error c => some { tab with pane := some c.tree }
  | .ok c => do
      let (calls, tree) ←
        Cursor.walk Cursor.preorderNext (cascadeVisit tab.size) c.tree.numNodes [] c
      let tab := { tab with pane := some tree }.call calls
      tab.sendResizeBatch (collectPaneSizes tree tab.size)

def resizeSplitBy (tab : TabInner) (splitIndex : Nat) (delta : Int) : Option TabInner :=
  if tab.zoomed.isSome then some tab
  else do
    let root ← tab.pane
    match ← Cursor.seek (fun c => !c.isLeaf) splitIndex root.numNodes 0 root.cursor with
    | .error c => some { tab with pane := some c.tree }
    | .ok c => do
        let c ← tab.adjustNodeAtCursor c delta
        tab.cascadeSizeFromCursor c

/-- The loop of `adjust_pane_size` that goes up from the active leaf until it
stands on a split in the wanted direction. -/
def climbToSplit (direction : SplitDirection) :
    Path Pane SplitDirectionAndSize → PaneTree → Except PaneCursor PaneCursor
  | .top, it => .error ⟨it, .top⟩
  | .left r d up, it =>
    if d.map (·.direction) = some direction then .ok ⟨.node it r d, up⟩
    else climbToSplit direction up (.node it r d)
  | .right l d up, it =>
    if d.map (·.direction) = some direction then .ok ⟨.node l it d, up⟩
    else climbToSplit direction up (.node l it d)

/-- The split direction and signed amount of an `adjust_pane_size` request;
`Next` and `Prev` are `unreachable!`. -/
def adjustRequest (direction : PaneDirection) (amount : Nat) :
    Option (SplitDirection × Int) :=
  match direction with
  | .left => some (.horizontal, iwrap (-asIsize amount))
  | .right => some (.horizontal, asIsize amount)
  | .up => some (.vertical, iwrap (-asIsize amount))
  | .down => some (.vertical, asIsize amount)
  | .next => none
  | .prev => none

def adjustPaneSize (tab : TabInner) (direction : PaneDirection) (amount : Nat) :
    Option TabInner :=
  if tab.zoomed.isSome then some tab
  else do
    let root ← tab.pane
    match ← Cursor.seek Cursor.isLeaf tab.active root.numNodes 0 root.cursor with
    | .error c => some { tab with pane := some c.tree }
    | .ok c => do
        let (splitDirection, delta) ← adjustRequest direction amount
        match climbToSplit splitDirection c.path c.it with
        | .error c => some { tab with pane := some c.tree }
        | .ok c => do
            let c ← tab.adjustNodeAtCursor c delta
            tab.cascadeSizeFromCursor c

/-! ## Splitting -/

def splitDimension (dim : Nat) (request : SplitRequest) : Nat × Nat :=
  let targetSize :=
    max
      (match request.size with
        | .cells n => n
        | .percent n => umul dim n / 100) 1
  let remain := dim - uadd targetSize 1
  if request.targetIsSecond then (remain, targetSize) else (targetSize, remain)

/-- The split of a `width` by `height` area, with the tab's cell size. -/
def splitArea (cell : TerminalSize) (width height : Nat) (request : SplitRequest) :
    SplitDirectionAndSize :=
  let widths :=
    match request.direction with
    | .horizontal => splitDimension width request
    | .vertical => (width, width)
  let heights :=
    match request.direction with
    | .horizontal => (height, height)
    | .vertical => splitDimension height request
  { direction := request.direction
    first :=
      { rows := heights.1
        cols := widths.1
        pixelHeight := umul cell.pixelHeight heights.1
        pixelWidth := umul cell.pixelWidth widths.1
        dpi := cell.dpi }
    second :=
      { rows := heights.2
        cols := widths.2
        pixelHeight := umul cell.pixelHeight heights.2
        pixelWidth := umul cell.pixelWidth widths.2
        dpi := cell.dpi } }

def computeSplitSize (tab : TabInner) (paneIndex : Nat) (request : SplitRequest) :
    Option (Option SplitDirectionAndSize × TabInner) := do
  let cell ← cellDimensions tab.size
  if request.topLevel then
    some (some (splitArea cell tab.size.cols tab.size.rows request), tab)
  else do
    let (_, tab) ← tab.setZoomed false
    let (panes, tab) ← tab.iterPanes
    some (panes[paneIndex]?.map fun pos => splitArea cell pos.width pos.height request, tab)

/-- The "No space for split!" test of `split_and_insert`. -/
def noSpace (info : SplitDirectionAndSize) (tabSize : TerminalSize) : Bool :=
  info.first.rows = 0 || info.first.cols = 0 || info.second.rows = 0 ||
    info.second.cols = 0 ||
    uadd info.topOfSecond info.second.rows > tabSize.rows ||
    uadd info.leftOfSecond info.second.cols > tabSize.cols

/-- The part of `split_and_insert` that splits one leaf: both panes are resized
before the tree is put back, and a failure leaves `self.pane` at `None`. -/
def splitLeafAndInsert (accepts : Pane → TerminalSize → Bool) (tab : TabInner)
    (root : PaneTree) (paneIndex : Nat) (request : SplitRequest)
    (info : SplitDirectionAndSize) (pane : Pane) :
    Option (Except SplitError Nat × TabInner) := do
  -- the tree is out of the tab from here on
  let tab := { tab with pane := none }
  match ← root.cursor.goToNthLeaf paneIndex with
  | .error c =>
    some (.error (.invalidPaneIndex paneIndex), { tab with pane := some c.tree })
  | .ok c => do
      let existing ← c.leaf?
      let (pane1, pane2) := if request.targetIsSecond then (existing, pane) else (pane, existing)
      let tab := tab.call [.resize pane1 info.first]
      if !accepts pane1 info.first then some (.error (.resize pane1), tab)
      else
        let tab := tab.call [.resize pane2 info.second]
        if !accepts pane2 info.second then some (.error (.resize pane2), tab)
        else
          match (c.setLeaf pane1).splitLeafAndInsertRight pane2 with
          | .error c =>
            some (.error (.invalidPaneIndex paneIndex), { tab with pane := some c.tree })
          | .ok c =>
            let tab := { tab with pane := some (match c.assignNode (some info) with
              | .ok c => c.tree
              | .error c => c.tree) }
            if request.targetIsSecond then
              some (.ok (paneIndex + 1),
                { tab with
                  active := paneIndex + 1
                  recency := tab.recency.tag (paneIndex + 1) })
            else some (.ok paneIndex, tab)

/-- The part of `split_and_insert` that splits the whole tab, whose contents
have been resized to one half already. -/
def splitTopLevel (tab : TabInner) (c : PaneCursor) (request : SplitRequest)
    (info : SplitDirectionAndSize) : Option (Except SplitError Nat × TabInner) := do
  let tree :=
    match c.assignNode (some info) with
    | .ok c => c.tree
    | .error c => c.tree
  let size ← info.size
  let paneIndex := if request.targetIsSecond then tree.numLeaves - 1 else 0
  some (.ok paneIndex,
    { tab with
      pane := some tree
      size := size
      active := paneIndex
      recency := tab.recency.tag paneIndex })

/-- `split_and_insert`. Whether a pane's `resize` succeeds is the pane's own
business (`accepts`). -/
def splitAndInsert (accepts : Pane → TerminalSize → Bool) (tab : TabInner)
    (paneIndex : Nat) (request : SplitRequest) (pane : Pane) :
    Option (Except SplitError Nat × TabInner) :=
  if tab.zoomed.isSome then some (.error .zoomed, tab)
  else do
    let (info, tab) ← tab.computeSplitSize paneIndex request
    match info with
    | none => some (.error (.invalidPaneIndex paneIndex), tab)
    | some info =>
      if noSpace info tab.size then some (.error .noSpace, tab)
      else do
        let root ← tab.pane
        let tab ←
          if request.topLevel && decide (1 < root.numLeaves) then
            tab.resize (if request.targetIsSecond then info.first else info.second)
          else some tab
        let root ← tab.pane
        let cursor : PaneCursor := root.cursor
        if request.topLevel && !cursor.isLeaf then
          match
            if request.targetIsSecond then cursor.splitNodeAndInsertRight pane
            else cursor.splitNodeAndInsertLeft pane with
          | .ok c => splitTopLevel tab c request info
          | .error c => splitLeafAndInsert accepts tab c.tree paneIndex request info pane
        else splitLeafAndInsert accepts tab root paneIndex request info pane

/-! ## Removing panes -/

/-- What the loop of `remove_pane_if` carries along. -/
structure Removal where
  zoomed : Option Pane
  deadPanes : List Pane
  paneIndex : Nat
  removedIndices : List Nat
  calls : List PaneCall

/-- The sibling of a removed leaf gets the space of the split that is gone. -/
def regrow (s : Removal) (c : PaneCursor) (size : TerminalSize) : Removal × PaneCursor :=
  match c.it with
  | .leaf unsplit => ({ s with calls := s.calls ++ [.resize unsplit size] }, c)
  | .node l r (some d) => (s, { c with it := .node l r (some (d.applyPaneSize size)) })
  | _ => (s, c)

/-- The size of a removed split, with the tab's cell size. -/
def unsplitSize (cell : TerminalSize) (parent : SplitDirectionAndSize) : TerminalSize where
  rows := parent.height
  cols := parent.width
  pixelWidth := umul cell.pixelWidth parent.width
  pixelHeight := umul cell.pixelHeight parent.height
  dpi := cell.dpi

/-- One round of the loop of `remove_pane_if`, up to `preorder_next`: the tree
when the loop breaks, else the cursor to go on from. -/
def removeVisit (f : Nat → Pane → Bool) (rootSize cell : TerminalSize)
    (zoomedId : Option PaneId) (s : Removal) (c : PaneCursor) :
    Option (Removal × (PaneTree ⊕ PaneCursor)) :=
  let paneSize := holeSize rootSize c.path
  match c.it with
  | .leaf pane =>
    if f s.paneIndex pane then
      let s :=
        { s with
          removedIndices := s.removedIndices ++ [s.paneIndex]
          zoomed := if some pane.paneId = zoomedId then none else s.zoomed }
      match c.unsplitLeaf with
      | .ok (c, dead, parent) => do
          let parent ← parent
          let (s, c) :=
            regrow { s with deadPanes := s.deadPanes ++ [dead] } c (unsplitSize cell parent)
          some ({ s with paneIndex := s.paneIndex + 1 }, .inr c)
      | .error c =>
        if c.isTop && c.isLeaf then
          some ({ s with deadPanes := s.deadPanes ++ [pane] }, .inl .empty)
        else some (s, .inl c.tree)
    else
      let calls := if s.deadPanes.isEmpty then s.calls else s.calls ++ [.resize pane paneSize]
      some ({ s with calls := calls, paneIndex := s.paneIndex + 1 }, .inr c)
  | .node l r (some d) =>
    if s.deadPanes.isEmpty then some (s, .inr c)
    else some (s, .inr { c with it := .node l r (some (d.applyPaneSize paneSize)) })
  | _ => some (s, .inr c)

/-- The loop of `remove_pane_if`. -/
def removeLoop (f : Nat → Pane → Bool) (rootSize cell : TerminalSize)
    (zoomedId : Option PaneId) :
    Nat → Removal → PaneCursor → Option (Removal × PaneTree)
  | 0, _, _ => none
  | fuel + 1, s, c =>
    match removeVisit f rootSize cell zoomedId s c with
    | none => none
    | some (s, .inl tree) => some (s, tree)
    | some (s, .inr c) =>
      match c.preorderNext with
      | .ok c => removeLoop f rootSize cell zoomedId fuel s c
      | .error c => some (s, c.tree)

/-- `remove_pane_if`, with the panes it returns. Every round either removes a
leaf or goes on to the next position, so a walk of the tree for each removal
is enough fuel. -/
def removePaneIf (tab : TabInner) (f : Nat → Pane → Bool) :
    Option (List Pane × TabInner) := do
  let root ← tab.pane
  let cell ← cellDimensions tab.size
  let start : Removal :=
    { zoomed := tab.zoomed
      deadPanes := []
      paneIndex := 0
      removedIndices := []
      calls := tab.calls }
  let (s, tree) ← removeLoop f tab.size cell (tab.zoomed.map (·.paneId))
    ((root.numNodes + 1) * (root.numNodes + 1)) start root.cursor
  let removed := s.removedIndices.filter (· ≤ tab.active)
  some (s.deadPanes,
    { tab with
      pane := some tree
      zoomed := s.zoomed
      calls := s.calls
      active := tab.active - removed.length })

/-- `prune_dead_panes`, for the panes the mux counts as gone. -/
def pruneDeadPanes (isGone : Pane → Bool) (tab : TabInner) : Option (Bool × TabInner) := do
  let (dead, tab) ← tab.removePaneIf fun _ pane => isGone pane
  some (!dead.isEmpty, tab)

def killPane (tab : TabInner) (paneId : PaneId) : Option (Bool × TabInner) := do
  let (dead, tab) ← tab.removePaneIf fun _ pane => pane.paneId = paneId
  some (!dead.isEmpty, tab)

def killPanesInDomain (tab : TabInner) (domain : DomainId) : Option (Bool × TabInner) := do
  let (dead, tab) ← tab.removePaneIf fun _ pane => pane.domainId = domain
  some (!dead.isEmpty, tab)

def removePane (tab : TabInner) (paneId : PaneId) : Option (Option Pane × TabInner) := do
  let (dead, tab) ← tab.removePaneIf fun _ pane => pane.paneId = paneId
  some (dead.head?, tab)

end TabInner

end Wakterm.Mux

/-!
## The neighbour of a pane

`get_pane_direction` of `mux/src/tab.rs`: the pane next to the active one in a direction. Among
those that are adjacent the one that was active last is taken.
-/

namespace Wakterm.Mux

open Wakterm.Machine Wakterm.Rangeset

def Recency.score (r : Recency) (idx : Nat) : Nat :=
  (r.byIdx.lookup idx).getD 0

def edgeIntersects (activeStart activeSize currentStart currentSize : Nat) : Bool :=
  intersectsRange ⟨activeStart, uadd activeStart activeSize⟩
    ⟨currentStart, uadd currentStart currentSize⟩

/-- Is the pane adjacent to the active one in the direction? -/
def isAdjacent (direction : PaneDirection) (active pane : PositionedPane) : Bool :=
  match direction with
  | .right => pane.left = uadd (uadd active.left active.width) 1 &&
      edgeIntersects active.top active.height pane.top pane.height
  | .left => uadd (uadd pane.left pane.width) 1 = active.left &&
      edgeIntersects active.top active.height pane.top pane.height
  | .up => uadd (uadd pane.top pane.height) 1 = active.top &&
      edgeIntersects active.left active.width pane.left pane.width
  | .down => uadd (uadd active.top active.height) 1 = pane.top &&
      edgeIntersects active.left active.width pane.left pane.width
  | .next | .prev => false

/-- The score of a pane: zero if it is not adjacent. -/
def paneScore (direction : PaneDirection) (recency : Recency) (active pane : PositionedPane) : Nat :=
  if isAdjacent direction active pane then uadd 1 (recency.score pane.index) else 0

/-- The body of the loop of `get_pane_direction`: a later pane wins a tie. -/
def betterPane (direction : PaneDirection) (recency : Recency) (active : PositionedPane)
    (best : Option (Nat × PositionedPane)) (pane : PositionedPane) :
    Option (Nat × PositionedPane) :=
  let score := paneScore direction recency active pane
  if 0 < score then
    match best with
    | some (bestScore, bestPane) =>
      if score < bestScore then some (bestScore, bestPane) else some (score, pane)
    | none => some (score, pane)
  else best

/-- The pane after or before the active one, in the order of the tree. -/
def cyclicNeighbour (direction : PaneDirection) (panes : List PositionedPane) (active : Nat) : Nat :=
  let maxPaneId := ((panes.map (·.index)).max?).getD active
  if direction = .next then
    if active = maxPaneId then 0 else uadd active 1
  else if active = 0 then maxPaneId
  else active - 1

namespace TabInner

def getPaneDirection (tab : TabInner) (direction : PaneDirection) (ignoreZoom : Bool) :
    Option (Option Nat × TabInner) := do
  let (panes, tab) ← (if ignoreZoom then tab.iterPanesIgnoringZoom else tab.iterPanes)
  match panes.find? (·.isActive) with
  -- no active pane somehow
  | none => some (some 0, tab)
  | some active =>
    if direction = .next ∨ direction = .prev then
      some (some (cyclicNeighbour direction panes active.index), tab)
    else
      let best := panes.foldl (betterPane direction tab.recency active) none
      some (best.map (·.2.index), tab)

end TabInner

end Wakterm.Mux
