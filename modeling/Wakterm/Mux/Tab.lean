import Wakterm.Mux.SplitTree

/-!
# `TabInner`: panes, focus, resizing and zooming

A tab and the operations of `mux/src/tab.rs` that keep its tree's shape.
-/

namespace Wakterm.Mux

open Wakterm.Machine Wakterm.Bintree

/-- `Recency`: when each pane index was last activated. -/
structure Recency where
  count : Nat
  byIdx : List (Nat × Nat)
  deriving DecidableEq

/-- `Recency::tag`; a later entry hides an earlier one with the same index. -/
def Recency.tag (r : Recency) (idx : Nat) : Recency :=
  { count := uadd r.count 1, byIdx := (idx, r.count) :: r.byIdx }

/-- `TabInner`, with the calls it has made on its panes. -/
structure TabInner where
  id : TabId
  pane : Option PaneTree
  size : TerminalSize
  sizeBeforeZoom : TerminalSize
  active : Nat
  zoomed : Option Pane
  recency : Recency
  calls : List PaneCall
  deriving DecidableEq

structure PositionedPane where
  index : Nat
  isActive : Bool
  isZoomed : Bool
  left : Nat
  top : Nat
  width : Nat
  pixelWidth : Nat
  height : Nat
  pixelHeight : Nat
  pane : Pane

/-- The size available at a position, by the immediate parent's data; at the
root, and below a node without data, the given root size. -/
def holeSize (rootSize : TerminalSize) : Path Pane SplitDirectionAndSize → TerminalSize
  | .left _ (some d) _ => d.first
  | .right _ (some d) _ => d.second
  | _ => rootSize

namespace TabInner

def new (id : TabId) (size : TerminalSize) : TabInner where
  id := id
  pane := some .empty
  size := size
  sizeBeforeZoom := size
  active := 0
  zoomed := none
  recency := ⟨0, []⟩
  calls := []

/-- Record calls on panes. -/
def call (tab : TabInner) (cs : List PaneCall) : TabInner :=
  { tab with calls := tab.calls ++ cs }

/-- The body of the loop over `path_to_root` in `iter_panes_impl`: the offset
grows at a second child, and the first ancestor with data gives the size. -/
def offsetStep (acc : Nat × Nat × Option TerminalSize)
    (step : PathBranch × Option SplitDirectionAndSize) : Nat × Nat × Option TerminalSize :=
  let (left, top, parentSize) := acc
  let (branch, node) := step
  match node with
  | none => (left, top, parentSize)
  | some node =>
    let parentSize :=
      match parentSize with
      | some s => some s
      | none => some (if branch = .isRight then node.second else node.first)
    if branch = .isRight then
      (uadd left node.leftOfSecond, uadd top node.topOfSecond, parentSize)
    else (left, top, parentSize)

/-- The loop over `path_to_root`: offsets of the position and, if an ancestor
has data, the size the nearest one gives. -/
def pathOffsets (path : List (PathBranch × Option SplitDirectionAndSize)) :
    Nat × Nat × Option TerminalSize :=
  path.foldl offsetStep (0, 0, none)

/-- The entry `iter_panes_impl` makes for the leaf at a cursor. -/
def positionedPane (tab : TabInner) (index : Nat) (c : PaneCursor) (pane : Pane) :
    PositionedPane :=
  let (left, top, parentSize) := pathOffsets c.path.toRoot
  let dims := parentSize.getD tab.size
  { index := index
    isActive := index = tab.active
    isZoomed := tab.zoomed.map (·.paneId) = some pane.paneId
    left := left
    top := top
    width := dims.cols
    pixelWidth := dims.pixelWidth
    height := dims.rows
    pixelHeight := dims.pixelHeight
    pane := pane }

/-- The body of the loop of `iter_panes_impl`. -/
def visitPane (tab : TabInner) (panes : List PositionedPane) (c : PaneCursor) :
    List PositionedPane × PaneCursor :=
  match c.it with
  | .leaf pane => (panes ++ [tab.positionedPane panes.length c pane], c)
  | _ => (panes, c)

def iterPanesImpl (tab : TabInner) (respectZoomState : Bool) :
    Option (List PositionedPane × TabInner) :=
  match respectZoomState, tab.zoomed with
  | true, some zoomed =>
    some ([{ index := 0
             isActive := true
             isZoomed := true
             left := 0
             top := 0
             width := tab.size.cols
             pixelWidth := tab.size.pixelWidth
             height := tab.size.rows
             pixelHeight := tab.size.pixelHeight
             pane := zoomed }], tab)
  | _, _ => do
      let root ← tab.pane
      let (panes, tree) ←
        Cursor.walk Cursor.preorderNext tab.visitPane root.numNodes [] root.cursor
      some (panes, { tab with pane := some tree })

def iterPanes (tab : TabInner) : Option (List PositionedPane × TabInner) :=
  tab.iterPanesImpl true

def iterPanesIgnoringZoom (tab : TabInner) : Option (List PositionedPane × TabInner) :=
  tab.iterPanesImpl false

def getActivePane (tab : TabInner) : Option (Option Pane × TabInner) :=
  match tab.zoomed with
  | some zoomed => some (some zoomed, tab)
  | none => do
      let (panes, tab) ← tab.iterPanesIgnoringZoom
      some (panes[tab.active]?.map (·.pane), tab)

def adviseFocusChange (tab : TabInner) (prior : Option Pane) : Option TabInner := do
  let (current, tab) ← tab.getActivePane
  match prior, current with
  | some prior, some current =>
    if prior.paneId ≠ current.paneId then
      some (tab.call [.focusChanged prior false, .focusChanged current true])
    else some tab
  | none, some current => some (tab.call [.focusChanged current true])
  | some prior, none => some (tab.call [.focusChanged prior false])
  | none, none => some tab

/-- `set_active_idx_impl`. -/
def setActiveIdx (tab : TabInner) (paneIndex : Nat) : Option TabInner := do
  let (prior, tab) ← tab.getActivePane
  { tab with active := paneIndex, recency := tab.recency.tag paneIndex }.adviseFocusChange
    prior

/-- `assign_pane`: the tree it builds starts empty, so `assign_top` succeeds. -/
def assignPane (tab : TabInner) (pane : Pane) : Option TabInner :=
  match (BinTree.cursor .empty : PaneCursor).assignTop pane with
  | .ok c => some { tab with pane := some c.tree }
  | .error _ => none

/-- Send the sizes of all panes to the active one, if there is one. -/
def sendResizeBatch (tab : TabInner) (sizes : List (PaneId × TerminalSize)) :
    Option TabInner := do
  let (active, tab) ← tab.getActivePane
  match active with
  | some pane => some (tab.call [.sendResizeBatch pane tab.id sizes])
  | none => some tab

def resizeImpl (tab : TabInner) (size : TerminalSize) (sendResize : Bool) :
    Option TabInner :=
  if size.rows = 0 ∨ size.cols = 0 then
    -- ignore "impossible" resize requests
    some tab
  else
    match tab.zoomed with
    | some zoomed => some ({ tab with size := size }.call [.resize zoomed size])
    | none => do
        let dims ← cellDimensions size
        let root ← tab.pane
        let cols := max size.cols (computeMinSize root).1
        let rows := max size.rows (computeMinSize root).2
        let newSize : TerminalSize :=
          { rows := rows
            cols := cols
            pixelWidth := umul cols dims.pixelWidth
            pixelHeight := umul rows dims.pixelHeight
            dpi := dims.dpi }
        let root := adjustXSize root (iwrap (asIsize cols - asIsize tab.size.cols)) dims
        let root := adjustYSize root (iwrap (asIsize rows - asIsize tab.size.rows)) dims
        let root := reconcileTreeSizes root newSize
        let tab := { tab with pane := some root, size := newSize }
        let tab := tab.call (applySizesFromSplits root newSize)
        if sendResize then tab.sendResizeBatch (collectPaneSizes root newSize)
        else some tab

def resize (tab : TabInner) (size : TerminalSize) : Option TabInner :=
  tab.resizeImpl size true

def toggleZoom (tab : TabInner) : Option TabInner :=
  let size := tab.size
  match tab.zoomed with
  | some _ => do
      let (pane, tab) ← { tab with zoomed := none }.getActivePane
      let tab :=
        match pane with
        | some pane => tab.call [.setZoomed pane false]
        | none => tab
      { tab with size := tab.sizeBeforeZoom }.resize size
  | none => do
      let (pane, tab) ← { tab with sizeBeforeZoom := size }.getActivePane
      match pane with
      | some pane =>
        some { tab.call [.setZoomed pane true, .resize pane size] with zoomed := some pane }
      | none => some tab

def setZoomed (tab : TabInner) (zoomed : Bool) : Option (Bool × TabInner) :=
  if tab.zoomed.isSome = zoomed then some (zoomed, tab)
  else do
    let tab ← tab.toggleZoom
    some (!zoomed, tab)

/-- The body of the loops of `rotate_*`: swap the pane in hand with the leaf. -/
def swapLeaf (hand : Pane) (c : PaneCursor) : Pane × PaneCursor :=
  match c.it with
  | .leaf pane => (pane, { c with it := .leaf hand })
  | _ => (hand, c)

/-- `rotate_clockwise` and `rotate_counter_clockwise`: they differ in the pane
they start with and in the direction of the walk. -/
def rotate (tab : TabInner) (clockwise : Bool)
    (start : List PositionedPane → Option PositionedPane)
    (next : PaneCursor → Except PaneCursor PaneCursor) : Option TabInner := do
  let (panes, tab) ← tab.iterPanesIgnoringZoom
  match start panes with
  | none => some tab
  | some p => do
      let root ← tab.pane
      let (_, tree) ← Cursor.walk next swapLeaf root.numNodes p.pane root.cursor
      let tab := { tab with pane := some tree }.call (applySizesFromSplits tree tab.size)
      let (active, tab) ← tab.getActivePane
      match active with
      | some pane => some (tab.call [.sendRotatePanes pane tab.id clockwise])
      | none => some tab

def rotateCounterClockwise (tab : TabInner) : Option TabInner :=
  tab.rotate false List.head? Cursor.postorderNext

def rotateClockwise (tab : TabInner) : Option TabInner :=
  tab.rotate true List.getLast? Cursor.preorderNext

/-- `swap_active_with_index`. It answers `None` on every path, so only the tab
is returned. -/
def swapActiveWithIndex (tab : TabInner) (paneIndex : Nat) (keepFocus : Bool) :
    Option TabInner := do
  let activeIdx := tab.active
  let (active, tab) ← tab.getActivePane
  match active with
  | none => some tab
  | some pane => do
      let root ← tab.pane
      match ← root.cursor.goToNthLeaf paneIndex with
      | .error c => some { tab with pane := some c.tree }
      | .ok c => do
          let taken ← c.leaf?
          let tree := (c.setLeaf pane).tree
          match ← tree.cursor.goToNthLeaf activeIdx with
          | .error c => some { tab with pane := some c.tree }
          | .ok c => do
              let old ← c.leaf?
              let tree := (c.setLeaf taken).tree
              let tab := { tab with pane := some tree }
              let tab := tab.call (applySizesFromSplits tree tab.size)
              if keepFocus then tab.setActiveIdx paneIndex
              else tab.adviseFocusChange (some old)

end TabInner

end Wakterm.Mux
