import Wakterm.Machine.KeyMap
import Wakterm.Machine.Loop
import Wakterm.Mux.TabSync
import Wakterm.Mux.Window

/-!
# The client's mirror of the server's tabs

`ClientDomain::process_pane_list` and the maps of `ClientInner` that it keeps: from the server's
windows, tabs and panes to the local ones.
-/

namespace Wakterm.Mux.PaneNode

/-- The leaves in the order in which `build_from_pane_tree` comes to them. -/
def leafEntries : PaneNode → List PaneEntry
  | .empty => []
  | .split left right _ => left.leafEntries ++ right.leafEntries
  | .leaf entry => [entry]

end Wakterm.Mux.PaneNode

namespace Wakterm.Client.PaneList

open Wakterm.Machine Wakterm.Mux

/-! ## The mux and the maps -/

structure LocalWindow where
  window : Window TabId
  workspace : String
  title : String
  deriving DecidableEq

/-- A pane of the mux: its domain, and, of a `ClientPane`, the pane that it shows. -/
structure LocalPane where
  domainId : DomainId
  remotePaneId : Option PaneId
  deriving DecidableEq

/-- The mux, with the ids that are given out next. -/
structure LocalMux where
  windows : KeyMap WindowId LocalWindow
  tabs : KeyMap TabId TabInner
  panes : KeyMap PaneId LocalPane
  nextWindowId : WindowId
  nextTabId : TabId
  nextPaneId : PaneId
  activeWorkspace : String
  deriving DecidableEq

structure ClientInner where
  localDomainId : DomainId
  mux : LocalMux
  remoteToLocalWindow : KeyMap WindowId WindowId
  remoteToLocalTab : KeyMap TabId TabId
  remoteTabToWindow : KeyMap TabId WindowId
  remoteToLocalPane : KeyMap PaneId PaneId
  deriving DecidableEq

structure AgentTabBadgeState where
  waitingOnUser : Bool
  needsAttention : Bool

structure ListPanesResponse where
  tabs : List PaneNode
  tabTitles : List String
  tabBadges : List AgentTabBadgeState
  parkedTabIds : List TabId
  windowTitles : KeyMap WindowId String

/-- How `process_pane_list` fails: by the panics of its own, by the assertion of `Window::push`, by
the error of `add_tab_to_window`, or by a panic of the tab that is given a tree. -/
inductive Fault where
  | noSuchWindow
  | invalidPrimaryWindow
  | tabAlreadyAdded
  | unknownWindow (windowId : WindowId)
  | paneTree
  deriving DecidableEq

/-- The texts of those that are errors, or panics with a text of their own. -/
def Fault.message : Fault → Option String
  | noSuchWindow => some "no such window!?"
  | invalidPrimaryWindow => some "primary window to be valid"
  | tabAlreadyAdded => some "tab already added to this window"
  | unknownWindow windowId => some s!"add_tab_to_window: no such window_id {windowId}"
  | paneTree => none

namespace LocalMux

/-- `Tab::new` and `add_tab_no_panes`. -/
def newTab (mux : LocalMux) (size : TerminalSize) : LocalMux :=
  { mux with
    tabs := mux.tabs.insert mux.nextTabId (.new mux.nextTabId size)
    nextTabId := mux.nextTabId + 1 }

def newEmptyWindow (mux : LocalMux) (workspace : Option String) : LocalMux :=
  { mux with
    windows := mux.windows.insert mux.nextWindowId
      ⟨.new mux.nextWindowId, workspace.getD mux.activeWorkspace, ""⟩
    nextWindowId := mux.nextWindowId + 1 }

/-- `Window::push` on a window of the mux. -/
def pushTab (mux : LocalMux) (windowId : WindowId) (w : LocalWindow) (tabId : TabId) :
    Except Fault LocalMux :=
  match w.window.push id tabId with
  | (.ok _, window) =>
    .ok { mux with windows := mux.windows.insert windowId { w with window := window } }
  | (.error _, _) => .error .tabAlreadyAdded

def addTabToWindow (mux : LocalMux) (tabId : TabId) (windowId : WindowId) :
    Except Fault LocalMux :=
  match mux.windows.get windowId with
  | none => .error (.unknownWindow windowId)
  | some w => mux.pushTab windowId w tabId

/-- What an operation that may fail leaves of the window; its error is only logged. -/
def updateWindow {α : Type} (mux : LocalMux) (windowId : WindowId)
    (f : Window TabId → Window.Outcome TabId α) : LocalMux :=
  match mux.windows.get windowId with
  | none => mux
  | some w =>
    { mux with windows := mux.windows.insert windowId { w with window := (f w.window).2 } }

end LocalMux

namespace ClientInner

def removeOldTabMapping (c : ClientInner) (remoteTabId : TabId) : ClientInner :=
  { c with
    remoteToLocalTab := c.remoteToLocalTab.erase remoteTabId
    remoteTabToWindow := c.remoteTabToWindow.erase remoteTabId }

def newTab (c : ClientInner) (remoteTabId : TabId) (size : TerminalSize) : TabId × ClientInner :=
  (c.mux.nextTabId, { c with
    mux := c.mux.newTab size
    remoteToLocalTab := c.remoteToLocalTab.insert remoteTabId c.mux.nextTabId })

/-- The local tab of a tab of the server: one that is not in the mux any more is made again, with
another id. -/
def localTab (c : ClientInner) (remoteTabId : TabId) (size : TerminalSize) : TabId × ClientInner :=
  match c.remoteToLocalTab.get remoteTabId with
  | some tabId =>
    if (c.mux.tabs.get tabId).isSome then (tabId, c)
    else (c.removeOldTabMapping remoteTabId).newTab remoteTabId size
  | none => c.newTab remoteTabId size

def recordRemoteTabWindow (c : ClientInner) (remoteTabId : TabId) (remoteWindowId : WindowId) : ClientInner :=
  { c with remoteTabToWindow := c.remoteTabToWindow.insert remoteTabId remoteWindowId }

def recordRemoteToLocalWindowMapping (c : ClientInner) (remoteWindowId localWindowId : WindowId) :
    ClientInner :=
  { c with remoteToLocalWindow := c.remoteToLocalWindow.insert remoteWindowId localWindowId }

/-- `remote_to_local_pane_id`: a pane that is not in the map is looked for in the mux. -/
def remoteToLocalPaneId (c : ClientInner) (remotePaneId : PaneId) : Option PaneId × ClientInner :=
  match c.remoteToLocalPane.get remotePaneId with
  | some paneId => (some paneId, c)
  | none =>
    match c.mux.panes.entries.find? fun entry =>
        entry.2.domainId = c.localDomainId && entry.2.remotePaneId = some remotePaneId with
    | some entry =>
      (some entry.1,
        { c with remoteToLocalPane := c.remoteToLocalPane.insert remotePaneId entry.1 })
    | none => (none, c)

/-- `ClientPane::new` and `add_pane`. -/
def newPane (c : ClientInner) (remotePaneId : PaneId) : PaneId × ClientInner :=
  (c.mux.nextPaneId, { c with mux := { c.mux with
    panes := c.mux.panes.insert c.mux.nextPaneId ⟨c.localDomainId, some remotePaneId⟩
    nextPaneId := c.mux.nextPaneId + 1 } })

/-- The pane that the closure given to `sync_with_pane_tree` makes of an entry. -/
def localPane (c : ClientInner) (entry : PaneEntry) : PaneId × ClientInner :=
  match c.remoteToLocalPaneId entry.paneId with
  | (some paneId, c) =>
    if (c.mux.panes.get paneId).isSome then (paneId, c)
    else { c with remoteToLocalPane := c.remoteToLocalPane.erase entry.paneId }.newPane
      entry.paneId
  | (none, c) => c.newPane entry.paneId

/-- The panes of the leaves, one after the other. -/
def localPanes (c : ClientInner) : List PaneEntry → List (PaneId × PaneId) × ClientInner
  | [] => ([], c)
  | entry :: entries =>
    let (paneId, c) := c.localPane entry
    let (panes, c) := c.localPanes entries
    ((entry.paneId, paneId) :: panes, c)

def syncWithPaneTree (c : ClientInner) (tabId : TabId) (size : TerminalSize) (root : PaneNode) :
    Except Fault ClientInner :=
  let (panes, c) := c.localPanes root.leafEntries
  match c.mux.tabs.get tabId with
  | none => .error .paneTree
  | some tab =>
    match tab.syncWithPaneTree size root fun entry =>
        ⟨(panes.lookup entry.paneId).getD 0, c.localDomainId⟩ with
    | none => .error .paneTree
    | some tab => .ok { c with mux := { c.mux with tabs := c.mux.tabs.insert tabId tab } }

/-- A new local window for a window of the server, with its first tab. -/
def placeInNewWindow (c : ClientInner) (remoteWindowId : WindowId) (tabId : TabId)
    (workspace : Option String) : Except Fault ClientInner :=
  let localWindowId := c.mux.nextWindowId
  let c := { c with mux := c.mux.newEmptyWindow workspace }
  let c := c.recordRemoteToLocalWindowMapping remoteWindowId localWindowId
  (c.mux.addTabToWindow tabId localWindowId).map fun mux => { c with mux := mux }

/-- The tab is put into the local window of its window; `none` is a primary window that has been
used up. -/
def placeTab (c : ClientInner) (primaryWindowId : Option WindowId) (remoteWindowId : WindowId)
    (tabId : TabId) (workspace : Option String) : Except Fault (ClientInner × Option WindowId) :=
  match c.remoteToLocalWindow.get remoteWindowId with
  | some localWindowId =>
    match c.mux.windows.get localWindowId with
    | none => .error .noSuchWindow
    | some w =>
      if (w.window.idxById id tabId).isNone then
        (c.mux.pushTab localWindowId w tabId).map fun mux =>
          ({ c with mux := mux }, primaryWindowId)
      else .ok (c, primaryWindowId)
  | none =>
    match primaryWindowId with
    | none => (c.placeInNewWindow remoteWindowId tabId workspace).map fun c => (c, none)
    | some localWindowId =>
      match c.mux.windows.get localWindowId with
      | none => .error .invalidPrimaryWindow
      | some w =>
        if some w.workspace = workspace then
          let c := c.recordRemoteToLocalWindowMapping remoteWindowId localWindowId
          (c.mux.addTabToWindow tabId localWindowId).map fun mux =>
            ({ c with mux := mux }, none)
        else
          (c.placeInNewWindow remoteWindowId tabId workspace).map fun c =>
            (c, primaryWindowId)

end ClientInner

/-! ## Marking -/

/-- The state of the loop over the tabs: what is still to be forgotten, and the tabs of each window
in their order. -/
structure Marking where
  client : ClientInner
  primaryWindowId : Option WindowId
  windowsToForget : List WindowId
  tabsToForget : List TabId
  panesToForget : List PaneId
  tabOrder : KeyMap WindowId (List TabId)

/-- The ids that are known at the beginning. -/
def Marking.start (c : ClientInner) (primaryWindowId : Option WindowId) : Marking where
  client := c
  primaryWindowId := primaryWindowId
  windowsToForget := c.remoteToLocalWindow.entries.map (·.1)
  tabsToForget := c.remoteToLocalTab.entries.map (·.1)
  panesToForget := c.remoteToLocalPane.entries.map (·.1)
  tabOrder := .empty

/-- The ids of a tab and its window are not to be forgotten. -/
def Marking.mark (m : Marking) (remoteWindowId : WindowId) (remoteTabId : TabId) : Marking :=
  { m with
    windowsToForget := m.windowsToForget.filter (· ≠ remoteWindowId)
    tabsToForget := m.tabsToForget.filter (· ≠ remoteTabId)
    tabOrder := m.tabOrder.insert remoteWindowId
      ((m.tabOrder.get remoteWindowId).getD [] ++ [remoteTabId]) }

/-- A tab of the server is given its local tab, its panes and its window. -/
def Marking.processTab (m : Marking) (remoteWindowId : WindowId) (remoteTabId : TabId)
    (rootSize : TerminalSize) (root : PaneNode) : Except Fault Marking := do
  let m := m.mark remoteWindowId remoteTabId
  let (tabId, c) := m.client.localTab remoteTabId rootSize
  let c := c.recordRemoteTabWindow remoteTabId remoteWindowId
  let c ← c.syncWithPaneTree tabId rootSize root
  let workspace := root.leafEntries.getLast?.map (·.workspace)
  let (c, primaryWindowId) ← c.placeTab m.primaryWindowId remoteWindowId tabId workspace
  return { m with
    client := c
    primaryWindowId := primaryWindowId
    panesToForget := m.panesToForget.filter (· ∉ root.leafEntries.map (·.paneId)) }

/-- One round of the loop over the tabs. -/
def Marking.process (m : Marking) (root : PaneNode) : Except Fault Marking :=
  match root.rootSize with
  | none => .error .paneTree
  | some none => .ok m
  | some (some rootSize) =>
    match root.windowAndTabIds with
    | none => .ok m
    | some (remoteWindowId, remoteTabId) => m.processTab remoteWindowId remoteTabId rootSize root

/-- The tabs that have a title and a badge. -/
def ListPanesResponse.listed (panes : ListPanesResponse) : List PaneNode :=
  ((panes.tabs.zip panes.tabTitles).zip panes.tabBadges).map (·.1.1)

namespace ClientInner

/-- `reconcile_remote_tab_order` for one window. -/
def reconcileTabOrder (c : ClientInner) (entry : WindowId × List TabId) : ClientInner :=
  match c.remoteToLocalWindow.get entry.1 with
  | none => c
  | some localWindowId =>
    let desired := entry.2.filterMap c.remoteToLocalTab.get
    if desired.length < 2 then c
    else { c with mux := c.mux.updateWindow localWindowId fun w =>
      w.applyTabOrderSubset id desired }

/-- `reconcile_remote_parked_tabs` for one window. -/
def reconcileParkedTabs (parked : List TabId) (c : ClientInner) (entry : WindowId × List TabId) :
    ClientInner :=
  match c.remoteToLocalWindow.get entry.1 with
  | none => c
  | some localWindowId =>
    let localTabIds := entry.2.filterMap c.remoteToLocalTab.get
    if localTabIds.length ≠ entry.2.length then c
    else
      let localParked := (entry.2.filter (· ∈ parked)).filterMap c.remoteToLocalTab.get
      { c with mux := c.mux.updateWindow localWindowId fun w =>
        w.applyParkedTabsSubset id localTabIds localParked }

def setWindowTitle (c : ClientInner) (entry : WindowId × String) : Except Fault ClientInner :=
  match c.remoteToLocalWindow.get entry.1 with
  | none => .ok c
  | some localWindowId =>
    match c.mux.windows.get localWindowId with
    | none => .error .noSuchWindow
    | some w => .ok { c with mux := { c.mux with
        windows := c.mux.windows.insert localWindowId { w with title := entry.2 } } }

/-- The sweep: what the server has not listed is forgotten. -/
def sweep (c : ClientInner) (m : Marking) : ClientInner :=
  { c with
    remoteToLocalWindow := m.windowsToForget.foldl KeyMap.erase c.remoteToLocalWindow
    remoteToLocalTab := m.tabsToForget.foldl KeyMap.erase c.remoteToLocalTab
    remoteTabToWindow := m.tabsToForget.foldl KeyMap.erase c.remoteTabToWindow
    remoteToLocalPane := m.panesToForget.foldl KeyMap.erase c.remoteToLocalPane }

def processPaneList (c : ClientInner) (panes : ListPanesResponse) (primaryWindowId : Option WindowId) :
    Except Fault ClientInner := do
  let m ← panes.listed.foldlM Marking.process (.start c primaryWindowId)
  let c := m.tabOrder.entries.foldl reconcileTabOrder m.client
  let c := m.tabOrder.entries.foldl (reconcileParkedTabs panes.parkedTabIds) c
  let c ← panes.windowTitles.entries.foldlM setWindowTitle c
  return c.sweep m

/-- A client that is attached to a server, with no primary window, in a mux. -/
def attached (localDomainId : DomainId) (mux : LocalMux) : ClientInner where
  localDomainId := localDomainId
  mux := mux
  remoteToLocalWindow := .empty
  remoteToLocalTab := .empty
  remoteTabToWindow := .empty
  remoteToLocalPane := .empty

/-- One list of panes after the other. -/
def processAll (c : ClientInner) (lists : List ListPanesResponse) : Except Fault ClientInner :=
  lists.foldlM (fun c panes => c.processPaneList panes none) c

end ClientInner

end Wakterm.Client.PaneList
