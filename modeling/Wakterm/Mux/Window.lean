import Mathlib.Data.Finset.Card
import Mathlib.Data.List.Infix
import Wakterm.Mux.SplitTree

/-!
# The tabs of a window

`Window` of `mux/src/window.rs`: the tabs in their order, and the ids of those that are parked.
-/

namespace Wakterm.Mux

structure Window (τ : Type) where
  id : Nat
  tabs : List τ
  parkedTabs : Finset TabId
  deriving DecidableEq

/-- The ways in which an operation fails. -/
inductive WindowError where
  | visibleIndex
  | orderLength (window given expected : Nat)
  | orderDuplicates (window : Nat)
  | orderMismatch (window : Nat)
  | subsetDuplicates (window : Nat)
  | subsetUnknown (window : Nat)
  | parkedOrder (window : Nat)
  | parkedDuplicates (window : Nat)
  | parkedUnknown (window : Nat)
  | lastVisible (window : Nat)
  | domainDuplicates (window : Nat)
  | domainUnknown (window : Nat)
  | notDomainSubset (window : Nat)
  | panic

/-- The texts of the errors; a panic has none. -/
def WindowError.message : WindowError → Option String
  | visibleIndex => some "visible tab index out of range"
  | orderLength window given expected =>
    some s!"tab order for window {window} has {given} tabs, expected {expected}"
  | orderDuplicates window => some s!"tab order for window {window} contains duplicate tab ids"
  | orderMismatch window => some s!"tab order for window {window} does not match its current tabs"
  | subsetDuplicates window =>
    some s!"tab order subset for window {window} contains duplicate tab ids"
  | subsetUnknown window =>
    some s!"tab order subset for window {window} contains an unknown tab id"
  | parkedOrder window =>
    some s!"parked-tab state for window {window} does not match its current ordered tab set"
  | parkedDuplicates window =>
    some s!"parked-tab state for window {window} contains duplicate tab ids"
  | parkedUnknown window =>
    some s!"parked-tab state for window {window} contains an unknown tab id"
  | lastVisible window => some s!"cannot park the last visible tab in window {window}"
  | domainDuplicates window =>
    some s!"parked-tab domain subset for window {window} contains duplicate tab ids"
  | domainUnknown window =>
    some s!"parked-tab domain subset for window {window} contains an unknown tab id"
  | notDomainSubset window =>
    some s!"parked-tab state for window {window} is not a valid domain subset"
  | panic => none

namespace Window

variable {τ : Type} (tabId : τ → TabId)

/-- What an operation gives, and the window that it leaves. -/
abbrev Outcome (τ α : Type) := Except WindowError α × Window τ

def new (id : Nat) : Window τ := ⟨id, [], ∅⟩

/-- The ids of the tabs in their order. -/
def ids (w : Window τ) : List TabId := w.tabs.map tabId

def insert (index : Nat) (tab : τ) (w : Window τ) : Outcome τ Unit :=
  if tabId tab ∈ w.ids tabId then (.error .panic, w)
  else if w.tabs.length < index then (.error .panic, w)
  else (.ok (), { w with tabs := w.tabs.insertIdx index tab })

def push (tab : τ) (w : Window τ) : Outcome τ Unit :=
  if tabId tab ∈ w.ids tabId then (.error .panic, w)
  else (.ok (), { w with tabs := w.tabs ++ [tab] })

def moveByIdx (source target : Nat) (w : Window τ) : Outcome τ τ :=
  match w.tabs[source]? with
  | none => (.error .panic, w)
  | some tab =>
    if source = target then (.ok tab, w)
    else
      let rest := w.tabs.eraseIdx source
      if rest.length < target then (.error .panic, { w with tabs := rest })
      else (.ok tab, { w with tabs := rest.insertIdx target tab })

/-- A `HashMap` from the tabs by their ids: of two tabs with one id, the later one. -/
def byId (tabs : List τ) (id : TabId) : Option τ := tabs.reverse.find? (tabId · = id)

def applyTabOrder (tabIds : List TabId) (w : Window τ) : Outcome τ Bool :=
  if tabIds.length ≠ w.tabs.length then
    (.error (.orderLength w.id tabIds.length w.tabs.length), w)
  else if tabIds.toFinset.card ≠ tabIds.length then (.error (.orderDuplicates w.id), w)
  else if tabIds.toFinset ≠ (w.ids tabId).toFinset then (.error (.orderMismatch w.id), w)
  else if w.ids tabId = tabIds then (.ok false, w)
  else
    match tabIds.mapM (byId tabId w.tabs) with
    | none => (.error .panic, { w with tabs := [] })
    | some tabs => (.ok true, { w with tabs := tabs })

/-- The loop of `apply_tab_order_subset`: each tab that is listed gives way to the next of them. -/
def place (desired : Finset TabId) (found : TabId → Option τ) :
    List TabId → List τ → Option (List τ)
  | _, [] => some []
  | ordered, tab :: tabs =>
    if tabId tab ∈ desired then
      match ordered with
      | [] => none
      | id :: ordered => do
          let next ← found id
          return next :: (← place desired found ordered tabs)
    else do return tab :: (← place desired found ordered tabs)

def applyTabOrderSubset (tabIds : List TabId) (w : Window τ) : Outcome τ Bool :=
  let desired := tabIds.toFinset
  if desired.card ≠ tabIds.length then (.error (.subsetDuplicates w.id), w)
  else
    let currentSubset := (w.ids tabId).filter (· ∈ desired)
    if currentSubset.length ≠ tabIds.length then (.error (.subsetUnknown w.id), w)
    else if currentSubset = tabIds then (.ok false, w)
    else
      match place tabId desired (byId tabId (w.tabs.filter (tabId · ∈ desired))) tabIds w.tabs with
      | none => (.error .panic, w)
      | some tabs => (.ok true, { w with tabs := tabs })

def iterVisible (w : Window τ) : List τ := w.tabs.filter (tabId · ∉ w.parkedTabs)

def visibleLen (w : Window τ) : Nat := w.tabs.length - w.parkedTabs.card

def moveVisibleByIdx (source target : Nat) (w : Window τ) : Outcome τ τ :=
  let visible := w.iterVisible tabId
  if ¬ (source < visible.length ∧ target < visible.length) then (.error .visibleIndex, w)
  else
    match visible[source]? with
    | none => (.error .panic, w)
    | some moved =>
      let visible := (visible.eraseIdx source).insertIdx target moved
      match w.applyTabOrderSubset tabId (visible.map tabId) with
      | (.error e, w) => (.error e, w)
      | (.ok _, w) => (.ok moved, w)

def applyParkedTabs (tabIds parkedTabIds : List TabId) (w : Window τ) : Outcome τ Bool :=
  let current := w.ids tabId
  if tabIds ≠ current then (.error (.parkedOrder w.id), w)
  else
    let parked := parkedTabIds.toFinset
    if parked.card ≠ parkedTabIds.length then (.error (.parkedDuplicates w.id), w)
    else if ¬ parked ⊆ current.toFinset then (.error (.parkedUnknown w.id), w)
    else if ¬ parked.card < current.length then (.error (.lastVisible w.id), w)
    else if parked = w.parkedTabs then (.ok false, w)
    else (.ok true, { w with parkedTabs := parked })

def applyParkedTabsSubset (domainTabIds parkedTabIds : List TabId) (w : Window τ) :
    Outcome τ Bool :=
  let domain := domainTabIds.toFinset
  if domain.card ≠ domainTabIds.length then (.error (.domainDuplicates w.id), w)
  else
    let current := (w.ids tabId).toFinset
    if ¬ domain ⊆ current then (.error (.domainUnknown w.id), w)
    else
      let parked := parkedTabIds.toFinset
      if ¬ (parked.card = parkedTabIds.length ∧ parked ⊆ domain) then
        (.error (.notDomainSubset w.id), w)
      else
        let desired := w.parkedTabs.filter (· ∉ domain) ∪ parked
        if ¬ desired.card < current.card then (.error (.lastVisible w.id), w)
        else if desired = w.parkedTabs then (.ok false, w)
        else (.ok true, { w with parkedTabs := desired })

def idxById (id : TabId) (w : Window τ) : Option Nat := w.tabs.findIdx? (tabId · = id)

def removeByIdx (index : Nat) (w : Window τ) : Outcome τ τ :=
  match w.tabs[index]? with
  | none => (.error .panic, w)
  | some tab =>
    (.ok tab,
      { w with tabs := w.tabs.eraseIdx index, parkedTabs := w.parkedTabs.erase (tabId tab) })

def removeById (id : TabId) (w : Window τ) : Window τ :=
  match w.idxById tabId id with
  | none => w
  | some index => { w with tabs := w.tabs.eraseIdx index, parkedTabs := w.parkedTabs.erase id }

/-- `prune_dead_tabs`: first the tabs that are dead, then those that the mux does not list. -/
def pruneDeadTabs (dead : τ → Bool) (liveTabIds : List TabId) (w : Window τ) : Window τ :=
  let w := ((w.tabs.filter dead).map tabId).foldl (fun w id => w.removeById tabId id) w
  ((w.tabs.filter (tabId · ∉ liveTabIds)).map tabId).foldl (fun w id => w.removeById tabId id) w

end Window

/-! ## Runs -/

/-- The operations on the tabs of a window. -/
inductive WindowOp (τ : Type) where
  | push (tab : τ)
  | insert (index : Nat) (tab : τ)
  | moveByIdx (source target : Nat)
  | moveVisibleByIdx (source target : Nat)
  | applyTabOrder (tabIds : List TabId)
  | applyTabOrderSubset (tabIds : List TabId)
  | applyParkedTabs (tabIds parkedTabIds : List TabId)
  | applyParkedTabsSubset (domainTabIds parkedTabIds : List TabId)
  | removeByIdx (index : Nat)
  | removeById (id : TabId)
  | pruneDeadTabs (dead : τ → Bool) (liveTabIds : List TabId)

/-- What an operation leaves, and whether it failed. -/
def Window.finished {τ α : Type} (outcome : Window.Outcome τ α) : Window.Outcome τ Unit :=
  (outcome.1.map fun _ => (), outcome.2)

def Window.step {τ : Type} (tabId : τ → TabId) (w : Window τ) : WindowOp τ → Window.Outcome τ Unit
  | .push tab => w.push tabId tab
  | .insert index tab => w.insert tabId index tab
  | .moveByIdx source target => finished (w.moveByIdx source target)
  | .moveVisibleByIdx source target => finished (w.moveVisibleByIdx tabId source target)
  | .applyTabOrder tabIds => finished (w.applyTabOrder tabId tabIds)
  | .applyTabOrderSubset tabIds => finished (w.applyTabOrderSubset tabId tabIds)
  | .applyParkedTabs tabIds parkedTabIds =>
    finished (w.applyParkedTabs tabId tabIds parkedTabIds)
  | .applyParkedTabsSubset domainTabIds parkedTabIds =>
    finished (w.applyParkedTabsSubset tabId domainTabIds parkedTabIds)
  | .removeByIdx index => finished (w.removeByIdx tabId index)
  | .removeById id => (.ok (), w.removeById tabId id)
  | .pruneDeadTabs dead liveTabIds => (.ok (), w.pruneDeadTabs tabId dead liveTabIds)

end Wakterm.Mux
