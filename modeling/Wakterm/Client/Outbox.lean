import Mathlib.Algebra.Group.Nat.Defs
import Mathlib.Logic.Function.Basic
import Wakterm.Machine.Steps

/-!
# Outboxes

`TabOrderOutbox`, `ParkedTabsOutbox` and `ActiveTabOutbox` of the client's domain, and the loops
that flush them.
-/

namespace Wakterm.Client.Outbox

open Machine

abbrev WindowId : Type := Nat
abbrev TabId : Type := Nat
abbrev PaneId : Type := Nat

/-- An intent was queued or sent for a window, the request sent last has succeeded, or a snapshot
showed a tab and its pane. -/
inductive Entry (α : Type) where
  | queued (windowId : WindowId) (intent : α)
  | sent (windowId : WindowId) (intent : α)
  | acknowledged (windowId : WindowId)
  | snapshot (windowId : WindowId) (tabId : TabId) (paneId : Option PaneId)

/-- What a loop does next: look for an intent, wait for its request, or acknowledge it. -/
inductive LoopPhase (β : Type) where
  | take
  | sending (intent : β)
  | acknowledge (intent : β)
  | done

structure FlushLoop (β : Type) where
  windowId : WindowId
  phase : LoopPhase β

/-- `TabOrderSendState`, `ParkedTabsSendState`. -/
structure SendState (α : Type) where
  inFlight : Bool
  pending : Option α

abbrev Windows (α : Type) : Type := WindowId → Option (SendState α)

def queue {α : Type} (windows : Windows α) (windowId : WindowId) (intent : α) : Windows α × Bool :=
  let inFlight := (windows windowId).any (·.inFlight)
  (Function.update windows windowId (some ⟨true, some intent⟩), !inFlight)

def takeNextOrFinish {α : Type} (windows : Windows α) (windowId : WindowId) :
    Windows α × Option α :=
  match windows windowId with
  | none => (windows, none)
  | some ⟨inFlight, some intent⟩ =>
    (Function.update windows windowId (some ⟨inFlight, none⟩), some intent)
  | some ⟨_, none⟩ => (Function.update windows windowId none, none)

structure ParkedTabsIntent where
  tabIds : List TabId
  parkedTabIds : List TabId

abbrev TabOrderOutbox : Type := Windows (List TabId)

abbrev ParkedTabsOutbox : Type := Windows ParkedTabsIntent

/-- An outbox with its loops. -/
structure Flush (α : Type) where
  windows : Windows α
  loops : List (FlushLoop α)
  log : List (Entry α)

/-- An intent is queued, or a loop goes on. -/
inductive Event (α : Type) where
  | queue (windowId : WindowId) (intent : α)
  | advance (i : Nat)

/-- `flush_tab_order`, `flush_parked_tabs`: the next step of a loop. -/
def advance {α : Type} (s : Flush α) (i : Nat) (loop : FlushLoop α) : Option (Flush α) :=
  match loop.phase with
  | .take =>
    let (windows, next) := takeNextOrFinish s.windows loop.windowId
    match next with
    | some intent =>
      some ⟨windows, s.loops.set i ⟨loop.windowId, .sending intent⟩,
        s.log ++ [.sent loop.windowId intent]⟩
    | none => some ⟨windows, s.loops.set i ⟨loop.windowId, .done⟩, s.log⟩
  | .sending _ => some { s with loops := s.loops.set i ⟨loop.windowId, .take⟩ }
  | .acknowledge _ | .done => none

def step {α : Type} (s : Flush α) : Event α → Option (Flush α)
  | .queue windowId intent =>
    let (windows, start) := queue s.windows windowId intent
    some ⟨windows, if start then s.loops ++ [⟨windowId, .take⟩] else s.loops,
      s.log ++ [.queued windowId intent]⟩
  | .advance i => s.loops[i]?.bind (advance s i)

/-- Nothing is queued. -/
def start (α : Type) : Flush α := ⟨fun _ => none, [], []⟩

structure ActiveTabIntent where
  generation : Nat
  tabId : TabId
  paneId : PaneId
  acknowledged : Bool

structure ActiveTabSendState where
  inFlight : Bool
  pending : Option ActiveTabIntent
  desired : Option ActiveTabIntent

structure ActiveTabOutbox where
  generation : Nat
  windows : WindowId → Option ActiveTabSendState

namespace ActiveTabOutbox

/-- The windows with another state of one of them. -/
def setWindow (outbox : ActiveTabOutbox) (windowId : WindowId)
    (state : Option ActiveTabSendState) : ActiveTabOutbox :=
  { outbox with windows := Function.update outbox.windows windowId state }

def queue (outbox : ActiveTabOutbox) (windowId : WindowId) (tabId : TabId) (paneId : PaneId) :
    ActiveTabOutbox × Bool :=
  let generation := (outbox.generation + 1) % 2 ^ 64
  let intent : ActiveTabIntent := ⟨generation, tabId, paneId, false⟩
  let inFlight := (outbox.windows windowId).any (·.inFlight)
  (({ outbox with generation := generation }).setWindow windowId
    (some ⟨true, some intent, some intent⟩), !inFlight)

def takeNextOrFinish (outbox : ActiveTabOutbox) (windowId : WindowId) :
    ActiveTabOutbox × Option ActiveTabIntent :=
  match outbox.windows windowId with
  | none => (outbox, none)
  | some ⟨inFlight, some intent, desired⟩ =>
    (outbox.setWindow windowId (some ⟨inFlight, none, desired⟩), some intent)
  | some ⟨_, none, none⟩ => (outbox.setWindow windowId none, none)
  | some ⟨_, none, some desired⟩ =>
    (outbox.setWindow windowId (some ⟨false, none, some desired⟩), none)

def acknowledge (outbox : ActiveTabOutbox) (windowId : WindowId) (generation : Nat) :
    ActiveTabOutbox :=
  match outbox.windows windowId with
  | some ⟨inFlight, pending, some desired⟩ =>
    if desired.generation = generation then
      outbox.setWindow windowId
        (some ⟨inFlight, pending, some { desired with acknowledged := true }⟩)
    else outbox
  | _ => outbox

/-- `reconcile`: what a snapshot shows, or what is wanted instead. -/
def reconcile (outbox : ActiveTabOutbox) (windowId : WindowId) (observedTabId : TabId)
    (observedPaneId : Option PaneId) : ActiveTabOutbox × TabId × Option PaneId :=
  match outbox.windows windowId with
  | some ⟨inFlight, pending, some desired⟩ =>
    if desired.acknowledged ∧ desired.tabId = observedTabId ∧
        observedPaneId = some desired.paneId then
      (outbox.setWindow windowId
        (if inFlight = false ∧ pending = none then none
        else some ⟨inFlight, pending, none⟩), observedTabId, observedPaneId)
    else (outbox, desired.tabId, some desired.paneId)
  | _ => (outbox, observedTabId, observedPaneId)

end ActiveTabOutbox

/-- What is chosen: a tab and its pane. -/
abbrev Choice : Type := TabId × PaneId

/-- The outbox with its loops. -/
structure ActiveFlush where
  outbox : ActiveTabOutbox
  loops : List (FlushLoop ActiveTabIntent)
  log : List (Entry Choice)

/-- A tab is chosen, a loop goes on, or a snapshot arrives. -/
inductive ActiveEvent where
  | queue (windowId : WindowId) (tabId : TabId) (paneId : PaneId)
  | advance (i : Nat)
  | snapshot (windowId : WindowId) (tabId : TabId) (paneId : Option PaneId)

namespace ActiveFlush

/-- `flush_active_tab`: the next step of a loop. The two requests for a tab and its pane are one, since
the outbox is not looked at between them. -/
def advance (s : ActiveFlush) (i : Nat) (loop : FlushLoop ActiveTabIntent) : Option ActiveFlush :=
  match loop.phase with
  | .take =>
    let (outbox, next) := s.outbox.takeNextOrFinish loop.windowId
    match next with
    | some intent =>
      some ⟨outbox, s.loops.set i ⟨loop.windowId, .sending intent⟩,
        s.log ++ [.sent loop.windowId (intent.tabId, intent.paneId)]⟩
    | none => some ⟨outbox, s.loops.set i ⟨loop.windowId, .done⟩, s.log⟩
  | .sending intent =>
    some { s with loops := s.loops.set i ⟨loop.windowId, .acknowledge intent⟩ }
  | .acknowledge intent =>
    some ⟨s.outbox.acknowledge loop.windowId intent.generation,
      s.loops.set i ⟨loop.windowId, .take⟩, s.log ++ [.acknowledged loop.windowId]⟩
  | .done => none

def step (s : ActiveFlush) : ActiveEvent → Option ActiveFlush
  | .queue windowId tabId paneId =>
    let (outbox, start) := s.outbox.queue windowId tabId paneId
    some ⟨outbox, if start then s.loops ++ [⟨windowId, .take⟩] else s.loops,
      s.log ++ [.queued windowId (tabId, paneId)]⟩
  | .advance i => s.loops[i]?.bind (s.advance i)
  | .snapshot windowId tabId paneId =>
    some { s with
      outbox := (s.outbox.reconcile windowId tabId paneId).1
      log := s.log ++ [.snapshot windowId tabId paneId] }

/-- Nothing is queued. -/
def start : ActiveFlush := ⟨⟨0, fun _ => none⟩, [], []⟩

end ActiveFlush

end Wakterm.Client.Outbox
