import Mathlib.Data.Finset.Basic
import Mathlib.Data.Finset.Dedup
import Wakterm.Mux.SplitTree

/-!
# The render scheduler of a session

`RenderScheduler` sends the changes of a session's panes to its client, one batch at a time.
-/

namespace Wakterm.MuxServer

open Wakterm.Mux (PaneId)

/-- The number a client gives to its input. -/
abbrev InputSerial := Nat

/-- What the scheduler holds under its lock. -/
structure RenderSchedulerState where
  active : Bool
  dirty : List PaneId
  dirtyIds : Finset PaneId

namespace RenderSchedulerState

/-- `RenderSchedulerState::default`. -/
def new : RenderSchedulerState := ⟨false, [], ∅⟩

def popNextRefresh (s : RenderSchedulerState) : Option PaneId × RenderSchedulerState :=
  match s.dirty with
  | [] => (none, s)
  | next :: dirty => (some next, { s with dirty := dirty, dirtyIds := s.dirtyIds.erase next })

/-- The pane is queued unless it already waits. -/
def markDirty (s : RenderSchedulerState) (pane : PaneId) : RenderSchedulerState :=
  if pane ∈ s.dirtyIds then s
  else { s with dirtyIds := insert pane s.dirtyIds, dirty := s.dirty ++ [pane] }

/-- What `schedule` does under the scheduler's lock: the refresh to start, if there is none
under way. -/
def schedule (s : RenderSchedulerState) (pane : PaneId) :
    Option PaneId × RenderSchedulerState :=
  let s := s.markDirty pane
  if s.active then (none, s) else popNextRefresh { s with active := true }

/-- `complete_one`: the refresh to start next, or the scheduler is no longer active. -/
def completeOne (s : RenderSchedulerState) : Option PaneId × RenderSchedulerState :=
  let (next, s) := s.popNextRefresh
  (next, if next.isNone then { s with active := false } else s)

end RenderSchedulerState

/-- What `schedule` does under the lock of the pane: the noted serial never goes down. -/
def noteSerial (pending : Option InputSerial) : Option InputSerial → Option InputSerial
  | none => pending
  | some serial => some (pending.elim serial (max · serial))

/-- How far a refresh is: its task is spawned; it has collected changes that are yet to be
sent; its batch is sent and not yet written; or it is about to call `complete_one`. -/
inductive Stage where
  | spawned
  | sending
  | sent
  | finishing
  deriving DecidableEq

/-- A refresh that has left the queue and has not yet called `complete_one`. -/
structure Refresh where
  paneId : PaneId
  stage : Stage

/-- What happened, for the record: the program keeps no such log. -/
inductive Event where
  /-- `schedule` was called and has noted the serial. -/
  | called (pane : PaneId) (serial : Option InputSerial)
  /-- The call at this position of the log has queued its pane, and so returns. -/
  | marked (call : Nat)
  /-- `collect_pane_changes` ran and took the noted serial. -/
  | collected (pane : PaneId) (taken : Option InputSerial)
  /-- The mux no longer had the pane. -/
  | missing (pane : PaneId)

/-- A call of `schedule` that has noted its serial and not yet queued its pane. -/
structure Call where
  position : Nat
  pane : PaneId

/-- A session: the scheduler, the noted serial of each pane, the refreshes under way and the
calls under way. -/
structure Session where
  state : RenderSchedulerState
  pendingInputSerial : PaneId → Option InputSerial
  outstanding : List Refresh
  calls : List Call
  log : List Event

/-- What can happen next. The positions say which of several calls or refreshes moves on. -/
inductive Action where
  /-- `schedule` is called: its part under the lock of the pane. -/
  | call (pane : PaneId) (serial : Option InputSerial)
  /-- A call of `schedule` goes on: its part under the scheduler's lock. -/
  | mark (i : Nat)
  /-- The task of a refresh runs: whether the mux has the pane, and whether there are no
  changes to send. -/
  | compute (i : Nat) (found empty : Bool)
  /-- The batch is handed to the connection, which may be closed. -/
  | send (i : Nat) (accepted : Bool)
  /-- `complete_one` is called by the task, or by `RenderBatch::complete` once the batch is
  written. -/
  | complete (i : Nat)

namespace Session

/-- A session starts with nothing to do. -/
def new : Session := ⟨.new, fun _ => none, [], [], []⟩

/-- `spawn_compute`, for the refresh that was popped. -/
def spawnCompute (s : Session) (next : Option PaneId) : Session :=
  { s with outstanding := s.outstanding ++ next.toList.map (⟨·, .spawned⟩) }

/-- `collect_pane_changes` for the refresh `r`: it takes the noted serial. -/
def collectPaneChanges (s : Session) (i : Nat) (r : Refresh) (empty : Bool) : Session :=
  { s with
    pendingInputSerial := Function.update s.pendingInputSerial r.paneId none
    outstanding := s.outstanding.set i { r with stage := if empty then .finishing else .sending }
    log := s.log ++ [.collected r.paneId (s.pendingInputSerial r.paneId)] }

/-- One step; `none` if it is not possible. -/
def step (s : Session) : Action → Option Session
  | .call pane serial =>
    some { s with
      pendingInputSerial := Function.update s.pendingInputSerial pane
        (noteSerial (s.pendingInputSerial pane) serial)
      calls := s.calls ++ [⟨s.log.length, pane⟩]
      log := s.log ++ [.called pane serial] }
  | .mark i => do
      let call ← s.calls[i]?
      let (next, state) := s.state.schedule call.pane
      some (spawnCompute
        { s with state := state, calls := s.calls.eraseIdx i,
                 log := s.log ++ [.marked call.position] } next)
  | .compute i found empty => do
      let r ← s.outstanding[i]?
      if r.stage ≠ .spawned then none
      else if found then some (s.collectPaneChanges i r empty)
      else
        some { s with outstanding := s.outstanding.set i { r with stage := .finishing },
                      log := s.log ++ [.missing r.paneId] }
  | .send i accepted => do
      let r ← s.outstanding[i]?
      if r.stage ≠ .sending then none
      else
        some { s with outstanding :=
          s.outstanding.set i { r with stage := if accepted then .sent else .finishing } }
  | .complete i => do
      let r ← s.outstanding[i]?
      if r.stage ≠ .finishing ∧ r.stage ≠ .sent then none
      else
        let (next, state) := s.state.completeOne
        some (spawnCompute { s with state := state, outstanding := s.outstanding.eraseIdx i } next)

def run (s : Session) : List Action → Option Session
  | [] => some s
  | action :: actions => do
      let s ← s.step action
      s.run actions

end Session

end Wakterm.MuxServer
