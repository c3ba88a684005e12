import Wakterm.Machine.Steps

/-!
# Requests that share one run

`resync_coalesced` and `refresh_cached_remote_status` of the client's domain.
-/

namespace Wakterm.Client.Coalescing

open Machine

/-- What a call does next. -/
inductive Phase where
  | enter | mark | clear | start | await | test | release | fail | done
  deriving DecidableEq

/-- What has happened: a call returned because another one was at work, began a run, ended it, or
returned its failure. -/
inductive Entry where
  | coalesced (i : Nat)
  | started (i : Nat)
  | ran (i : Nat)
  | returned (i : Nat)
  deriving DecidableEq

/-- The flags, the calls and what has happened. -/
structure Coalesce where
  inProgress : Bool
  pending : Bool
  calls : List Phase
  log : List Entry
  deriving DecidableEq

/-- A call begins, or goes on; a run that ends may have failed. -/
inductive Event where
  | call
  | advance (i : Nat) (ok : Bool)

namespace Coalesce

/-- Nobody is at work. -/
def idle : Coalesce := ⟨false, false, [], []⟩

/-- A call goes on. -/
def goto (s : Coalesce) (i : Nat) (phase : Phase) : Coalesce :=
  { s with calls := s.calls.set i phase }

def note (s : Coalesce) (entry : Entry) : Coalesce := { s with log := s.log ++ [entry] }

/-- The run of `resync` or of `get_pane_status` that a call begins or ends. -/
def advanceRun (s : Coalesce) (i : Nat) (ok : Bool) : Phase → Option Coalesce
  | .start => some ((s.note (.started i)).goto i .await)
  | .await => if ok then some ((s.note (.ran i)).goto i .test) else some (s.goto i .fail)
  | _ => none

/-- `resync_coalesced`. -/
def advanceResync (s : Coalesce) (i : Nat) (ok : Bool) : Phase → Option Coalesce
  | .enter =>
    if s.inProgress then some (s.goto i .mark)
    else some ({ s with inProgress := true }.goto i .clear)
  | .mark => some (({ s with pending := true }.note (.coalesced i)).goto i .done)
  | .clear => some ({ s with pending := false }.goto i .start)
  | .test =>
    if s.pending then some ({ s with pending := false }.goto i .clear)
    else some (s.goto i .release)
  | .release => some ({ s with inProgress := false }.goto i .done)
  | .fail => some (({ s with inProgress := false }.note (.returned i)).goto i .done)
  | phase => s.advanceRun i ok phase

/-- `refresh_cached_remote_status`: an error takes the mark with it. -/
def advanceRefresh (s : Coalesce) (i : Nat) (ok : Bool) : Phase → Option Coalesce
  | .enter =>
    if s.inProgress then some (({ s with pending := true }.note (.coalesced i)).goto i .done)
    else some ({ s with inProgress := true }.goto i .start)
  | .test =>
    if s.pending then some ({ s with pending := false }.goto i .start)
    else some ({ s with inProgress := false }.goto i .done)
  | .fail =>
    some (({ s with inProgress := false, pending := false }.note (.returned i)).goto i .done)
  | .mark | .clear | .release => none
  | phase => s.advanceRun i ok phase

/-- One step of a call, or a new call. -/
def step (advance : Coalesce → Nat → Bool → Phase → Option Coalesce) (s : Coalesce) :
    Event → Option Coalesce
  | .call => some { s with calls := s.calls ++ [.enter] }
  | .advance i ok => s.calls[i]?.bind (advance s i ok)

end Coalesce

end Wakterm.Client.Coalescing
