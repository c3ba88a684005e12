import Mathlib.Algebra.Ring.Int.Defs
import Wakterm.Machine.Lru
import Wakterm.Rangeset.RangeSet

/-!
# The rows a client keeps of a remote pane

`RenderableInner` and `RenderableState` of `wakterm-client/src/pane/renderable.rs`: an entry for
each row that something is known of, with the rows that the server was asked for, and when.
-/

namespace Wakterm.Client

open Wakterm.Machine Wakterm.Rangeset

/-- What is used of `Line`: `scan_and_create_hyperlinks` by the rules of the configuration,
`update_last_change_seqno`, `changed_since` and `with_width` with the sequence number zero. -/
structure LineOps (Line : Type) where
  scanAndCreateHyperlinks : Line → Line
  updateLastChangeSeqno : Line → Nat → Line
  changedSince : Line → Nat → Bool
  withWidth : Nat → Line

inductive LineEntry (Line : Type) where
  | line (line : Line)
  | fetching (since : Nat)
  | lineAndFetching (line : Line) (since : Nat)
  | stale (line : Line)
  deriving DecidableEq

/-- `StableCursorPosition`; the shape and the visibility are one number. -/
structure StableCursorPosition where
  x : Nat
  y : Int
  look : Nat
  deriving DecidableEq

/-- `RenderableDimensions`, as far as it is compared and read. -/
structure RenderableDimensions where
  cols : Nat
  viewportRows : Nat
  physicalTop : Int
  pixelWidth : Nat
  pixelHeight : Nat
  deriving DecidableEq

/-- `GetPaneRenderChangesResponse`, without its bonus lines. -/
structure Delta where
  dirtyLines : List (Range Int)
  cursorPosition : StableCursorPosition
  dimensions : RenderableDimensions
  inputSerial : Option Nat
  seqno : Nat

structure RenderableInner (Line : Type) where
  dead : Bool
  cursorPosition : StableCursorPosition
  dimensions : RenderableDimensions
  lines : Lru Int (LineEntry Line)
  seqno : Nat
  inputSerial : Nat

section Inner

variable {Line : Type} (ops : LineOps Line)

namespace RenderableInner

def makeStale (inner : RenderableInner Line) (row : Int) : RenderableInner Line :=
  let lines := inner.lines.erase row
  match inner.lines.peek row with
  | some (.stale old) | some (.line old) | some (.lineAndFetching old _) =>
    { inner with lines := lines.put row (.stale old) }
  | some (.fetching _) | none => { inner with lines := lines }

/-- The entry of `make_all_stale`. -/
def allStale : LineEntry Line → LineEntry Line
  | .stale old | .line old => .stale old
  | entry => entry

/-- `make_all_stale`: the entries go over to a cache without bounds, the oldest first. -/
def makeAllStale (inner : RenderableInner Line) : RenderableInner Line :=
  { inner with
    lines := inner.lines.entries.foldr (fun e lines => lines.put e.1 (allStale e.2)) .unbounded }

/-- `put_line`. A line that completes a fetch replaces only what was marked by that fetch. -/
def putLine (inner : RenderableInner Line) (row : Int) (line : Line) (fetchStart : Option Nat) :
    RenderableInner Line :=
  let line := ops.scanAndCreateHyperlinks line
  match fetchStart with
  | none => { inner with lines := inner.lines.put row (.line line) }
  | some fetchStart =>
    let lines := inner.lines.erase row
    let done := .line (ops.updateLastChangeSeqno line inner.seqno)
    match inner.lines.peek row with
    | some (.lineAndFetching old since) =>
      if fetchStart = since then { inner with lines := lines.put row done }
      else { inner with lines := lines.put row (.lineAndFetching old since) }
    | some (.fetching since) =>
      if fetchStart = since then { inner with lines := lines.put row done }
      else { inner with lines := lines.put row (.fetching since) }
    | some entry => { inner with lines := lines.put row entry }
    | none => { inner with lines := lines }

/-- The dirty rows of a delta: those that it lists, and those of the cursor if that has moved. -/
def dirtyRows (inner : RenderableInner Line) (delta : Delta) : Option (RangeSet Int) := do
  let dirty ← delta.dirtyLines.foldlM RangeSet.addRange .new
  if delta.cursorPosition ≠ inner.cursorPosition then
    let dirty ← dirty.add inner.cursorPosition.y
    dirty.add delta.cursorPosition.y
  else some dirty

def takeOver (inner : RenderableInner Line) (delta : Delta) : RenderableInner Line :=
  let cursor := match delta.inputSerial with
    | none => delta.cursorPosition
    | some serial =>
      if inner.inputSerial ≤ serial then delta.cursorPosition else inner.cursorPosition
  { inner with cursorPosition := cursor, dimensions := delta.dimensions, seqno := delta.seqno }

def bonusLine (state : RenderableInner Line × RangeSet Int) (bonus : Int × Line) :
    Option (RenderableInner Line × RangeSet Int) := do
  let dirty ← state.2.remove bonus.1
  return (state.1.putLine ops bonus.1 bonus.2 none, dirty)

/-- The entry of a row that is fetched again. -/
def refetch (now : Nat) : Option (LineEntry Line) → LineEntry Line
  | some (.fetching _) | none => .fetching now
  | some (.lineAndFetching old _) | some (.stale old) | some (.line old) =>
    .lineAndFetching old now

/-- One of the dirty rows: it is fetched if it is in the viewport, and dropped if it is above. -/
def dirtyRow (now : Nat) (physicalTop : Int) (state : RenderableInner Line × RangeSet Int)
    (row : Int) : Option (RenderableInner Line × RangeSet Int) :=
  let prior := state.1.lines.peek row
  let inner := { state.1 with lines := state.1.lines.erase row }
  if row < physicalTop then some (inner.makeStale row, state.2)
  else do
    let toFetch ← state.2.add row
    return ({ inner with lines := inner.lines.put row (refetch now prior) }, toFetch)

/-- `schedule_fetch_lines`: the rows that are asked for, if any are. -/
def scheduleFetchLines (inner : RenderableInner Line) (toFetch : RangeSet Int) :
    Option (RangeSet Int) :=
  if toFetch.isEmpty || inner.dead then none else some toFetch

/-- `apply_changes_to_surface`, with the answer of the rate limiter. -/
def applyChangesToSurface (inner : RenderableInner Line) (now : Nat) (delta : Delta)
    (bonusLines : List (Int × Line)) (admitted : Bool) :
    Option (RenderableInner Line × Option (RangeSet Int)) := do
  let dirty ← inner.dirtyRows delta
  let (inner, dirty) ← bonusLines.foldlM (bonusLine ops) (inner.takeOver delta, dirty)
  let (inner, toFetch) ← dirty.iterValues.foldlM (dirtyRow now delta.dimensions.physicalTop)
    (inner, .new)
  if toFetch.isEmpty then return (inner, none)
  else if admitted then return (inner, inner.scheduleFetchLines toFetch)
  else return (toFetch.iterValues.foldl makeStale inner, none)

/-- The rows of a fetch that has failed. -/
def revertRow (start : Nat) (inner : RenderableInner Line) (row : Int) : RenderableInner Line :=
  let lines := inner.lines.erase row
  match inner.lines.peek row with
  | some (.fetching since) =>
    if since = start then { inner with lines := lines }
    else { inner with lines := lines.put row (.fetching since) }
  | some (.lineAndFetching line since) =>
    -- back to just a line
    if since = start then { inner with lines := lines.put row (.line line) }
    else { inner with lines := lines.put row (.lineAndFetching line since) }
  | some entry => { inner with lines := lines.put row entry }
  | none => { inner with lines := lines }

def applyLines (inner : RenderableInner Line) (result : Option (List (Int × Line)))
    (toFetch : RangeSet Int) (start : Nat) : RenderableInner Line :=
  match result with
  | some lines => lines.foldl (fun inner e => inner.putLine ops e.1 e.2 (some start)) inner
  | none => toFetch.iterValues.foldl (revertRow start) inner

/-- The entry of a row that is rendered, its line, and whether it has to be fetched. -/
def renderEntry (now seqno cols : Nat) : Option (LineEntry Line) → LineEntry Line × Line × Bool
  | some (.line line) =>
    if ops.changedSince line seqno then (.stale line, line, true) else (.line line, line, false)
  | some (.lineAndFetching line since) => (.lineAndFetching line since, line, false)
  | some (.fetching since) => (.fetching since, ops.withWidth cols, false)
  | some (.stale line) => (.lineAndFetching line now, line, true)
  | none => (.fetching now, ops.withWidth cols, true)

/-- One row of `get_lines`. What the indicator of a slow connection draws over the top row is
given. -/
def renderRow (now : Nat) (lag : Option (Line → Line))
    (state : RenderableInner Line × RangeSet Int × List Line) (row : Int) :
    Option (RenderableInner Line × RangeSet Int × List Line) := do
  let (inner, toFetch, result) := state
  let (entry, line, fetch) := renderEntry ops now inner.seqno inner.dimensions.cols
    (inner.lines.peek row)
  let shown := match lag with
    | some overlay => if row = inner.dimensions.physicalTop then overlay line else line
    | none => line
  let toFetch ← (if fetch then toFetch.add row else some toFetch)
  return ({ inner with lines := (inner.lines.erase row).put row entry }, toFetch,
    result ++ [shown])

def getLines (inner : RenderableInner Line) (now : Nat) (lines : Range Int)
    (lag : Option (Line → Line)) :
    Option (RenderableInner Line × Option (RangeSet Int) × List Line) := do
  let (inner, toFetch, result) ← (RangeSet.numRange lines.start lines.stop).foldlM
    (renderRow ops now lag) (inner, .new, [])
  return (inner, inner.scheduleFetchLines toFetch, result)

/-- One row of `get_changed_since`; looking at an entry is a use of it. -/
def changedRow (seqno : Nat) (state : RenderableInner Line × RangeSet Int) (row : Int) :
    Option (RenderableInner Line × RangeSet Int) := do
  let changed := match state.1.lines.peek row with
    | none => true
    | some (.line line) | some (.stale line) | some (.lineAndFetching line _) =>
      ops.changedSince line seqno
    | some (.fetching _) => false
  let rows ← (if changed then state.2.add row else some state.2)
  return ({ state.1 with lines := state.1.lines.touch row }, rows)

/-- `get_changed_since`, with whether the top row is added for the indicator of a slow
connection. -/
def getChangedSince (inner : RenderableInner Line) (lines : Range Int) (seqno : Nat)
    (late : Bool) : Option (RenderableInner Line × RangeSet Int) := do
  let (inner, rows) ← (RangeSet.numRange lines.start lines.stop).foldlM (changedRow ops seqno)
    (inner, .new)
  let rows ← (if late then rows.add inner.dimensions.physicalTop else some rows)
  return (inner, rows)

/-- `ClientPane::resize`: the rows are stale if the size is another one. -/
def resize (inner : RenderableInner Line) (cols rows pixelWidth pixelHeight : Nat) :
    RenderableInner Line :=
  let dimensions := { inner.dimensions with
    cols := cols, viewportRows := rows, pixelWidth := pixelWidth, pixelHeight := pixelHeight }
  if inner.dimensions = dimensions then inner
  else makeAllStale { inner with dimensions := dimensions }

end RenderableInner

/-- A request for lines that was sent: the number of the step that sent it, when it was started,
and the rows asked for. -/
structure Request where
  id : Nat
  start : Nat
  rows : RangeSet Int
  deriving DecidableEq

/-- The client, the requests that are not completed, and the number of steps so far. -/
structure World (Line : Type) where
  inner : RenderableInner Line
  requests : List Request
  steps : Nat

/-- What happens. -/
inductive Event (Line : Type) where
  | delta (now : Nat) (delta : Delta) (bonusLines : List (Int × Line)) (admitted : Bool)
  | getLines (now : Nat) (lines : Range Int) (lag : Option (Line → Line))
  | getChangedSince (lines : Range Int) (seqno : Nat) (late : Bool)
  | complete (id : Nat) (result : Option (List (Int × Line)))
  | makeAllStale
  | resize (cols rows pixelWidth pixelHeight : Nat)
  | setDead (dead : Bool)
  | keyPress (inputSerial : Nat)

namespace World

/-- The requests with one more, if one is sent. -/
def send (w : World Line) (inner : RenderableInner Line) (now : Nat) :
    Option (RangeSet Int) → World Line
  | none => ⟨inner, w.requests, w.steps + 1⟩
  | some rows => ⟨inner, ⟨w.steps, now, rows⟩ :: w.requests, w.steps + 1⟩

/-- One step. There is none if a request is completed that is not there, or was. -/
def step (w : World Line) : Event Line → Option (World Line)
  | .delta now delta bonusLines admitted => do
      let (inner, request) ← w.inner.applyChangesToSurface ops now delta bonusLines admitted
      return w.send inner now request
  | .getLines now lines lag => do
      let (inner, request, _) ← w.inner.getLines ops now lines lag
      return w.send inner now request
  | .getChangedSince lines seqno late => do
      let (inner, _) ← w.inner.getChangedSince ops lines seqno late
      return ⟨inner, w.requests, w.steps + 1⟩
  | .complete id result => do
      let request ← w.requests.find? fun r => r.id = id
      return ⟨w.inner.applyLines ops result request.rows request.start,
        w.requests.filter fun r => r.id ≠ id, w.steps + 1⟩
  | .makeAllStale => some ⟨w.inner.makeAllStale, w.requests, w.steps + 1⟩
  | .resize cols rows pixelWidth pixelHeight =>
    some ⟨w.inner.resize cols rows pixelWidth pixelHeight, w.requests, w.steps + 1⟩
  | .setDead dead => some ⟨{ w.inner with dead := dead }, w.requests, w.steps + 1⟩
  | .keyPress inputSerial =>
    some ⟨{ w.inner with inputSerial := inputSerial }, w.requests, w.steps + 1⟩

def new (capacity : Nat) (dimensions : RenderableDimensions) : World Line where
  inner :=
    { dead := false
      cursorPosition := ⟨0, 0, 0⟩
      dimensions := dimensions
      lines := .empty (some (max capacity 128)) fun n hn => by
        cases hn
        omega
      seqno := 0
      inputSerial := 0 }
  requests := []
  steps := 0

/-- Steps one after the other. -/
def run (w : World Line) (events : List (Event Line)) : Option (World Line) :=
  events.foldlM (step ops) w

end World

end Inner

end Wakterm.Client
