import Mathlib.Logic.Relation
import Wakterm.Client.Renderable
import Wakterm.MuxServer.RenderScheduler
import Wakterm.Rangeset.Logic.Algebra

/-!
# What the mux server sends of a pane

`PerPane::compute_changes` asks the pane for one thing after another: its modes, its dimensions, the
cursor, the sequence number, the rows changed since the last call, their lines.
-/

namespace Wakterm.MuxServer

open Wakterm.Client (StableCursorPosition)
open Wakterm.Rangeset

structure RenderableDimensions where
  cols : Nat
  viewportRows : Nat
  scrollbackRows : Nat
  physicalTop : Int
  scrollbackTop : Int
  dpi : Nat
  pixelWidth : Nat
  pixelHeight : Nat
  reverseVideo : Bool
  deriving DecidableEq

/-- The end of the viewport, as a stable row. -/
def RenderableDimensions.bottom (dims : RenderableDimensions) : Int :=
  dims.physicalTop + dims.viewportRows

/-- What the calls of `dyn Pane` answer at one moment. `lastChanged` is the
sequence number of a row's last change, zero if there was none;
`get_changed_since` reports by it. -/
structure PaneView (Line : Type) where
  isMouseGrabbed : Bool
  isAltScreenActive : Bool
  dimensions : RenderableDimensions
  cursorPosition : StableCursorPosition
  title : String
  workingDir : Option String
  currentSeqno : Nat
  lastChanged : Int → Nat
  changedSince : Range Int → Nat → RangeSet Int
  getLines : Range Int → Int × List Line
  lastChanged_le : ∀ row, lastChanged row ≤ currentSeqno
  proper : ∀ rows seqno, (changedSince rows seqno).Proper
  contains_changedSince : ∀ rows seqno row, (changedSince rows seqno).contains row = true ↔
    rows.start ≤ row ∧ row < rows.stop ∧ seqno < lastChanged row

structure PerPane where
  cursorPosition : StableCursorPosition
  title : String
  workingDir : Option String
  dimensions : RenderableDimensions
  mouseGrabbed : Bool
  altScreenActive : Bool
  seqno : Nat
  pendingInputSerial : Option InputSerial

def PerPane.default : PerPane where
  cursorPosition := ⟨0, 0, 0⟩
  title := ""
  workingDir := none
  dimensions := ⟨0, 0, 0, 0, 0, 0, 0, 0, false⟩
  mouseGrabbed := false
  altScreenActive := false
  seqno := 0
  pendingInputSerial := none

/-- `GetPaneRenderChangesResponse`. -/
structure PaneRenderChanges (Line : Type) where
  mouseGrabbed : Bool
  altScreenActive : Bool
  cursorPosition : StableCursorPosition
  dimensions : RenderableDimensions
  dirtyLines : List (Range Int)
  title : String
  workingDir : Option String
  bonusLines : List (Int × Line)
  inputSerial : Option InputSerial
  seqno : Nat

/-- The views that the calls of one `compute_changes` meet, in their order. -/
structure PaneReads (Line : Type) where
  mouseGrabbed : PaneView Line
  altScreenActive : PaneView Line
  dimensions : PaneView Line
  cursorPosition : PaneView Line
  title : PaneView Line
  workingDir : PaneView Line
  seqno : PaneView Line
  changed : PaneView Line
  lines : PaneView Line
  cursorLine : PaneView Line

section ComputeChanges

variable {Line : Type} (compressForScrollback : Line → Line)

/-- The lines of the viewport that have changed, from `row` on, are sent along
and taken out of the dirty rows. -/
def takeBonusLines : Int → List Line → RangeSet Int →
    Option (RangeSet Int × List (Int × Line))
  | _, [], dirty => some (dirty, [])
  | row, line :: lines, dirty =>
    if dirty.contains row then do
      let dirty ← dirty.remove row
      let (dirty, bonus) ← takeBonusLines (row + 1) lines dirty
      some (dirty, (row, compressForScrollback line) :: bonus)
    else takeBonusLines (row + 1) lines dirty

/-- Something the client is told of has changed since the last response. -/
def PerPane.differs (perPane : PerPane) (pane : PaneReads Line) : Bool :=
  pane.mouseGrabbed.isMouseGrabbed != perPane.mouseGrabbed ||
    pane.altScreenActive.isAltScreenActive != perPane.altScreenActive ||
    pane.dimensions.dimensions != perPane.dimensions ||
    pane.cursorPosition.cursorPosition != perPane.cursorPosition ||
    pane.title.title != perPane.title || pane.workingDir.workingDir != perPane.workingDir

/-- The rows of `get_changed_since`: from the first one to the bottom of the
viewport that has been read before. -/
def PerPane.allDirtyLines (perPane : PerPane) (pane : PaneReads Line) : RangeSet Int :=
  pane.changed.changedSince ⟨0, pane.dimensions.dimensions.bottom⟩ perPane.seqno

/-- The part of `compute_changes` that makes the response; a pane without a
line at the cursor makes `remove(0)` panic. -/
def PerPane.respond (perPane : PerPane) (pane : PaneReads Line)
    (forceWithInputSerial : Option InputSerial) :
    Option (PaneRenderChanges Line × PerPane) := do
  let dims := pane.dimensions.dimensions
  let cursorPosition := pane.cursorPosition.cursorPosition
  let viewport := pane.lines.getLines ⟨dims.physicalTop, dims.bottom⟩
  let (dirty, bonus) ←
    takeBonusLines compressForScrollback viewport.1 viewport.2 (perPane.allDirtyLines pane)
  -- the cursor's row is always sent
  let cursorLines := pane.cursorLine.getLines ⟨cursorPosition.y, cursorPosition.y + 1⟩
  let cursorLine ← cursorLines.2.head?
  some
    ({ mouseGrabbed := pane.mouseGrabbed.isMouseGrabbed
       altScreenActive := pane.altScreenActive.isAltScreenActive
       cursorPosition := cursorPosition
       dimensions := dims
       dirtyLines := dirty.ranges
       title := pane.title.title
       workingDir := pane.workingDir.workingDir
       bonusLines := bonus ++ [(cursorLines.1, compressForScrollback cursorLine)]
       inputSerial := forceWithInputSerial
       seqno := pane.seqno.currentSeqno },
    { perPane with
      cursorPosition := cursorPosition
      title := pane.title.title
      workingDir := pane.workingDir.workingDir
      dimensions := dims
      mouseGrabbed := pane.mouseGrabbed.isMouseGrabbed
      altScreenActive := pane.altScreenActive.isAltScreenActive
      seqno := pane.seqno.currentSeqno })

/-- `compute_changes`; the sequence number is stored even if there is nothing
to respond. -/
def PerPane.computeChanges (perPane : PerPane) (pane : PaneReads Line)
    (forceWithInputSerial : Option InputSerial) :
    Option (Option (PaneRenderChanges Line) × PerPane) :=
  if !(perPane.differs pane || !(perPane.allDirtyLines pane).isEmpty) &&
      forceWithInputSerial.isNone then
    some (none, { perPane with seqno := pane.seqno.currentSeqno })
  else
    (perPane.respond compressForScrollback pane forceWithInputSerial).map fun r =>
      (some r.1, r.2)

/-- The part of `collect_pane_changes` that computes the changes, all of it
under the lock of the `PerPane`. -/
def PerPane.collectPaneChanges (perPane : PerPane) (pane : PaneReads Line) :
    Option (Option (PaneRenderChanges Line) × PerPane) :=
  { perPane with pendingInputSerial := none }.computeChanges compressForScrollback pane
    perPane.pendingInputSerial

end ComputeChanges

/-! ## The pane changes in the meantime -/

variable {Line : Type}

/-- One mutation: it has a sequence number larger than all before, which the
rows it changes take over. Everything else may be different after it. -/
structure Mutates (pane pane' : PaneView Line) : Prop where
  fresh : pane.currentSeqno < pane'.currentSeqno
  rows : ∀ row, pane'.lastChanged row = pane.lastChanged row ∨
    pane'.lastChanged row = pane'.currentSeqno

/-- Any number of mutations. -/
def Later (pane pane' : PaneView Line) : Prop :=
  Relation.ReflTransGen Mutates pane pane'

/-- The calls of one `compute_changes` that starts when the pane is `start`. -/
structure PaneReads.InOrder (start : PaneView Line) (pane : PaneReads Line) : Prop where
  mouseGrabbed : Later start pane.mouseGrabbed
  altScreenActive : Later pane.mouseGrabbed pane.altScreenActive
  dimensions : Later pane.altScreenActive pane.dimensions
  cursorPosition : Later pane.dimensions pane.cursorPosition
  title : Later pane.cursorPosition pane.title
  workingDir : Later pane.title pane.workingDir
  seqno : Later pane.workingDir pane.seqno
  changed : Later pane.seqno pane.changed
  lines : Later pane.changed pane.lines
  cursorLine : Later pane.lines pane.cursorLine

/-- One `compute_changes`: the sequence number of the call before, the pane when
it started and as its calls saw it, and the response. -/
structure Round (Line : Type) where
  since : Nat
  start : PaneView Line
  reads : PaneReads Line
  response : Option (PaneRenderChanges Line)

/-- Successive calls for one `PerPane`, from its creation on, with the pane and
the `PerPane` after them. Between the calls the pane changes and input serials
are noted. -/
inductive Rounds (compressForScrollback : Line → Line) (first : PaneView Line) :
    List (Round Line) → PaneView Line → PerPane → Prop
  | none : Rounds compressForScrollback first [] first .default
  | next {rounds pane perPane perPane' start reads response} (serial : Option InputSerial) :
      Rounds compressForScrollback first rounds pane perPane →
      Later pane start → reads.InOrder start →
      { perPane with pendingInputSerial := serial }.collectPaneChanges compressForScrollback
        reads = some (response, perPane') →
      Rounds compressForScrollback first
        (rounds ++ [⟨perPane.seqno, start, reads, response⟩]) reads.cursorLine perPane'

end Wakterm.MuxServer
