import Wakterm.Machine.Word

/-!
# Terminal sizes and split data

`TerminalSize` and `SplitDirectionAndSize` of `term/src/terminal.rs` and `mux/src/tab.rs`.
-/

namespace Wakterm.Mux

open Wakterm.Machine

structure TerminalSize where
  rows : Nat
  cols : Nat
  pixelWidth : Nat
  pixelHeight : Nat
  dpi : Nat
  deriving DecidableEq

/-- The two axes of the screen. -/
inductive Axis where
  | x
  | y
  deriving DecidableEq

/-- The axis at right angles. -/
def Axis.other : Axis → Axis
  | .x => .y
  | .y => .x

namespace TerminalSize

/-- Columns or rows. -/
def cells (s : TerminalSize) : Axis → Nat
  | .x => s.cols
  | .y => s.rows

/-- Pixel width or height. -/
def pixels (s : TerminalSize) : Axis → Nat
  | .x => s.pixelWidth
  | .y => s.pixelHeight

/-- Replace the columns or rows together with the pixels along that axis. -/
def setSpan (s : TerminalSize) (ax : Axis) (cells pixels : Nat) : TerminalSize :=
  match ax with
  | .x => { s with cols := cells, pixelWidth := pixels }
  | .y => { s with rows := cells, pixelHeight := pixels }

@[simp] theorem cells_x (s : TerminalSize) : s.cells .x = s.cols := rfl
@[simp] theorem cells_y (s : TerminalSize) : s.cells .y = s.rows := rfl

@[simp] theorem cells_setSpan (s : TerminalSize) (ax : Axis) (c p : Nat) :
    (s.setSpan ax c p).cells ax = c := by
  cases ax <;> rfl

theorem cells_setSpan_of_ne (s : TerminalSize) {ax bx : Axis} (h : bx ≠ ax) (c p : Nat) :
    (s.setSpan ax c p).cells bx = s.cells bx := by
  cases ax <;> cases bx <;> first | rfl | exact absurd rfl h

@[simp] theorem cells_setDpi (s : TerminalSize) (dpi : Nat) (ax : Axis) :
    ({ s with dpi := dpi } : TerminalSize).cells ax = s.cells ax := by
  cases ax <;> rfl

/-- Every field is a value of its machine type. -/
structure InRange (s : TerminalSize) : Prop where
  rows : s.rows < 2 ^ 64
  cols : s.cols < 2 ^ 64
  pixelWidth : s.pixelWidth < 2 ^ 64
  pixelHeight : s.pixelHeight < 2 ^ 64

end TerminalSize

/-- `cell_dimensions`: the size of one cell. A size without rows or columns
divides by zero, which panics. -/
def cellDimensions (size : TerminalSize) : Option TerminalSize :=
  if size.cols = 0 ∨ size.rows = 0 then none
  else some
    { rows := 1
      cols := 1
      pixelWidth := size.pixelWidth / size.cols
      pixelHeight := size.pixelHeight / size.rows
      dpi := size.dpi }

/-- `a.checked_div(b).unwrap_or(1)`. -/
def checkedDivOrOne (a b : Nat) : Nat := if b = 0 then 1 else a / b

inductive SplitDirection where
  | horizontal
  | vertical
  deriving DecidableEq

def SplitDirection.axis : SplitDirection → Axis
  | .horizontal => .x
  | .vertical => .y

/-- The sizes of the first and second child of a split. -/
structure SplitDirectionAndSize where
  direction : SplitDirection
  first : TerminalSize
  second : TerminalSize
  deriving DecidableEq

namespace SplitDirectionAndSize

def topOfSecond (d : SplitDirectionAndSize) : Nat :=
  match d.direction with
  | .horizontal => 0
  | .vertical => uadd d.first.rows 1

def leftOfSecond (d : SplitDirectionAndSize) : Nat :=
  match d.direction with
  | .horizontal => uadd d.first.cols 1
  | .vertical => 0

def width (d : SplitDirectionAndSize) : Nat :=
  if d.direction = .horizontal then uadd (uadd d.first.cols d.second.cols) 1
  else d.first.cols

def height (d : SplitDirectionAndSize) : Nat :=
  if d.direction = .vertical then uadd (uadd d.first.rows d.second.rows) 1
  else d.first.rows

/-- `SplitDirectionAndSize::size`: the node's size, read off its children with
the first child's cell size; `none` is the division by zero. -/
def size (d : SplitDirectionAndSize) : Option TerminalSize :=
  if d.first.cols = 0 ∨ d.first.rows = 0 then none
  else some
    { rows := d.height
      cols := d.width
      pixelHeight := umul (d.first.pixelHeight / d.first.rows) d.height
      pixelWidth := umul (d.first.pixelWidth / d.first.cols) d.width
      dpi := d.first.dpi }

/-- Width or height. -/
def extent (d : SplitDirectionAndSize) : Axis → Nat
  | .x => d.width
  | .y => d.height

/-- The children fill an allocation: along the split's axis they share it with
one divider cell, across it each of them has all of it. -/
def Fits (d : SplitDirectionAndSize) (allocated : TerminalSize) : Prop :=
  match d.direction with
  | .horizontal =>
    d.first.rows = allocated.rows ∧ d.second.rows = allocated.rows ∧
      d.first.cols + 1 + d.second.cols = allocated.cols
  | .vertical =>
    d.first.cols = allocated.cols ∧ d.second.cols = allocated.cols ∧
      d.first.rows + 1 + d.second.rows = allocated.rows

instance (d : SplitDirectionAndSize) (allocated : TerminalSize) :
    Decidable (d.Fits allocated) := by
  unfold Fits
  split <;> infer_instance

end SplitDirectionAndSize

end Wakterm.Mux
