import Mathlib.Data.List.Sort
import Mathlib.Order.Lattice
import Wakterm.Machine.BinarySearch

/-!
# The `rangeset` crate

A set of integers, stored as a list of half-open ranges.
-/

namespace Wakterm.Rangeset

open Wakterm.Machine

structure Range (T : Type) where
  start : T
  stop : T
  deriving DecidableEq

structure RangeSet (T : Type) where
  ranges : List (Range T)
  needsSort : Bool
  deriving DecidableEq

variable {T : Type} [LinearOrder T]

def Range.contains (r : Range T) (x : T) : Bool :=
  r.start ≤ x && x < r.stop

def rangeIsEmpty (range : Range T) : Bool :=
  range.start = range.stop

def intersectsRange (r1 r2 : Range T) : Bool :=
  let start := max r1.start r2.start
  let stop := min r1.stop r2.stop
  stop > start

def rangeIntersection (r1 r2 : Range T) : Option (Range T) :=
  let start := max r1.start r2.start
  let stop := min r1.stop r2.stop
  if stop > start then some ⟨start, stop⟩ else none

/-- `range_subtract`: what is left of `r1` below and above `r2`. -/
def rangeSubtract (r1 r2 : Range T) : Option (Range T) × Option (Range T) :=
  let iStart := max r1.start r2.start
  let iStop := min r1.stop r2.stop
  if iStop > iStart then
    let a := if iStart = r1.start then none else some ⟨r1.start, min r1.stop iStart⟩
    let b := if iStop = r1.stop then none else some ⟨min r1.stop iStop, r1.stop⟩
    (a, b)
  else (some r1, none)

def rangeUnion (r1 r2 : Range T) : Range T :=
  if rangeIsEmpty r1 then r2
  else if rangeIsEmpty r2 then r1
  else ⟨min r1.start r2.start, max r1.stop r2.stop⟩

namespace RangeSet

def new : RangeSet T where
  ranges := []
  needsSort := false

def isEmpty (set : RangeSet T) : Bool :=
  set.ranges.isEmpty

def contains (set : RangeSet T) (value : T) : Bool :=
  set.ranges.any (·.contains value)

def sortIfNeeded (set : RangeSet T) : RangeSet T :=
  if set.needsSort then
    { ranges := set.ranges.insertionSort (fun a b => a.start ≤ b.start)
      needsSort := false }
  else set

/-- The comparison of `binary_search_ranges`. -/
def compareRange (range r : Range T) : Option Ordering :=
  if range.start ≥ r.start ∧ range.stop ≤ r.stop then some .eq
  else if range.start < r.start then some .gt
  else if range.stop > r.stop then some .lt
  else none -- `unreachable!()`

def binarySearchRanges (set : RangeSet T) (range : Range T) : Option (Except Nat Nat) :=
  binarySearchBy (compareRange range) set.ranges

/-- A range at a position that meets the given one or ends where it starts. -/
def meets (set : RangeSet T) (range : Range T) (idx : Nat) : Bool :=
  match set.ranges[idx]? with
  | some r => intersectsRange r range || decide (r.stop = range.start)
  | none => false

def intersectionHelper (set : RangeSet T) (range : Range T) :
    Option (Option Nat × Option Nat) :=
  if set.needsSort then none
  else do
    let idx ←
      match ← set.binarySearchRanges range with
      | .ok idx => some idx
      | .error idx => some (idx - 1)
    let first := if set.meets range idx then some idx else none
    if set.meets range (idx + 1) && first.isSome then some (first, some (idx + 1))
    else some (first, none)

def insertionPoint (set : RangeSet T) (range : Range T) : Option Nat :=
  if set.needsSort then none
  else do
    match ← set.binarySearchRanges range with
    | .ok idx => some idx
    | .error idx => some idx

def mergeIntoRange (set : RangeSet T) (idx : Nat) (range : Range T) : Option (RangeSet T) := do
  let existing ← set.ranges[idx]?
  some { set with ranges := set.ranges.set idx (rangeUnion existing range) }

/-- `Vec::remove`, which panics when the position is out of bounds. -/
def removeAt (ranges : List (Range T)) (idx : Nat) : Option (List (Range T)) :=
  if idx < ranges.length then some (ranges.eraseIdx idx) else none

/-- `Vec::insert`, which panics when the position is beyond the end. -/
def insertAt (ranges : List (Range T)) (idx : Nat) (range : Range T) :
    Option (List (Range T)) :=
  if idx ≤ ranges.length then some (ranges.insertIdx idx range) else none

/-- `add_range`, with fuel for its recursion. -/
def addRangeAux : Nat → RangeSet T → Range T → Option (RangeSet T)
  | 0, _, _ => none
  | fuel + 1, set, range =>
    if rangeIsEmpty range then some set
    else if set.ranges.isEmpty then some { set with ranges := set.ranges ++ [range] }
    else do
      let set := set.sortIfNeeded
      match ← set.intersectionHelper range with
      | (some a, some b) =>
        if b = a + 1 then do
          let second ← set.ranges[b]?
          let ranges ← removeAt set.ranges b
          addRangeAux fuel { set with ranges := ranges } (rangeUnion range second)
        else set.mergeIntoRange a range
      | (some a, none) => set.mergeIntoRange a range
      | (none, some _) => none -- `unreachable!()`
      | (none, none) => do
          let idx ← set.insertionPoint range
          let ranges ← insertAt set.ranges idx range
          some { set with ranges := ranges }

/-- `add_range`. A recursive call has one range less, so one round for each
range and one more is enough. -/
def addRange (set : RangeSet T) (range : Range T) : Option (RangeSet T) :=
  addRangeAux (set.ranges.length + 1) set range

def addRangeUnchecked (set : RangeSet T) (range : Range T) : RangeSet T where
  ranges := set.ranges ++ [range]
  needsSort := true

def addSet (set other : RangeSet T) : Option (RangeSet T) :=
  other.ranges.foldlM addRange set

/-- The body of the first loop of `remove_range`: the pieces to add again and
the positions to remove, in the order they are found. -/
def subtractStep (range : Range T) (acc : List (Range T) × List Nat) (entry : Range T × Nat) :
    List (Range T) × List Nat :=
  let (toAdd, toRemove) := acc
  let (r, idx) := entry
  match rangeSubtract r range with
  | (none, none) => (toAdd, toRemove ++ [idx])
  | (some a, some b) => (toAdd ++ [a, b], toRemove ++ [idx])
  | (some a, none) => if a ≠ r then (toAdd ++ [a], toRemove ++ [idx]) else acc
  | (none, some a) => if a ≠ r then (toAdd ++ [a], toRemove ++ [idx]) else acc

def removeRange (set : RangeSet T) (range : Range T) : Option (RangeSet T) := do
  let (toAdd, toRemove) := set.ranges.zipIdx.foldl (subtractStep range) ([], [])
  let ranges ← toRemove.reverse.foldlM removeAt set.ranges
  toAdd.foldlM addRange { set with ranges := ranges }

def removeSet (set other : RangeSet T) : Option (RangeSet T) :=
  other.ranges.foldlM removeRange set

def difference (set other : RangeSet T) : Option (RangeSet T) :=
  other.ranges.foldlM removeRange set

/-- The inner loop of `intersection`, and the loop of `intersection_with_range`. -/
def addIntersections (set result : RangeSet T) (range : Range T) : Option (RangeSet T) :=
  set.ranges.foldlM
    (fun result r =>
      match rangeIntersection r range with
      | some i => result.addRange i
      | none => some result) result

def intersection (set other : RangeSet T) : Option (RangeSet T) :=
  other.ranges.foldlM set.addIntersections new

def intersectionWithRange (set : RangeSet T) (range : Range T) : Option (RangeSet T) :=
  set.addIntersections new range

/-- `value..value + one`. -/
def single [Add T] [One T] (value : T) : Range T :=
  ⟨value, value + 1⟩

def add [Add T] [One T] (set : RangeSet T) (value : T) : Option (RangeSet T) :=
  set.addRange (single value)

def remove [Add T] [One T] (set : RangeSet T) (value : T) : Option (RangeSet T) :=
  set.removeRange (single value)

def len [Add T] [Sub T] [Zero T] (set : RangeSet T) : T :=
  set.ranges.foldl (fun total r => total + r.stop - r.start) 0

/-- `num::range` over the integers: from `start` up to, not including, `stop`. -/
def numRange (start stop : Int) : List Int :=
  (List.range (stop - start).toNat).map fun i : Nat => start + (i : Int)

def iterValues (set : RangeSet Int) : List Int :=
  set.ranges.flatMap fun r => numRange r.start r.stop

end RangeSet

end Wakterm.Rangeset
