import Wakterm.Term.Screen

/-!
# Ranges of lines

What `Screen` gives to its callers: the lines in a physical range, which lie in the two slices of a
ring buffer, and the logical lines in a range of stable rows.
-/

namespace Wakterm.Term

open Wakterm.Machine

/-- How many references a `Vec` can hold: its bytes are counted by an `isize`. -/
def maxRefs : Nat := 9223372036854775807 / 8

/-- A screen, with the place where its ring buffer wraps around: so many lines are in the first of
the two slices. -/
structure RingScreen where
  screen : Screen
  split : Nat
  split_le : split ≤ screen.lines.length
  fits : screen.lines.length ≤ maxRefs

def physIntersection (r1 r2 : Span Nat) : Span Nat :=
  let start := max r1.start r2.start
  let stop := min r1.stop r2.stop
  if start < stop then ⟨start, stop⟩ else ⟨0, 0⟩

def slice {α : Type} (xs : List α) (range : Span Nat) : Except Panic (List α) :=
  if range.stop < range.start ∨ xs.length < range.stop then .error .row
  else .ok ((xs.take range.stop).drop range.start)

/-- `Vec::with_capacity(range.end - range.start)`. -/
def withCapacity (range : Span Nat) : Except Panic Unit :=
  if range.stop < range.start ∨ maxRefs < range.stop - range.start then .error .arithmetic
  else .ok ()

namespace Screen

/-- References to the lines: each line, with its place. -/
def refs (s : Screen) : List (Line × Nat) := s.lines.zipIdx

end Screen

namespace RingScreen

/-- `with_phys_lines`: what it passes to its callback. -/
def withPhysLines (r : RingScreen) (physRange : Span Nat) : Except Panic (List (Line × Nat)) :=
  let first := r.screen.refs.take r.split
  let second := r.screen.refs.drop r.split
  let firstRange := physIntersection ⟨0, first.length⟩ physRange
  let secondRange := physIntersection ⟨first.length, first.length + second.length⟩ physRange
  withCapacity physRange >>= fun _ =>
    slice first firstRange >>= fun lines =>
      (slice second secondRange).map fun more => lines ++ more

/-- `with_phys_lines_mut`: what it passes to its callback. -/
def withPhysLinesMut (r : RingScreen) (physRange : Span Nat) : Except Panic (List (Line × Nat)) :=
  let first := r.screen.refs.take r.split
  let second := r.screen.refs.drop r.split
  let firstRange := physIntersection ⟨0, first.length⟩ physRange
  let secondRange := physIntersection ⟨first.length, first.length + second.length⟩ physRange
  withCapacity physRange >>= fun _ =>
    slice first firstRange >>= fun lines =>
      (slice second
        ⟨secondRange.start - first.length, secondRange.stop - first.length⟩).map fun more =>
          lines ++ more

/-- The lines that a callback was given are changed, each in its place. -/
def putBack (r : RingScreen) (edit : Nat → Line → Line) (refs : List (Line × Nat)) : RingScreen where
  screen := { r.screen with lines := r.screen.lines.mapIdx fun place line =>
    match (refs.findIdx? fun ref => decide (ref.2 = place)) with
    | some i => edit i line
    | none => line }
  split := r.split
  split_le := Nat.le_trans r.split_le (Nat.le_of_eq List.length_mapIdx.symm)
  fits := Nat.le_trans (Nat.le_of_eq List.length_mapIdx) r.fits

end RingScreen

section Logical

variable (graphemes : Graphemes)

def maxLogicalLineLen : Nat := 1024

namespace Screen

/-- The search backwards for the start of the first logical line. -/
def searchBack (s : Screen) : Nat → Nat → Except Panic Nat
  | 0, _ => .ok 0
  | start + 1, backLen =>
    match s.lines[start]? with
    | none => .error .row
    | some prior =>
      if !prior.lastCellWasWrapped graphemes then .ok (start + 1)
      else if maxLogicalLineLen < prior.len + backLen then .ok (start + 1)
      else searchBack s start (backLen + prior.len)

end Screen

/-- The search forwards for the last row of a logical line, over the lines from row `idx` on. -/
def measureForward : Nat → Nat → Nat → List Line → Nat
  | _, _, endInclusive, [] => endInclusive
  | idx, totalLen, endInclusive, line :: lines =>
    if 0 < totalLen ∧ maxLogicalLineLen < totalLen + line.len then endInclusive
    else if !line.lastCellWasWrapped graphemes then idx
    else measureForward (idx + 1) (totalLen + line.len) idx lines

/-- The search forwards that collects the lines as well. -/
def collectForward : Nat → Nat → Nat → List Line → List Line → Nat × List Line
  | _, _, endInclusive, lineVec, [] => (endInclusive, lineVec)
  | idx, totalLen, endInclusive, lineVec, line :: lines =>
    if 0 < totalLen ∧ maxLogicalLineLen < totalLen + line.len then (endInclusive, lineVec)
    else if !line.lastCellWasWrapped graphemes then (idx, lineVec ++ [line])
    else collectForward (idx + 1) (totalLen + line.len) idx (lineVec ++ [line]) lines

variable {τ : Type}

namespace Screen

/-- The loop of `for_each_logical_line_in_stable_range`, from a physical row on. A round passes at
least one row, so there are no more of them than rows. -/
def forEachFrom (s : Screen) (stableRange : Span Int) (stop : Nat)
    (f : τ → Span Int → List Line → Bool × τ) : Nat → Nat → τ → τ
  | 0, _, t => t
  | rounds + 1, physRow, t =>
    if physRow < stop then
      match s.lines.drop physRow with
      -- no more rows exist
      | [] => t
      | line :: lines =>
        let (endInclusive, lineVec) := collectForward graphemes physRow 0 physRow [] (line :: lines)
        let logical : Span Int :=
          ⟨s.physToStableRowIndex physRow, s.physToStableRowIndex (endInclusive + 1)⟩
        if logical.stop < stableRange.start then
          s.forEachFrom stableRange stop f rounds (endInclusive + 1) t
        else if stableRange.stop < logical.start then t
        else
          let (goOn, t) := f t logical lineVec
          if goOn then s.forEachFrom stableRange stop f rounds (endInclusive + 1) t else t
    else t

/-- `for_each_logical_line_in_stable_range`. -/
def forEachLogicalLine (s : Screen) (stableRange : Span Int)
    (f : τ → Span Int → List Line → Bool × τ) (t : τ) : Except Panic τ :=
  let physRange := s.stableRange stableRange
  (s.searchBack graphemes physRange.start 0).map fun start =>
    s.forEachFrom graphemes stableRange physRange.stop f physRange.stop start t

end Screen

namespace RingScreen

/-- The loop of `for_each_logical_line_in_stable_range_mut`, from a physical row on. -/
def forEachMutFrom (stableRange : Span Int) (stop : Nat)
    (f : τ → Span Int → List Line → Bool × τ × (Nat → Line → Line)) :
    Nat → Nat → RingScreen → τ → Except Panic (RingScreen × τ)
  | 0, _, r, t => .ok (r, t)
  | rounds + 1, physRow, r, t =>
    if physRow < stop then
      match r.screen.lines.drop physRow with
      -- no more rows exist
      | [] => .ok (r, t)
      | line :: lines =>
        let endInclusive := measureForward graphemes physRow 0 physRow (line :: lines)
        let logical : Span Int := ⟨r.screen.physToStableRowIndex physRow,
          r.screen.physToStableRowIndex (endInclusive + 1)⟩
        if logical.stop < stableRange.start then
          forEachMutFrom stableRange stop f rounds (endInclusive + 1) r t
        else if stableRange.stop < logical.start then .ok (r, t)
        else
          r.withPhysLinesMut ⟨physRow, endInclusive + 1⟩ >>= fun refs =>
            let (goOn, t, edit) := f t logical (refs.map Prod.fst)
            let r := r.putBack edit refs
            if goOn then forEachMutFrom stableRange stop f rounds (endInclusive + 1) r t
            else .ok (r, t)
    else .ok (r, t)

/-- `for_each_logical_line_in_stable_range_mut`. -/
def forEachLogicalLineMut (r : RingScreen) (stableRange : Span Int)
    (f : τ → Span Int → List Line → Bool × τ × (Nat → Line → Line)) (t : τ) :
    Except Panic (RingScreen × τ) :=
  let physRange := r.screen.stableRange stableRange
  r.screen.searchBack graphemes physRange.start 0 >>= fun start =>
    forEachMutFrom graphemes stableRange physRange.stop f physRange.stop start r t

end RingScreen

end Logical

end Wakterm.Term
