import Wakterm.Bidi.Resolve

/-!
# Reordering a line

`reorder_line`: rule L1 for the levels of the line, L3 for the marks if it is asked for, and L2.
-/

namespace Wakterm.Bidi

/-- An element, or a panic. -/
def readAt {α : Type} (l : List α) (idx : Nat) : Except Panic α :=
  match l[idx]? with
  | some x => .ok x
  | none => .error .index

/-- `reverse` of the elements from `first` to `last`. -/
def reverseSlice {α : Type} (l : List α) (first last : Nat) : List α :=
  l.take first ++ (((l.take (last + 1)).drop first).reverse ++ l.drop (last + 1))

/-- `reset_contiguous_whitespace_before`, over the indices of a range from its last one on. -/
def resetContiguousWhitespaceBefore (base : Level) (orig : List BidiClass) :
    List Nat → List Level → List Level
  | [], levels => levels
  | i :: rest, levels =>
    if classAt orig i = .whiteSpace || (classAt orig i).isIsoControl then
      resetContiguousWhitespaceBefore base orig rest (levels.set i base)
    else if (levelAt levels i).removedByX9 then
      resetContiguousWhitespaceBefore base orig rest levels
    else levels

/-- `reset_whitespace_levels`, at a separator. -/
def resetAtSeparator (base : Level) (orig : List BidiClass) (start : Nat) (levels : List Level)
    (idx : Nat) : List Level :=
  match classAt orig idx with
  | .segmentSeparator | .paragraphSeparator =>
    resetContiguousWhitespaceBefore base orig (List.range' start (idx - start)).reverse
      (levels.set idx base)
  | _ => levels

def BidiContext.resetWhitespaceLevels (context : BidiContext) (start stop : Nat) :
    Except Panic (List Level) :=
  if start ≤ stop ∧ stop ≤ context.levels.length then
    let indices := List.range' start (stop - start)
    let levels := indices.foldl (resetAtSeparator context.baseLevel context.origCharTypes start)
      context.levels
    let levels := resetContiguousWhitespaceBefore context.baseLevel context.origCharTypes
      indices.reverse levels
    .ok ((levels.drop start).take (stop - start))
  else .error .index

/-- The class of the character at a place of the visual order. `DELETED` is no index. -/
def classOf (orig : List BidiClass) (visual : List (Option Nat)) (idx : Nat) :
    Except Panic BidiClass :=
  (readAt visual idx).bind fun cidx =>
    match cidx with
    | some cidx => readAt orig cidx
    | none => .error .index

/-- Is there a mark to be moved, from right to left and not at the start? -/
def markAt (orig : List BidiClass) (levels : List Level) (visual : List (Option Nat)) (idx : Nat) :
    Except Panic Bool :=
  if idx = 0 then .ok false
  else
    (readAt levels idx).bind fun level =>
      if !level.removedByX9 && level.direction = .rightToLeft then
        (classOf orig visual idx).map fun bc => bc = .nonspacingMark
      else .ok false

def scansPast (orig : List BidiClass) (levels : List Level) (visual : List (Option Nat))
    (level : Level) (idx : Nat) : Except Panic Bool :=
  (readAt levels idx).bind fun found =>
    if 0 < idx && found.removedByX9 then .ok true
    else if found = level then
      (classOf orig visual idx).map fun bc => bc.isRemoved || bc = .nonspacingMark
    else .ok false

/-- The scan backwards. At the start of the line there is nothing to go on to. -/
def scanBack (orig : List BidiClass) (levels : List Level) (visual : List (Option Nat))
    (level : Level) : Nat → Except Panic Nat
  | 0 =>
    (scansPast orig levels visual level 0).bind fun past =>
      if past then .error .arithmetic else .ok 0
  | idx + 1 =>
    (scansPast orig levels visual level (idx + 1)).bind fun past =>
      if past then scanBack orig levels visual level idx else .ok (idx + 1)

/-- One round of the loop of `reorder_non_spacing_marks`: where it has got to, and the line. -/
def moveMarksAt (orig : List BidiClass) (idx : Nat) (levels : List Level)
    (visual : List (Option Nat)) : Except Panic (Nat × List Level × List (Option Nat)) :=
  (markAt orig levels visual idx).bind fun mark =>
    if mark then
      (readAt levels idx).bind fun level =>
        (scanBack orig levels visual level (idx - 1)).bind fun stop =>
          (readAt levels stop).map fun found =>
            let first := if found ≠ level then stop + 1 else stop
            if first < idx then
              (first, reverseSlice levels first idx, reverseSlice visual first idx)
            else (first, levels, visual)
    else .ok (idx, levels, visual)

/-- The loop of `reorder_non_spacing_marks`, with a number of rounds that is enough. -/
def moveMarks (orig : List BidiClass) :
    Nat → Nat → List Level → List (Option Nat) → Except Panic (List Level × List (Option Nat))
  | 0, _, levels, visual => .ok (levels, visual)
  | rounds + 1, idx, levels, visual =>
    (moveMarksAt orig idx levels visual).bind fun (idx, levels, visual) =>
      if idx = 0 then .ok (levels, visual) else moveMarks orig rounds (idx - 1) levels visual

def reorderNonSpacingMarks (orig : List BidiClass) (levels : List Level)
    (visual : List (Option Nat)) : Except Panic (List Level × List (Option Nat)) :=
  moveMarks orig levels.length (levels.length - 1) levels visual

/-- The variables of a pass of `reverse_levels`. -/
structure Scan where
  inRange : Bool
  significantRange : Bool
  firstPos : Option Nat
  lastPos : Option Nat

/-- The range that a pass has gone over, reversed if it is more than one place. -/
def Scan.reverseRange (s : Scan) (visual : List (Option Nat)) : List (Option Nat) :=
  match s.lastPos, s.firstPos with
  | some last, some first => if first < last then reverseSlice visual first last else visual
  | _, _ => visual

/-- A pass of `reverse_levels`, from a place on. -/
@[grind =]
def reversePass (level : Int) : Nat → Scan → List Level → List (Option Nat) → List (Option Nat)
  | _, s, [], visual => if s.inRange && s.significantRange then s.reverseRange visual else visual
  | i, s, found :: rest, visual =>
    if level ≤ found.val then
      if !s.inRange then
        reversePass level (i + 1) { s with inRange := true, firstPos := some i } rest visual
      else
        reversePass level (i + 1) { s with significantRange := true, lastPos := some i } rest
          visual
    else if found.removedByX9 then
      -- a deleted control does not end a range
      reversePass level (i + 1) (if s.inRange then { s with lastPos := some i } else s) rest visual
    else
      reversePass level (i + 1) { s with inRange := false, firstPos := none, lastPos := none } rest
        (if s.significantRange then s.reverseRange visual else visual)

/-- The highest level and the lowest odd one, with the values that stand for none. -/
def levelBounds (levels : List Level) : Int × Int :=
  levels.foldl
    (fun bounds level =>
      if level.removedByX9 then bounds
      else
        (max bounds.1 level.val,
          if level.val.tmod 2 = 1 ∧ level.val < bounds.2 then level.val else bounds.2))
    (0, maxDepth + 1)

/-- The levels of the range `lowest..=highest`, the last one first. -/
def levelsDown (lowest highest : Int) : List Int :=
  (List.range (highest + 1 - lowest).toNat).map fun (k : Nat) => highest - (k : Int)

/-- The visual order before anything is reversed. -/
def initialVisual (firstCidx : Nat) (levels : List Level) : List (Option Nat) :=
  levels.zipIdx.map fun place =>
    if place.1.removedByX9 then none else some (place.2 + firstCidx)

/-- The passes of `reverse_levels`. -/
def reversePasses (lowestOdd highest : Int) (levels : List Level) (visual : List (Option Nat)) :
    List (Option Nat) :=
  (levelsDown lowestOdd highest).foldl
    (fun visual level => reversePass level 0 ⟨false, false, none, none⟩ levels visual) visual

/-- `reverse_levels`: the levels, which L3 may have moved, and the visual order. -/
def BidiContext.reverseLevels (context : BidiContext) (firstCidx : Nat) (levels : List Level) :
    Except Panic (List Level × List Nat) :=
  let (highest, lowestOdd) := levelBounds levels
  if levels.all Level.removedByX9 then .ok (levels, [])
  else
    let visual := initialVisual firstCidx levels
    let marks :=
      if context.reorderNsm then reorderNonSpacingMarks context.origCharTypes levels visual
      else .ok (levels, visual)
    marks.map fun (levels, visual) =>
      (levels, (reversePasses lowestOdd highest levels visual).filterMap id)

def BidiContext.reorderLine (context : BidiContext) (start stop : Nat) :
    Except Panic (List Level × List Nat) :=
  (context.resetWhitespaceLevels start stop).bind fun levels => context.reverseLevels start levels

end Wakterm.Bidi
