import Mathlib.Data.Int.Notation

/-!
# Classes and levels

`BidiClass`, `Direction`, `Level` and `LevelStack` of the `bidi` crate. A level wraps an `i8`; those
that occur lie between `NO_LEVEL` and 126.
-/

namespace Wakterm.Bidi

/-- What a panic is about: a subtraction that goes below zero, or an index out of range. -/
inductive Panic where
  | arithmetic | index
  deriving DecidableEq

inductive BidiClass where
  | arabicLetter | arabicNumber | boundaryNeutral | commonSeparator | europeanNumber
  | europeanSeparator | europeanTerminator | firstStrongIsolate | leftToRight
  | leftToRightEmbedding | leftToRightIsolate | leftToRightOverride | nonspacingMark
  | otherNeutral | paragraphSeparator | popDirectionalFormat | popDirectionalIsolate
  | rightToLeft | rightToLeftEmbedding | rightToLeftIsolate | rightToLeftOverride
  | segmentSeparator | whiteSpace
  deriving DecidableEq

namespace BidiClass

def isIsoInit : BidiClass → Bool
  | rightToLeftIsolate | leftToRightIsolate | firstStrongIsolate => true
  | _ => false

def isIsoControl : BidiClass → Bool
  | rightToLeftIsolate | leftToRightIsolate | popDirectionalIsolate | firstStrongIsolate => true
  | _ => false

/-- The classes that rule X9 removes. -/
def isRemoved : BidiClass → Bool
  | rightToLeftEmbedding | leftToRightEmbedding | rightToLeftOverride | leftToRightOverride
  | popDirectionalFormat | boundaryNeutral => true
  | _ => false

end BidiClass

inductive Direction where
  | leftToRight | rightToLeft
  deriving DecidableEq

inductive ParagraphDirectionHint where
  | leftToRight | rightToLeft | autoLeftToRight | autoRightToLeft

structure Level where
  val : Int
  deriving DecidableEq

def noLevel : Level := ⟨-1⟩

def maxDepth : Nat := 125

namespace Level

def removedByX9 (level : Level) : Bool := level = noLevel

/-- `direction`. The remainder of a negative number is negative. -/
def direction (level : Level) : Direction :=
  if level.val.tmod 2 = 1 then .rightToLeft else .leftToRight

/-- A level that is no deeper than `MAX_DEPTH`; one below zero is a large `usize`. -/
def checked (level : Int) : Option Level :=
  if level < 0 ∨ maxDepth < level then none else some ⟨level⟩

def leastGreaterEven (level : Level) : Option Level :=
  checked (if level.val.tmod 2 = 0 then level.val + 2 else level.val + 1)

def leastGreaterOdd (level : Level) : Option Level :=
  checked (if level.val.tmod 2 = 1 then level.val + 2 else level.val + 1)

end Level

inductive Override where
  | neutral | ltr | rtl

/-- What `apply_override` makes of a class. -/
def Override.apply : Override → BidiClass → BidiClass
  | neutral, bc => bc
  | ltr, _ => .leftToRight
  | rtl, _ => .rightToLeft

/-- An entry of the stack. -/
structure Status where
  level : Level
  override : Override
  isolate : Bool

/-- `LevelStack`: the entries up to `depth`, the last of them first. -/
abbrev LevelStack : Type := List Status

namespace LevelStack

/-- `LevelStack::push`. There is room for `MAX_DEPTH` entries, and no word of it if there is none
left. -/
def push (stack : LevelStack) (status : Status) : LevelStack :=
  if stack.length < maxDepth then status :: stack else stack

/-- The entry that `embedding_level`, `override_status` and `isolate_status` read. -/
def top : LevelStack → Except Panic Status
  | [] => .error .arithmetic
  | status :: _ => .ok status

/-- The loop that pops up to an isolate. -/
def popToIsolate : LevelStack → Except Panic LevelStack
  | [] => .error .arithmetic
  | status :: stack => if status.isolate then .ok (status :: stack) else popToIsolate stack

end LevelStack

end Wakterm.Bidi

/-!
## Explicit levels

`explicit_embedding_levels` (rules X1 to X8), `delete_format_characters` (X9) and `paragraph_level`
(P2 and P3) of the `bidi` crate.
-/

namespace Wakterm.Bidi

/-- The loop of `paragraph_level`, with the isolates that are open. -/
def paragraphLevelFrom (respectPdi : Bool) (fallback : Direction) : Nat → List BidiClass → Level
  | _, [] => if fallback = .leftToRight then ⟨0⟩ else ⟨1⟩
  | isolates, bc :: types =>
    match bc with
    | .rightToLeftIsolate | .leftToRightIsolate | .firstStrongIsolate =>
      paragraphLevelFrom respectPdi fallback (isolates + 1) types
    | .popDirectionalIsolate =>
      if 0 < isolates then paragraphLevelFrom respectPdi fallback (isolates - 1) types
      else if respectPdi then if fallback = .leftToRight then ⟨0⟩ else ⟨1⟩
      else paragraphLevelFrom respectPdi fallback isolates types
    | .leftToRight =>
      if isolates = 0 then ⟨0⟩ else paragraphLevelFrom respectPdi fallback isolates types
    | .rightToLeft | .arabicLetter =>
      if isolates = 0 then ⟨1⟩ else paragraphLevelFrom respectPdi fallback isolates types
    | _ => paragraphLevelFrom respectPdi fallback isolates types

def paragraphLevel (types : List BidiClass) (respectPdi : Bool) (fallback : Direction) : Level :=
  paragraphLevelFrom respectPdi fallback 0 types

/-- The base level that `resolve` takes. -/
def baseLevel (types : List BidiClass) : ParagraphDirectionHint → Level
  | .leftToRight => ⟨0⟩
  | .rightToLeft => ⟨1⟩
  | .autoLeftToRight => paragraphLevel types false .leftToRight
  | .autoRightToLeft => paragraphLevel types false .rightToLeft

/-- The variables of `explicit_embedding_levels`. The counters are `i32` there: none of them is
greater than the number of characters, which is below `2 ^ 31`. -/
structure Explicit where
  stack : LevelStack
  overflowIsolate : Nat
  overflowEmbedding : Nat
  validIsolate : Nat

namespace Explicit

/-- X1. -/
def start (base : Level) : Explicit := ⟨LevelStack.push [] ⟨base, .neutral, false⟩, 0, 0, 0⟩

/-- Nothing has overflowed. -/
def accepts (s : Explicit) : Bool := s.overflowIsolate = 0 && s.overflowEmbedding = 0

/-- An embedding or an override that does not fit. -/
def overflow (s : Explicit) : Explicit :=
  if s.overflowIsolate = 0 then { s with overflowEmbedding := s.overflowEmbedding + 1 } else s

/-- X2 to X5, with the level that is asked for. -/
def embed (s : Explicit) (level : Option Level) (override : Override) : Explicit :=
  match level with
  | some level =>
    if s.accepts then { s with stack := s.stack.push ⟨level, override, false⟩ } else s.overflow
  | none => s.overflow

/-- X5a to X5c, with the level that is asked for. -/
def isolate (s : Explicit) (level : Option Level) : Explicit :=
  match level with
  | some level =>
    if s.accepts then
      { s with
        validIsolate := s.validIsolate + 1, stack := s.stack.push ⟨level, .neutral, true⟩ }
    else { s with overflowIsolate := s.overflowIsolate + 1 }
  | none => { s with overflowIsolate := s.overflowIsolate + 1 }

def closeIsolate (s : Explicit) : Except Panic Explicit :=
  if 0 < s.overflowIsolate then .ok { s with overflowIsolate := s.overflowIsolate - 1 }
  else if s.validIsolate = 0 then .ok s
  else
    (LevelStack.popToIsolate s.stack).map fun stack =>
      { s with
        overflowEmbedding := 0, stack := stack.tail, validIsolate := s.validIsolate - 1 }

/-- X7. -/
def closeFormat (s : Explicit) : Except Panic Explicit :=
  if 0 < s.overflowIsolate then .ok s
  else if 0 < s.overflowEmbedding then
    .ok { s with overflowEmbedding := s.overflowEmbedding - 1 }
  else
    (LevelStack.top s.stack).map fun top =>
      if !top.isolate && 2 ≤ s.stack.length then { s with stack := s.stack.tail } else s

/-- The level that the first strong isolate asks for, by the classes that follow it. -/
def firstStrongLevel (level : Level) (rest : List BidiClass) : Option Level :=
  if paragraphLevel rest true .leftToRight = ⟨1⟩ then level.leastGreaterOdd
  else level.leastGreaterEven

/-- One character: its level, if it is given one, and its class. -/
def step (base : Level) (s : Explicit) (bc : BidiClass) (rest : List BidiClass) :
    Except Panic (Explicit × Option Level × BidiClass) :=
  match bc with
  | .rightToLeftEmbedding =>
    (LevelStack.top s.stack).map fun top =>
      (s.embed top.level.leastGreaterOdd .neutral, none, bc)
  | .leftToRightEmbedding =>
    (LevelStack.top s.stack).map fun top =>
      (s.embed top.level.leastGreaterEven .neutral, none, bc)
  | .rightToLeftOverride =>
    (LevelStack.top s.stack).map fun top => (s.embed top.level.leastGreaterOdd .rtl, none, bc)
  | .leftToRightOverride =>
    (LevelStack.top s.stack).map fun top => (s.embed top.level.leastGreaterEven .ltr, none, bc)
  | .rightToLeftIsolate =>
    (LevelStack.top s.stack).map fun top =>
      (s.isolate top.level.leastGreaterOdd, some top.level, top.override.apply bc)
  | .leftToRightIsolate =>
    (LevelStack.top s.stack).map fun top =>
      (s.isolate top.level.leastGreaterEven, some top.level, top.override.apply bc)
  | .firstStrongIsolate =>
    (LevelStack.top s.stack).map fun top =>
      (s.isolate (firstStrongLevel top.level rest), some top.level, top.override.apply bc)
  | .popDirectionalIsolate => do
      let s ← s.closeIsolate
      let top ← LevelStack.top s.stack
      return (s, some top.level, top.override.apply bc)
  | .popDirectionalFormat => s.closeFormat.map fun s => (s, none, bc)
  | .boundaryNeutral => .ok (s, none, bc)
  -- the contexts that are open stay open
  | .paragraphSeparator => .ok (s, some base, bc)
  | _ =>
    (LevelStack.top s.stack).map fun top => (s, some top.level, top.override.apply bc)

/-- The loop over the characters. -/
def run (base : Level) : Explicit → List BidiClass → Except Panic (List (Option Level × BidiClass))
  | _, [] => .ok []
  | s, bc :: rest => do
      let (s, level, bc) ← s.step base bc rest
      let out ← s.run base rest
      return (level, bc) :: out

end Explicit

/-- `Vec::resize`. -/
def resizeLevels (levels : List Level) (len : Nat) : List Level :=
  levels.take len ++ List.replicate (len - levels.length) ⟨0⟩

/-- `explicit_embedding_levels`: the levels, and the classes. A character that is given no level
has the one that was there before. -/
def explicitEmbeddingLevels (base : Level) (types : List BidiClass) (levels : List Level) :
    Except Panic (List Level × List BidiClass) :=
  ((Explicit.start base).run base types).map fun out =>
    (List.zipWith (fun old new => new.1.getD old) (resizeLevels levels types.length) out,
      out.map Prod.snd)

def deleteFormatCharacters (types : List BidiClass) (levels : List Level) : List Level :=
  List.zipWith (fun bc level => if bc.isRemoved then noLevel else level) types levels

end Wakterm.Bidi
