import Mathlib.Data.List.MinMax
import Wakterm.Bidi.Explicit
import Wakterm.Bidi.Reorder
import Wakterm.Machine.ReverseRuns

/-!
# Rules X1 to X8

What UAX #9 prescribes for the characters of one paragraph: a directional status stack that is never
empty and has no limit of its own, a limit for the levels only, and two counters for what is too
deep.
-/

namespace Wakterm.Bidi.Uax9

/-- The stack, its last entry apart from those below, and the three counters. -/
structure Context where
  top : Status
  below : List Status
  overflowIsolates : Nat
  overflowEmbeddings : Nat
  validIsolates : Nat

/-- The entries of the stack. -/
def Context.depth (c : Context) : Nat := c.below.length + 1

/-- The least odd, or even, level that is greater. -/
def nextLevel (odd : Bool) (level : Level) : Level :=
  ⟨if (level.val + 1) % 2 = (if odd then 1 else 0) then level.val + 1 else level.val + 2⟩

/-- What an embedding, an override or an isolate adds to the stack. -/
def opened (level : Level) (rest : List BidiClass) : BidiClass → Option Status
  | .rightToLeftEmbedding => some ⟨nextLevel true level, .neutral, false⟩
  | .leftToRightEmbedding => some ⟨nextLevel false level, .neutral, false⟩
  | .rightToLeftOverride => some ⟨nextLevel true level, .rtl, false⟩
  | .leftToRightOverride => some ⟨nextLevel false level, .ltr, false⟩
  | .rightToLeftIsolate => some ⟨nextLevel true level, .neutral, true⟩
  | .leftToRightIsolate => some ⟨nextLevel false level, .neutral, true⟩
  | .firstStrongIsolate =>
    some ⟨nextLevel (paragraphLevel rest true .leftToRight = ⟨1⟩) level, .neutral, true⟩
  | _ => none

namespace Context

/-- X1. -/
def start (base : Level) : Context := ⟨⟨base, .neutral, false⟩, [], 0, 0, 0⟩

/-- Can the entry be added? -/
def Valid (c : Context) (status : Status) : Prop :=
  status.level.val ≤ maxDepth ∧ c.overflowIsolates = 0 ∧ c.overflowEmbeddings = 0

instance (c : Context) (status : Status) : Decidable (c.Valid status) :=
  inferInstanceAs (Decidable (_ ∧ _ ∧ _))

/-- X2 to X5c, the entry that is opened. -/
def push (c : Context) (status : Status) : Context :=
  if c.Valid status then
    { c with
      top := status, below := c.top :: c.below
      validIsolates := c.validIsolates + if status.isolate then 1 else 0 }
  else if status.isolate then { c with overflowIsolates := c.overflowIsolates + 1 }
  else if c.overflowIsolates = 0 then { c with overflowEmbeddings := c.overflowEmbeddings + 1 }
  else c

/-- The entries without those down to the last isolate. -/
def closed (stack : List Status) : List Status :=
  (stack.dropWhile fun status => !status.isolate).tail

/-- X6a, before the level is taken. -/
def closeIsolate (c : Context) : Context :=
  if 0 < c.overflowIsolates then { c with overflowIsolates := c.overflowIsolates - 1 }
  else if c.validIsolates = 0 then c
  else
    match closed (c.top :: c.below) with
    | top :: below =>
      ⟨top, below, c.overflowIsolates, 0, c.validIsolates - 1⟩
    | [] => c

/-- X7. -/
def closeFormat (c : Context) : Context :=
  if 0 < c.overflowIsolates then c
  else if 0 < c.overflowEmbeddings then
    { c with overflowEmbeddings := c.overflowEmbeddings - 1 }
  else if c.top.isolate then c
  else
    match c.below with
    | top :: below => { c with top := top, below := below }
    | [] => c

/-- The contexts after a character. -/
def after (c : Context) (bc : BidiClass) (rest : List BidiClass) : Context :=
  match opened c.top.level rest bc with
  | some status => c.push status
  | none =>
    match bc with
    | .popDirectionalIsolate => c.closeIsolate
    | .popDirectionalFormat => c.closeFormat
    | _ => c

/-- The level that a character is given, by the contexts before and after it. -/
def levelOf (base : Level) (before after : Context) : BidiClass → Option Level
  | .rightToLeftEmbedding | .leftToRightEmbedding | .rightToLeftOverride | .leftToRightOverride
  | .popDirectionalFormat | .boundaryNeutral => none
  | .paragraphSeparator => some base
  | .popDirectionalIsolate => some after.top.level
  | _ => some before.top.level

/-- The contexts in which the characters are met, and the last. -/
def all : Context → List BidiClass → List Context
  | c, [] => [c]
  | c, bc :: rest => c :: all (c.after bc rest) rest

def levels (base : Level) : Context → List BidiClass → List (Option Level)
  | _, [] => []
  | c, bc :: rest => c.levelOf base (c.after bc rest) bc :: levels base (c.after bc rest) rest

end Context

theorem nextLevel_least (odd : Bool) (level : Level) : level.val < (nextLevel odd level).val ∧
      ((nextLevel odd level).val % 2 = if odd then 1 else 0) ∧
      ∀ n : Int, level.val < n → (n % 2 = if odd then 1 else 0) →
        (nextLevel odd level).val ≤ n := by
  unfold nextLevel
  cases odd with
  | true =>
    simp only [if_true]
    split <;> refine ⟨by omega, by omega, fun n _ _ => by omega⟩
  | false =>
    simp only [Bool.false_eq_true, if_false]
    split <;> refine ⟨by omega, by omega, fun n _ _ => by omega⟩

end Wakterm.Bidi.Uax9

/-!
## Rule L2

What UAX #9 prescribes for the characters of one line: from the highest level down to the lowest odd
one, reverse every maximal run of characters at that level or higher.
-/

namespace Wakterm.Bidi.Uax9

open Machine

/-- The characters of a line that are not removed, with their levels. -/
def lineChars (levels : List Level) (start : Nat) : List (Level × Nat) :=
  (levels.zipIdx start).filter fun char => !char.1.removedByX9

def oddLevels (chars : List (Level × Nat)) : List Int :=
  (chars.map fun char => char.1.val).filter fun level => level % 2 = 1

def reverseLevel (chars : List (Level × Nat)) (level : Int) : List (Level × Nat) :=
  reverseRuns (fun char => level ≤ char.1.val) chars

def visualOrder (chars : List (Level × Nat)) : List Nat :=
  match (oddLevels chars).min?, (chars.map fun char => char.1.val).max? with
  | some lowest, some highest =>
    ((levelsDown lowest highest).foldl reverseLevel chars).map Prod.snd
  | _, _ => chars.map Prod.snd

end Wakterm.Bidi.Uax9
