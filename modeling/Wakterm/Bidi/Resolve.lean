import Wakterm.Bidi.Explicit

/-!
# Runs of one level

`identify_runs` and `identify_isolating_run_sequences` (rule X10): the runs of one level, which an
isolate initiator ends, and the sequences that join a run with the one where its isolate is closed.
-/

namespace Wakterm.Bidi

def Level.max (level other : Level) : Level := ⟨Max.max level.val other.val⟩

def Level.asBidiClass (level : Level) : BidiClass :=
  if level.val.tmod 2 = 1 then .rightToLeft else .leftToRight

def BidiClass.isNeutral : BidiClass → Bool
  | otherNeutral | whiteSpace | segmentSeparator | paragraphSeparator => true
  | bc => bc.isIsoControl

/-- The class at an index of the paragraph. -/
def classAt (types : List BidiClass) (idx : Nat) : BidiClass := types.getD idx .otherNeutral

/-- The level at an index of the paragraph. -/
def levelAt (levels : List Level) (idx : Nat) : Level := levels.getD idx ⟨0⟩

structure Run where
  start : Nat
  stop : Nat
  seqId : Nat
  level : Level
  sor : BidiClass
  eor : BidiClass

/-- The loop of `span_one_run`, with the level of the run and the index of its last character. -/
def spanFrom : Level → Nat → Nat → List (BidiClass × Level) → Level × Nat
  | spanLevel, _, spanLen, [] => (spanLevel, spanLen + 1)
  | spanLevel, idx, spanLen, (bc, level) :: rest =>
    if level.removedByX9 then spanFrom spanLevel (idx + 1) idx rest
    else if !spanLevel.removedByX9 && level ≠ spanLevel then (spanLevel, spanLen + 1)
    else if bc.isIsoInit then (level, idx + 1)
    else spanFrom level (idx + 1) idx rest

/-- `span_one_run`: the level of the run at the head of these characters, and its length. -/
def spanOneRun (rest : List (BidiClass × Level)) : Level × Nat := spanFrom noLevel 0 0 rest

/-- The loop of `identify_runs`. It skips what belongs to the run before. -/
def identifyRunsFrom : Nat → Nat → List (BidiClass × Level) → List Run
  | _, _, [] => []
  | idx, skip + 1, _ :: rest => identifyRunsFrom (idx + 1) skip rest
  | idx, 0, first :: rest =>
    let (spanLevel, spanLen) := spanOneRun (first :: rest)
    let runs := identifyRunsFrom (idx + 1) (spanLen - 1) rest
    if spanLevel.removedByX9 then runs
    else ⟨idx, idx + spanLen, 0, spanLevel, .otherNeutral, .otherNeutral⟩ :: runs

/-- `calculate_sor_eor`, with the level of the run before. -/
def calculateSorEor (base : Level) : Level → List Run → List Run
  | _, [] => []
  | prior, run :: rest =>
    let next := (rest.head?.map Run.level).getD base
    { run with
      sor := (prior.max run.level).asBidiClass
      eor := (next.max run.level).asBidiClass } :: calculateSorEor base run.level rest

def identifyRuns (base : Level) (types : List BidiClass) (levels : List Level) : List Run :=
  calculateSorEor base base (identifyRunsFrom 0 0 (types.zip levels))

def Run.firstSignificantBidiClass (run : Run) (types : List BidiClass) (levels : List Level) :
    Option BidiClass :=
  ((List.range' run.start (run.stop - run.start)).find? fun idx =>
    !(levelAt levels idx).removedByX9).bind fun idx => types[idx]?

/-- Is the last character of the run an isolate initiator? -/
def Run.opensIsolate (run : Run) (types : List BidiClass) : Bool :=
  (classAt types (run.stop - 1)).isIsoInit

structure IsolatingRunSequence where
  runs : List Nat
  level : Level
  sos : BidiClass
  eos : BidiClass
  indices : List Nat

/-- The loop that looks for the run with the `PopDirectionalIsolate`, over the runs that follow: the
runs, and those that were found. -/
def lookAhead (types : List BidiClass) (levels : List Level) (saveLevel : Level) (seqId : Nat) :
    List Nat → List Run → List Run × List Nat
  | [], runs => (runs, [])
  | idx :: rest, runs =>
    match runs[idx]? with
    | none => lookAhead types levels saveLevel seqId rest runs
    | some run =>
      if run.seqId = 0 ∧ run.level = saveLevel ∧
          run.firstSignificantBidiClass types levels = some .popDirectionalIsolate then
        let runs := runs.set idx { run with seqId := seqId }
        if run.opensIsolate types then
          let (runs, found) := lookAhead types levels saveLevel seqId rest runs
          (runs, idx :: found)
        else (runs, [idx])
      else lookAhead types levels saveLevel seqId rest runs

/-- One round of `identify_isolating_run_sequences`. A sequence has the id of its place, from one. -/
def identifySequence (types : List BidiClass) (levels : List Level)
    (s : List Run × List IsolatingRunSequence) (runIdx : Nat) :
    List Run × List IsolatingRunSequence :=
  match s.1[runIdx]? with
  | none => s
  | some run =>
    if run.seqId ≠ 0 then s
    else
      let seqId := s.2.length + 1
      let runs := s.1.set runIdx { run with seqId := seqId }
      let (runs, found) :=
        if run.opensIsolate types then
          lookAhead types levels run.level seqId
            (List.range' (runIdx + 1) (runs.length - (runIdx + 1))) runs
        else (runs, [])
      (runs, s.2 ++ [⟨runIdx :: found, run.level, .otherNeutral, .otherNeutral, []⟩])

def calculateSosEos (base : Level) (types : List BidiClass) (runs : List Run)
    (isoRun : IsolatingRunSequence) : IsolatingRunSequence :=
  match isoRun.runs.head?.bind (runs[·]?), isoRun.runs.getLast?.bind (runs[·]?) with
  | some first, some last =>
    { isoRun with
      sos := first.sor
      eos :=
        if last.opensIsolate types then (base.max isoRun.level).asBidiClass else last.eor }
  | _, _ => isoRun

/-- `build_text_chains`, of one sequence. -/
def buildTextChain (runs : List Run) (isoRun : IsolatingRunSequence) : IsolatingRunSequence :=
  { isoRun with
    indices := (isoRun.runs.filterMap (runs[·]?)).flatMap fun run =>
      List.range' run.start (run.stop - run.start) }

def identifyIsolatingRunSequences (base : Level) (types : List BidiClass) (levels : List Level)
    (runs : List Run) : List IsolatingRunSequence :=
  let (runs, isoRuns) := (List.range runs.length).foldl (identifySequence types levels) (runs, [])
  isoRuns.map fun isoRun => buildTextChain runs (calculateSosEos base types runs isoRun)

end Wakterm.Bidi

/-!
## Resolving the levels

The rules W1 to W7, N0 to N2, I1 and I2, and `resolve`.
-/

namespace Wakterm.Bidi

/-- A rule for one character: the indices before it, its own, and those after it. -/
abbrev Rule : Type := List Nat → Nat → List Nat → List BidiClass → List BidiClass

/-- A rule for each character of a chain, the first one first. -/
def walk (rule : Rule) : List Nat → List Nat → List BidiClass → List BidiClass
  | _, [], types => types
  | before, idx :: after, types =>
    walk rule (idx :: before) after (rule before idx after types)

/-- A rule for each character of a chain, the last one first. -/
def walkBack (rule : Rule) : List Nat → List Nat → List BidiClass → List BidiClass
  | _, [], types => types
  | before, idx :: after, types => rule before idx after (walkBack rule (idx :: before) after types)

/-- The first character with the class, past those that are removed. -/
def nextInContext (levels : List Level) (types : List BidiClass) (bc : BidiClass) :
    List Nat → Option Nat
  | [] => none
  | idx :: rest =>
    if classAt types idx = bc then some idx
    else if (levelAt levels idx).removedByX9 then nextInContext levels types bc rest
    else none

/-- `is_in_context`, with `is_prior_context` and `is_following_context`. -/
def isInContext (levels : List Level) (types : List BidiClass) (bc : BidiClass)
    (before after : List Nat) : Bool :=
  (nextInContext levels types bc before).isSome && (nextInContext levels types bc after).isSome

/-- The first class that is strong, or the one at the start of the sequence. -/
def firstStrong (strong : BidiClass → Bool) (types : List BidiClass) (sos : BidiClass)
    (before : List Nat) : BidiClass :=
  ((before.map (classAt types)).find? strong).getD sos

/-- `is_prior_context_left` and the three like it: is the first character that is not neutral of the
direction? -/
def isContext (direction : BidiClass → Bool) (limit : BidiClass) (levels : List Level)
    (types : List BidiClass) (edge : BidiClass) : List Nat → Bool
  | [] => edge = limit
  | idx :: rest =>
    if direction (classAt types idx) then true
    else if (levelAt levels idx).removedByX9 then
      isContext direction limit levels types edge rest
    else if (classAt types idx).isNeutral then
      isContext direction limit levels types edge rest
    else false

/-- What counts as left for rule N1. -/
def isLeft (bc : BidiClass) : Bool := bc = .leftToRight

/-- What counts as right for rule N1. -/
def isRight : BidiClass → Bool
  | .rightToLeft | .arabicNumber | .europeanNumber => true
  | _ => false

/-- `is_prior_context_left` and `is_following_context_left`. -/
def isContextLeft (levels : List Level) (types : List BidiClass) (edge : BidiClass)
    (indices : List Nat) : Bool :=
  isContext isLeft .leftToRight levels types edge indices

/-- `is_prior_context_right` and `is_following_context_right`. -/
def isContextRight (levels : List Level) (types : List BidiClass) (edge : BidiClass)
    (indices : List Nat) : Bool :=
  isContext isRight .rightToLeft levels types edge indices

/-- `resolve_combining_marks` on a chain, with the class before. -/
def resolveCombiningMarks (levels : List Level) :
    BidiClass → List Nat → List BidiClass → List BidiClass
  | _, [], types => types
  | priorBc, idx :: rest, types =>
    if classAt types idx = .nonspacingMark then
      resolveCombiningMarks levels priorBc rest (types.set idx priorBc)
    else if (levelAt levels idx).removedByX9 then resolveCombiningMarks levels priorBc rest types
    else resolveCombiningMarks levels (classAt types idx) rest types

/-- `resolve_european_numbers`. -/
def resolveEuropeanNumber (sos : BidiClass) : Rule := fun before cidx _ types =>
  if classAt types cidx = .europeanNumber ∧
      firstStrong (fun bc => bc = .leftToRight || bc = .rightToLeft || bc = .arabicLetter) types sos
        before = .arabicLetter then
    types.set cidx .arabicNumber
  else types

/-- `resolve_arabic_letters`. -/
def resolveArabicLetter : Rule := fun _ idx _ types =>
  if classAt types idx = .arabicLetter then types.set idx .rightToLeft else types

/-- `resolve_separators`. -/
def resolveSeparator (levels : List Level) : Rule := fun before idx after types =>
  if classAt types idx = .europeanSeparator then
    if isInContext levels types .europeanNumber before after then types.set idx .europeanNumber
    else types
  else if classAt types idx = .commonSeparator then
    if isInContext levels types .europeanNumber before after then types.set idx .europeanNumber
    else if isInContext levels types .arabicNumber before after then types.set idx .arabicNumber
    else types
  else types

/-- A loop of `resolve_terminators` over the neighbours of a number. -/
def terminate (levels : List Level) : List Nat → List BidiClass → List BidiClass
  | [], types => types
  | idx :: rest, types =>
    if classAt types idx = .europeanTerminator then
      terminate levels rest (types.set idx .europeanNumber)
    else if (levelAt levels idx).removedByX9 then terminate levels rest types
    else types

/-- `resolve_terminators`. -/
def resolveTerminator (levels : List Level) : Rule := fun before idx after types =>
  if classAt types idx = .europeanNumber then
    terminate levels after (terminate levels before types)
  else types

def resolveEsCsEt : Rule := fun _ idx _ types =>
  match classAt types idx with
  | .europeanSeparator | .commonSeparator | .europeanTerminator => types.set idx .otherNeutral
  | _ => types

def resolveEn (sos : BidiClass) : Rule := fun before cidx _ types =>
  if classAt types cidx = .europeanNumber ∧
      firstStrong (fun bc => bc = .leftToRight || bc = .rightToLeft) types sos before =
        .leftToRight then
    types.set cidx .leftToRight
  else types

inductive BracketType where
  | open | close

structure Pair where
  openingPos : Nat
  closingPos : Nat

def maxPairingDepth : Nat := 63

/-- `BracketStack`: the closing brackets that are looked for and the places of what they close, the
last first, and the pairs. -/
structure BracketStack where
  stack : List (Char × Nat)
  pairs : List Pair

namespace BracketStack

/-- `BracketStack::push`; `none` if there is no room. -/
def push (s : BracketStack) (closingBracket : Char) (pos : Nat) : Option BracketStack :=
  if maxPairingDepth ≤ s.stack.length then none
  else some { s with stack := (closingBracket, pos) :: s.stack }

def sameBracket (wanted closingBracket : Char) : Bool :=
  wanted = closingBracket || (wanted = '\u232a' && closingBracket = '\u3009') ||
    (wanted = '\u3009' && closingBracket = '\u232a')

/-- The search of `seek_matching_open_bracket`: the place that is found, and what is below it. -/
def seek (closingBracket : Char) : List (Char × Nat) → Option (Nat × List (Char × Nat))
  | [] => none
  | (wanted, pos) :: below =>
    if sameBracket wanted closingBracket then some (pos, below) else seek closingBracket below

def seekMatchingOpenBracket (s : BracketStack) (closingBracket : Char) (pos : Nat) : BracketStack :=
  match seek closingBracket s.stack with
  | some (opening, below) => ⟨below, s.pairs ++ [⟨opening, pos⟩]⟩
  | none => s

end BracketStack

/-- The loop of `resolve_paired_brackets` that finds the pairs of a chain, with the places of its
characters; `none` if the stack overflows. -/
def findPairs (lookupClosing : Char → Option (Char × BracketType)) (paragraph : List Char)
    (types : List BidiClass) : BracketStack → List (Nat × Nat) → Option BracketStack
  | s, [] => some s
  | s, (cidx, ridx) :: rest =>
    match paragraph[cidx]?.bind fun c => (lookupClosing c).map fun bracket => (c, bracket) with
    | some (c, closingBracket, bpt) =>
      if classAt types cidx = .otherNeutral then
        match bpt with
        | .open =>
          (s.push closingBracket ridx).bind fun s =>
            findPairs lookupClosing paragraph types s rest
        | .close =>
          findPairs lookupClosing paragraph types (s.seekMatchingOpenBracket c ridx) rest
      else findPairs lookupClosing paragraph types s rest
    | none => findPairs lookupClosing paragraph types s rest

/-- A loop of `set_bracket_pair_bc`: the marks that follow a bracket. -/
def setMarks (orig : List BidiClass) (levels : List Level) (bc : BidiClass) :
    List Nat → List BidiClass → List BidiClass
  | [], types => types
  | cidx :: rest, types =>
    if classAt orig cidx = .nonspacingMark then setMarks orig levels bc rest (types.set cidx bc)
    else if (levelAt levels cidx).removedByX9 then setMarks orig levels bc rest types
    else types

def Direction.asBidiClass : Direction → BidiClass
  | leftToRight => .leftToRight
  | rightToLeft => .rightToLeft

def Direction.opposite : Direction → Direction
  | leftToRight => .rightToLeft
  | rightToLeft => .leftToRight

def setBracketPairBc (orig : List BidiClass) (levels : List Level) (pair : Pair)
    (indices : List Nat) (direction : Direction) (types : List BidiClass) : List BidiClass :=
  let bc := direction.asBidiClass
  let types := types.set (indices.getD pair.openingPos 0) bc
  let types := types.set (indices.getD pair.closingPos 0) bc
  let types := setMarks orig levels bc
    ((indices.take pair.closingPos).drop (pair.openingPos + 1)) types
  setMarks orig levels bc (indices.drop (pair.closingPos + 1)) types

/-- The direction of a class, for rule N0. -/
def strongDirection : BidiClass → Option Direction
  | .rightToLeft | .europeanNumber | .arabicNumber => some .rightToLeft
  | .leftToRight => some .leftToRight
  | _ => none

def resolveOnePair (orig : List BidiClass) (levels : List Level) (isoRun : IsolatingRunSequence)
    (types : List BidiClass) (pair : Pair) : List BidiClass :=
  let embedding := isoRun.level.direction
  let opposite := embedding.opposite
  let directions :=
    if pair.openingPos < pair.closingPos - 1 then
      ((isoRun.indices.take pair.closingPos).drop (pair.openingPos + 1)).map fun cidx =>
        strongDirection (classAt types cidx)
    else []
  if some embedding ∈ directions then
    setBracketPairBc orig levels pair isoRun.indices embedding types
  else if some opposite ∈ directions then
    let before := (isoRun.indices.take pair.openingPos).reverse
    if (opposite = .leftToRight ∧ isContextLeft levels types isoRun.sos before) ∨
        (opposite = .rightToLeft ∧ isContextRight levels types isoRun.sos before) then
      setBracketPairBc orig levels pair isoRun.indices opposite types
    else setBracketPairBc orig levels pair isoRun.indices embedding types
  else types

/-- `resolve_paired_brackets`. An overflow of the stack ends it for all the sequences that are
left. -/
def resolvePairedBrackets (lookupClosing : Char → Option (Char × BracketType))
    (orig : List BidiClass) (levels : List Level) (paragraph : List Char) :
    List IsolatingRunSequence → List BidiClass → List BidiClass
  | [], types => types
  | isoRun :: isoRuns, types =>
    match findPairs lookupClosing paragraph types ⟨[], []⟩ isoRun.indices.zipIdx with
    | none => types
    | some s =>
      let pairs := s.pairs.mergeSort fun pair other => pair.openingPos ≤ other.openingPos
      resolvePairedBrackets lookupClosing orig levels paragraph isoRuns
        (pairs.foldl (resolveOnePair orig levels isoRun) types)

/-- `resolve_neutrals_by_context`. -/
def resolveNeutralByContext (levels : List Level) (sos eos : BidiClass) : Rule :=
  fun before cidx after types =>
    if !(classAt types cidx).isNeutral then types
    else if isContextLeft levels types sos before && isContextLeft levels types eos after then
      types.set cidx .leftToRight
    else if isContextRight levels types sos before && isContextRight levels types eos after then
      types.set cidx .rightToLeft
    else types

/-- `resolve_neutrals_by_level`. -/
def resolveNeutralByLevel (levels : List Level) : Rule := fun _ cidx _ types =>
  if (classAt types cidx).isNeutral then types.set cidx (levelAt levels cidx).asBidiClass
  else types

/-- The level of one character by the rules I1 and I2. -/
def implicitLevel (bc : BidiClass) (level : Level) : Level :=
  if level.removedByX9 then level
  else
    match level.direction with
    | .leftToRight =>
      match bc with
      | .rightToLeft => ⟨level.val + 1⟩
      | .arabicNumber | .europeanNumber => ⟨level.val + 2⟩
      | _ => level
    | .rightToLeft =>
      match bc with
      | .leftToRight | .arabicNumber | .europeanNumber => ⟨level.val + 1⟩
      | _ => level

def resolveImplicitLevels (types : List BidiClass) (levels : List Level) : List Level :=
  List.zipWith implicitLevel types levels

structure BidiContext where
  origCharTypes : List BidiClass
  levels : List Level
  baseLevel : Level
  reorderNsm : Bool
  deriving DecidableEq

/-- One of the rules, for every sequence. -/
def forSequences (isoRuns : List IsolatingRunSequence)
    (rule : IsolatingRunSequence → List BidiClass → List BidiClass) (types : List BidiClass) :
    List BidiClass :=
  isoRuns.foldl (fun types isoRun => rule isoRun types) types

/-- The rules W1 to N2 that `resolve` applies to the classes. -/
def resolveClasses (lookupClosing : Char → Option (Char × BracketType)) (orig : List BidiClass)
    (levels : List Level) (paragraph : List Char) (isoRuns : List IsolatingRunSequence)
    (types : List BidiClass) : List BidiClass :=
  let types := forSequences isoRuns
    (fun s => resolveCombiningMarks levels s.sos s.indices) types
  let types := forSequences isoRuns (fun s => walk (resolveEuropeanNumber s.sos) [] s.indices) types
  let types := forSequences isoRuns (fun s => walk resolveArabicLetter [] s.indices) types
  let types := forSequences isoRuns (fun s => walk (resolveSeparator levels) [] s.indices) types
  let types := forSequences isoRuns (fun s => walk (resolveTerminator levels) [] s.indices) types
  let types := forSequences isoRuns (fun s => walk resolveEsCsEt [] s.indices) types
  let types := forSequences isoRuns (fun s => walkBack (resolveEn s.sos) [] s.indices) types
  let types :=
    if paragraph.isEmpty then types
    else resolvePairedBrackets lookupClosing orig levels paragraph isoRuns types
  let types := forSequences isoRuns
    (fun s => walkBack (resolveNeutralByContext levels s.sos s.eos) [] s.indices) types
  forSequences isoRuns (fun s => walkBack (resolveNeutralByLevel levels) [] s.indices) types

/-- `resolve`, on the classes that `set_char_types` or `resolve_paragraph` has put into the
context. -/
def BidiContext.resolve (context : BidiContext)
    (lookupClosing : Char → Option (Char × BracketType)) (types : List BidiClass)
    (hint : ParagraphDirectionHint) (paragraph : List Char) : Except Panic BidiContext :=
  let base := Wakterm.Bidi.baseLevel types hint
  (explicitEmbeddingLevels base types context.levels).map fun (levels, charTypes) =>
    let levels := deleteFormatCharacters charTypes levels
    let runs := identifyRuns base charTypes levels
    let isoRuns := identifyIsolatingRunSequences base charTypes levels runs
    let charTypes := resolveClasses lookupClosing types levels paragraph isoRuns charTypes
    { context with
      origCharTypes := types
      levels := resolveImplicitLevels charTypes levels
      baseLevel := base }

def BidiContext.setCharTypes (context : BidiContext)
    (lookupClosing : Char → Option (Char × BracketType)) (charTypes : List BidiClass)
    (hint : ParagraphDirectionHint) : Except Panic BidiContext :=
  context.resolve lookupClosing charTypes hint []

end Wakterm.Bidi
