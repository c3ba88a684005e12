import Wakterm.Bidi.Logic.Explicit
import Wakterm.Bidi.Logic.Reorder

/-!
# The levels of a paragraph

The stack of the `bidi` crate has room for `MAX_DEPTH` entries.
-/

namespace Wakterm.Bidi.Theorems.BidiLevels

open Uax9

/-- What the code counts as valid it stores, no top is looked for on an empty stack, and the levels
of what is not removed are those of the rules. -/
structure Prescribed (base : Level) (types : List BidiClass) (prior : List Level) : Prop where
  stored : ∀ (s s' : Explicit) (bc : BidiClass) (rest : List BidiClass) (top status : Status)
    (below : List Status) (out : Option Level × BidiClass),
    Explicit.Reaches base types s (bc :: rest) → s.accepts = true → s.stack = top :: below →
      Explicit.asked top rest bc = some status → s.step base bc rest = .ok (s', out) →
        s'.stack = status :: s.stack
  levels : ∃ levels classes, explicitEmbeddingLevels base types prior = .ok (levels, classes) ∧
    ∀ (i : Nat) (bc : BidiClass), types[i]? = some bc → bc.isRemoved = false →
      (deleteFormatCharacters classes levels)[i]?.map some =
        (Context.levels base (.start base) types)[i]?

/-- The code gives a paragraph the levels of the rules if and only if the stack of the rules never
has more entries in it than `MAX_DEPTH`. -/
theorem levels_prescribed (types : List BidiClass) (hint : ParagraphDirectionHint)
    (prior : List Level) : Prescribed (baseLevel types hint) types prior ↔
      ∀ c ∈ Context.all (.start (baseLevel types hint)) types, c.depth ≤ maxDepth := by
  have hbase := baseLevel_nonneg types hint
  have hwf := start_wf hbase
  constructor
  · -- the first context that is too deep shows in the stack
    intro h
    by_contra hdeep
    simp only [not_forall, Nat.not_le, exists_prop] at hdeep
    have hstart : (Context.start (baseLevel types hint)).depth ≤ maxDepth := by
      show 1 ≤ 125
      omega
    obtain ⟨s, s', bc, rest, top, status, below, out, hreach, haccepts, hstack, hasked, hstep,
      hsame⟩ := dropped_of_deep types hwf hstart .start hdeep
    have hstored := h.stored s s' bc rest top status below out hreach haccepts hstack hasked hstep
    rw [hsame] at hstored
    have hlen := congrArg List.length hstored
    simp at hlen
  · intro hroom
    refine ⟨?_, ?_⟩
    · intro s s' bc rest top status below out hreach haccepts hstack hasked hstep
      obtain ⟨c, rfl, hc, hsub⟩ := context_of_reaches hbase hroom hreach
      have htop : c.top = top := (List.cons.inj hstack).1
      rw [← htop] at hasked
      obtain ⟨hopened, hvalid⟩ := (valid_iff_asked hc).2 ⟨haccepts, hasked⟩
      obtain ⟨s'', out', hstep', hpush⟩ :=
        step_asked (baseLevel types hint) (show c.code.stack = _ from rfl) haccepts hasked
      rw [hstep] at hstep'
      simp only [Except.ok.injEq, Prod.mk.injEq] at hstep'
      obtain ⟨rfl, -⟩ := hstep'
      -- the context after it is one of the paragraph
      have hdepth : (c.after bc rest).depth ≤ maxDepth := by
        apply hroom
        apply hsub
        apply List.mem_cons_of_mem
        cases rest <;> exact List.mem_cons_self
      rw [depth_of_valid hopened hvalid] at hdepth
      rw [hpush]
      exact if_pos hdepth
    · obtain ⟨out, hrun, hlevels, hkept⟩ :=
        run_code (baseLevel types hint) types hwf hroom
      have hlen : (resizeLevels prior types.length).length = types.length := by
        simp only [resizeLevels, List.length_append, List.length_take, List.length_replicate]
        omega
      refine ⟨List.zipWith (fun old new => new.1.getD old) (resizeLevels prior types.length) out,
        out.map Prod.snd, ?_, fun i bc hi hbc => ?_⟩
      · unfold explicitEmbeddingLevels
        rw [show Explicit.start (baseLevel types hint) = (Context.start (baseLevel types hint)).code
          from rfl, hrun]
        rfl
      · rw [← hlevels]
        apply kept_level hkept hlen hi hbc
        intro new hnew
        have hat : (out.map Prod.fst)[i]? = some new.1 := by simp [hnew]
        rw [hlevels] at hat
        exact levels_isSome hi hbc new.1 hat

/-- Every level up to `MAX_DEPTH`, and then an isolate that is closed. -/
def deep : List BidiClass :=
  (List.replicate 62 [.rightToLeftEmbedding, .leftToRightEmbedding]).flatten ++
    [.rightToLeftIsolate, .popDirectionalIsolate]

set_option maxRecDepth 20000 in
/-- The isolate is not stored, and what closes it empties the stack. -/
theorem isolate_not_stored :
    explicitEmbeddingLevels (baseLevel deep .leftToRight) deep [] = .error .arithmetic ∧
      ¬ Prescribed (baseLevel deep .leftToRight) deep [] := by
  have hpanic : explicitEmbeddingLevels (baseLevel deep .leftToRight) deep [] =
      .error .arithmetic := by decide
  refine ⟨hpanic, fun h => ?_⟩
  obtain ⟨levels, classes, hok, -⟩ := h.levels
  rw [hpanic] at hok
  exact absurd hok (by simp)

end Wakterm.Bidi.Theorems.BidiLevels

/-!
## Theorem: reordering a line

`reorder_line` after `resolve`: the indices of the characters that are not removed, each of them
once, in the order of rule L2 unless L3 is asked for.
-/

namespace Wakterm.Bidi.Theorems.BidiReorder

/-- `reorder_line` gives an order of the line, and without L3 that of rule L2. -/
def Reorders (context : BidiContext) (start stop : Nat) : Prop :=
  ∃ line levels indices, context.resetWhitespaceLevels start stop = .ok line ∧
    context.reorderLine start stop = .ok (levels, indices) ∧
    indices.Perm (lineIndices context.origCharTypes start stop) ∧
    (context.reorderNsm = false → indices = Uax9.visualOrder (Uax9.lineChars line start))

/-- The condition, on the levels of the line by rule L1: with L3 it does not begin with two marks of
one level from right to left, and without it there is an odd level, or no two neighbours are deeper
than `MAX_DEPTH`. -/
def Meets (context : BidiContext) (start stop : Nat) : Prop :=
  ∀ line, context.resetWhitespaceLevels start stop = .ok line →
    if context.reorderNsm then ¬MarkLine.BeginsWithMarks ⟨context.origCharTypes, line, start⟩
    else Orderly (Uax9.lineChars line start)

/-- **A line is reordered** if and only if it meets the condition, whatever the classes, the hint and
the brackets of the paragraph. -/
theorem reorders_iff (prior context : BidiContext)
    (lookupClosing : Char → Option (Char × BracketType)) (types : List BidiClass)
    (hint : ParagraphDirectionHint) (paragraph : List Char) (start stop : Nat)
    (hresolve : prior.resolve lookupClosing types hint paragraph = .ok context)
    (hstart : start ≤ stop) (hstop : stop ≤ types.length) :
    Reorders context start stop ↔ Meets context start stop := by
  obtain ⟨hwf, horig, -⟩ := resolve_spec hresolve
  obtain ⟨line, hline, hfits⟩ := resetWhitespaceLevels_spec hwf hstart (horig ▸ hstop)
  have hlevels := fits_resolved hfits
  have hindices : (Uax9.lineChars line start).map Prod.snd =
      lineIndices context.origCharTypes start stop := lineChars_indices hfits start
  have hrun : context.reorderLine start stop = context.reverseLevels start line := by
    unfold BidiContext.reorderLine
    rw [hline]
    rfl
  have hmarks := markLine_fits hfits
  unfold Meets Reorders
  rw [hline, hrun]
  constructor
  · rintro ⟨line', levels, indices, hline', hreverse, -, horder⟩ other hother
    cases hline'
    cases hother
    cases hnsm : context.reorderNsm with
    | true =>
      rw [if_pos rfl]
      intro hbegins
      rw [reverseLevels_panics hnsm hmarks hbegins] at hreverse
      exact absurd hreverse (by simp)
    | false =>
      rw [if_neg (by simp)]
      rw [reverseLevels_off hnsm hlevels] at hreverse
      obtain ⟨-, rfl⟩ := Prod.mk.inj (Except.ok.inj hreverse)
      exact (passes_eq_visualOrder_iff hlevels).mp (horder hnsm)
  · intro hmeets
    have hcondition := hmeets line rfl
    cases hnsm : context.reorderNsm with
    | true =>
      rw [hnsm, if_pos rfl] at hcondition
      obtain ⟨levels, indices, hreverse, hperm⟩ := reverseLevels_on hnsm hmarks hcondition
      exact ⟨line, levels, indices, rfl, hreverse, hindices ▸ hperm, by simp⟩
    | false =>
      rw [hnsm, if_neg (by simp)] at hcondition
      have horder := (passes_eq_visualOrder_iff hlevels).mpr hcondition
      refine ⟨line, line, _, rfl, reverseLevels_off hnsm hlevels, ?_, fun _ => horder⟩
      rw [← hindices, ← filterMap_initialVisual,
        ← reversePasses_eq start line _ (lowest_nonneg hlevels)]
      exact (reversePasses_perm _ _ _ _).filterMap id

/-- A context that nothing has been resolved in. -/
def fresh (reorderNsm : Bool) : BidiContext := ⟨[], [], ⟨0⟩, reorderNsm⟩

/-- A letter from right to left, its mark, and a letter from left to right. -/
theorem reorders_mark :
    Reorders ⟨[.rightToLeft, .nonspacingMark, .leftToRight], [⟨1⟩, ⟨1⟩, ⟨0⟩], ⟨0⟩, true⟩ 0 3 := by
  have hresolve : (fresh true).resolve (fun _ => none)
      [.rightToLeft, .nonspacingMark, .leftToRight] .leftToRight [] =
        .ok ⟨[.rightToLeft, .nonspacingMark, .leftToRight], [⟨1⟩, ⟨1⟩, ⟨0⟩], ⟨0⟩, true⟩ := by
    decide +kernel
  refine (reorders_iff _ _ _ _ _ _ 0 3 hresolve (by decide) (by decide)).mpr fun line _ => ?_
  show ¬MarkLine.BeginsWithMarks _
  rintro ⟨level, j, -, -, ⟨-, hmark⟩, -⟩
  exact absurd hmark (by simp)

def embeddedDigits : List BidiClass :=
  List.replicate 62 .leftToRightEmbedding ++ [.arabicNumber, .arabicNumber]

/-- The two digits come out reversed, and two marks at the start of a line are a panic. -/
theorem digits_reversed :
    ((fresh false).setCharTypes (fun _ => none) embeddedDigits .leftToRight).bind
        (fun context => context.reorderLine 62 64) = .ok ([⟨126⟩, ⟨126⟩], [63, 62]) ∧
      Uax9.visualOrder [(⟨126⟩, 62), (⟨126⟩, 63)] = [62, 63] ∧
      ((fresh true).setCharTypes (fun _ => none) [.nonspacingMark, .nonspacingMark]
        .rightToLeft).bind (fun context => context.reorderLine 0 2) = .error .arithmetic := by
  refine ⟨?_, ?_, ?_⟩
  · decide +kernel
  · decide +kernel
  · rfl

end Wakterm.Bidi.Theorems.BidiReorder
