import Wakterm.Vtparse.Parser

/-!
# The parser is safe

What the tables keep to (`Tame`), what each action keeps (`VTParser.Sound`), and what a byte keeps
(`VTParser.Ready`): that a sequence of UTF-8 is begun only in a state that can take its character,
and that it is over before the parser is in any other state.
-/

namespace Wakterm.Vtparse

open Wakterm.Machine

/-! ## Tables -/

/-- What an entry of a table keeps to. -/
structure Tame (s : State) (i : Nat) (r : Action × State) : Prop where
  utf8 : r.1 = .utf8 ↔ r.2 = .utf8Sequence
  begins : r.1 = .utf8 → (s = .ground ∨ s = .oscString) ∧ lead i = true
  tabled : r.2 ≠ .anywhere
  unhooked : r.1 ≠ .hook ∧ r.1 ≠ .unhook
  put : r.1 = .put → s = .dcsPassthrough ∧ r.2 = s
  passes : r.2 = .dcsPassthrough → s ≠ .ground ∧ s ≠ .oscString

/-- An entry that has nothing to do with UTF-8. -/
def Plain (s : State) (r : Action × State) : Prop :=
  r.1 ≠ .utf8 ∧ r.2 ≠ .utf8Sequence ∧ r.2 ≠ .anywhere ∧ (r.1 ≠ .hook ∧ r.1 ≠ .unhook) ∧
    (r.1 = .put → s = .dcsPassthrough ∧ r.2 = s) ∧
    (r.2 = .dcsPassthrough → s ≠ .ground ∧ s ≠ .oscString)

instance (s : State) (r : Action × State) : Decidable (Plain s r) :=
  inferInstanceAs (Decidable (_ ∧ _))

variable {s : State}

theorem Plain.tame {r : Action × State} (h : Plain s r) (i : Nat) : Tame s i r := by
  obtain ⟨hact, hstate, htabled, hhook, hput, hpass⟩ := h
  exact ⟨⟨fun h => absurd h hact, fun h => absurd h hstate⟩, fun h => absurd h hact, htabled, hhook,
    hput, hpass⟩

theorem tame_lead {i : Nat} (hs : s = .ground ∨ s = .oscString) (hlead : lead i = true) :
    Tame s i (.utf8, .utf8Sequence) where
  utf8 := ⟨fun _ => rfl, fun _ => rfl⟩
  begins := fun _ => ⟨hs, hlead⟩
  tabled := by decide
  unhooked := by decide
  put := fun h => by cases h
  passes := fun h => by cases h

theorem tame_anywhereOr (i : Nat) (h : Plain s (.none, s)) : Tame s i (anywhereOr i s) := by
  unfold anywhereOr
  repeat' split
  all_goals
    refine Plain.tame ?_ i
    revert h
    cases s <;> decide

theorem tame_transitions {table : Nat → Action × State} (h : transitions s = some table) (i : Nat) :
    Tame s i (table i) := by
  cases s
  case anywhere => cases h
  case utf8Sequence => cases h
  all_goals
    cases h
    first
      | unfold ground | unfold escape | unfold escapeIntermediate | unfold csiEntry
      | unfold csiParam | unfold csiIntermediate | unfold csiIgnore | unfold dcsEntry
      | unfold dcsParam | unfold dcsIntermediate | unfold dcsPassthrough | unfold dcsIgnore
      | unfold oscString | unfold sosPmString | unfold apcString
    repeat' split
    all_goals
      first
        | exact tame_anywhereOr i (by decide)
        | exact Plain.tame (by decide) i
        | exact tame_lead (by decide) (by assumption)

theorem lookup_ok (h : s ≠ .anywhere) (h' : s ≠ .utf8Sequence) (byte : UInt8) :
    ∃ act state, VTParser.lookup s byte = .ok (act, state) ∧ Tame s byte.toNat (act, state) := by
  unfold VTParser.lookup
  cases htable : transitions s with
  | some table => exact ⟨_, _, rfl, tame_transitions htable byte.toNat⟩
  | none =>
    cases s <;> first | exact absurd rfl h | exact absurd rfl h' | cases htable

/-! ## Arrays -/

theorem store_ok {α : Type} {array : List α} {i : Nat} (h : i < array.length) (a : α) :
    store array i a = .ok (array.set i a) := if_pos h

theorem slice_ok {α : Type} {array : List α} {n : Nat} (h : n ≤ array.length) :
    slice array n = .ok (array.take n) := if_pos h

theorem integerParams_ok (params : List CsiParam) (i : Nat) (res : List Int)
    (h : i + params.length ≤ res.length) :
    ∃ res', integerParams params i res = .ok res' ∧ res'.length = res.length := by
  induction params generalizing i res with
  | nil => exact ⟨res, rfl, rfl⟩
  | cons param params ih =>
    rw [List.length_cons] at h
    cases param with
    | integer value =>
      obtain ⟨res', h', hlen⟩ := ih i (res.set i value) (by rw [List.length_set]; omega)
      refine ⟨res', ?_, by rw [hlen, List.length_set]⟩
      unfold integerParams
      rw [store_ok (by omega)]
      exact h'
    | p byte =>
      unfold integerParams
      exact ih _ _ (by split <;> omega)

/-! ## OSC strings -/

/-- The offsets of the fields are in order and within the buffer, and the string is within its
limits. -/
structure OscState.Sound (osc : OscState) : Prop where
  size : osc.paramIndices.length = maxOsc
  count : osc.numParams ≤ maxOsc
  empty : osc.numParams = 0 → osc.buffer = []
  sorted : (osc.paramIndices.take (osc.numParams - 1)).Pairwise (· ≤ ·)
  inside : ∀ i ∈ osc.paramIndices.take (osc.numParams - 1), i ≤ osc.buffer.length
  bytes : osc.buffer.length ≤ osc.inputBytes
  limit : osc.inputBytes ≤ maxOscBytes

namespace OscState

variable {osc : OscState}

theorem sound_new : OscState.new.Sound where
  size := List.length_replicate
  count := Nat.zero_le _
  empty := fun _ => rfl
  sorted := .nil
  inside := fun _ h => absurd h List.not_mem_nil
  bytes := Nat.le_refl _
  limit := Nat.zero_le _

theorem Sound.start (h : osc.Sound) : osc.start.Sound where
  size := h.size
  count := Nat.zero_le _
  empty := fun _ => rfl
  sorted := .nil
  inside := fun _ h => absurd h List.not_mem_nil
  bytes := Nat.le_refl _
  limit := Nat.zero_le _

theorem take_set_last {α : Type} {array : List α} {n : Nat} (h : n < array.length) (a : α) :
    (array.set n a).take (n + 1) = array.take n ++ [a] := by
  rw [List.take_succ_eq_append_getElem (by rw [List.length_set]; exact h), List.getElem_set_self,
    List.take_set_of_le (Nat.le_refl n)]

theorem Sound.separate (h : osc.Sound) (hroom : osc.numParams ≠ maxOsc) :
    { osc with
      paramIndices := osc.paramIndices.set (osc.numParams - 1) osc.buffer.length
      numParams := osc.numParams + 1 }.Sound := by
  have hcount := h.count
  have hsize := h.size
  have hbytes := h.bytes
  have hlast : ∀ n, osc.numParams = n + 1 →
      (osc.paramIndices.set (osc.numParams - 1) osc.buffer.length).take osc.numParams =
        osc.paramIndices.take (osc.numParams - 1) ++ [osc.buffer.length] := by
    intro n hn
    rw [hn, Nat.add_sub_cancel, take_set_last (by omega)]
  refine ⟨?_, ?_, ?_, ?_, ?_, h.bytes, h.limit⟩
  · show (osc.paramIndices.set _ _).length = maxOsc
    rw [List.length_set, hsize]
  · show osc.numParams + 1 ≤ maxOsc
    omega
  · intro hzero
    exact absurd hzero (Nat.succ_ne_zero _)
  · show ((osc.paramIndices.set (osc.numParams - 1) osc.buffer.length).take
      osc.numParams).Pairwise (· ≤ ·)
    cases hn : osc.numParams with
    | zero => exact .nil
    | succ n =>
      rw [← hn, hlast n hn, List.pairwise_append]
      refine ⟨h.sorted, List.pairwise_singleton _ _, ?_⟩
      intro i hi j hj
      rw [List.mem_singleton.mp hj]
      exact h.inside i hi
  · show ∀ i ∈ (osc.paramIndices.set (osc.numParams - 1) osc.buffer.length).take
      osc.numParams, i ≤ osc.buffer.length
    intro i hi
    cases hn : osc.numParams with
    | zero =>
      rw [hn] at hi
      exact absurd hi List.not_mem_nil
    | succ n =>
      rw [hlast n hn] at hi
      rcases List.mem_append.mp hi with hi | hi
      · exact h.inside i hi
      · exact Nat.le_of_eq (List.mem_singleton.mp hi)

theorem Sound.extend (h : osc.Sound) {encoded : List UInt8}
    (hbytes : osc.buffer.length + encoded.length ≤ osc.inputBytes) :
    { osc with
      buffer := osc.buffer ++ encoded
      numParams := if osc.numParams = 0 then 1 else osc.numParams }.Sound := by
  have hcount := h.count
  have hone : (if osc.numParams = 0 then 1 else osc.numParams) - 1 = osc.numParams - 1 := by
    split <;> omega
  refine ⟨h.size, ?_, ?_, ?_, ?_, ?_, h.limit⟩
  · show (if osc.numParams = 0 then 1 else osc.numParams) ≤ maxOsc
    split
    · decide
    · exact hcount
  · intro hzero
    have hzero : (if osc.numParams = 0 then 1 else osc.numParams) = 0 := hzero
    split at hzero
    · cases hzero
    · next hne => exact absurd hzero hne
  · show (osc.paramIndices.take ((if osc.numParams = 0 then 1 else osc.numParams) - 1)).Pairwise
      (· ≤ ·)
    rw [hone]
    exact h.sorted
  · show ∀ i ∈ osc.paramIndices.take ((if osc.numParams = 0 then 1 else osc.numParams) - 1),
      i ≤ (osc.buffer ++ encoded).length
    rw [hone, List.length_append]
    intro i hi
    exact Nat.le_trans (h.inside i hi) (Nat.le_add_right _ _)
  · show (osc.buffer ++ encoded).length ≤ osc.inputBytes
    rw [List.length_append]
    exact hbytes

theorem Sound.put (h : osc.Sound) (c : Char) : ∃ osc', osc.put c = .ok osc' ∧ osc'.Sound := by
  have hbytes := h.bytes
  unfold OscState.put
  dsimp only
  split
  · exact ⟨_, rfl, h.size, h.count, h.empty, h.sorted, h.inside, h.bytes, h.limit⟩
  · next hfit =>
    -- what is counted in, before it is stored
    have hcounted : { osc with
        inputBytes := osc.inputBytes + (String.utf8EncodeChar c).length }.Sound :=
      ⟨h.size, h.count, h.empty, h.sorted, h.inside, Nat.le_add_right_of_le hbytes,
        Nat.le_of_not_lt hfit⟩
    split
    · split
      · exact ⟨_, rfl, hcounted.size, hcounted.count, hcounted.empty, hcounted.sorted,
          hcounted.inside, hcounted.bytes, hcounted.limit⟩
      · next hroom =>
        have hcount := h.count
        have hsize := h.size
        rw [store_ok (by omega)]
        exact ⟨_, rfl, hcounted.separate hroom⟩
    · split
      · exact ⟨_, rfl, hcounted.extend (Nat.add_le_add_right hbytes _)⟩
      · exact ⟨_, rfl, hcounted⟩

theorem splitParams_ok {indices : List Nat} (offset : Nat) (slice : List UInt8)
    (hsorted : indices.Pairwise (· ≤ ·)) (hlow : ∀ i ∈ indices, offset ≤ i)
    (hinside : ∀ i ∈ indices, i ≤ offset + slice.length) :
    ∃ params, splitParams indices offset slice = .ok params := by
  induction indices generalizing offset slice with
  | nil => exact ⟨_, rfl⟩
  | cons index indices ih =>
    have hindex := hlow index List.mem_cons_self
    have hin := hinside index List.mem_cons_self
    obtain ⟨hall, hrest⟩ := List.pairwise_cons.mp hsorted
    obtain ⟨params, hparams⟩ := ih index (slice.drop (index - offset)) hrest
      hall (by
        intro i hi
        have hi := hinside i (List.mem_cons_of_mem _ hi)
        rw [List.length_drop]
        omega)
    refine ⟨slice.take (index - offset) :: params, ?_⟩
    unfold splitParams
    rw [if_neg (by omega), if_neg (by omega), hparams]
    rfl

theorem Sound.finish (h : osc.Sound) : ∃ out, osc.finish = .ok out ∧
    (out = [] ∨ ∃ params, out = [.oscDispatch params]) := by
  unfold OscState.finish
  split
  · exact ⟨_, rfl, .inl rfl⟩
  · split
    · exact ⟨_, rfl, .inr ⟨_, rfl⟩⟩
    · have hcount := h.count
      dsimp only
      rw [Nat.min_eq_left hcount, slice_ok (by rw [h.size]; omega)]
      obtain ⟨params, hparams⟩ := splitParams_ok 0 osc.buffer h.sorted
        (fun _ _ => Nat.zero_le _) (by
          intro i hi
          have hi := h.inside i hi
          omega)
      refine ⟨_, ?_, .inr ⟨params, rfl⟩⟩
      show (splitParams _ 0 osc.buffer >>= _) = _
      rw [hparams]
      rfl

end OscState

/-! ## Device control strings -/

/-- Is a hook open at the end, if hooks and unhooks alternate and nothing is put outside them? -/
def dcsScan : Bool → List VTAction → Option Bool
  | hooked, [] => some hooked
  | hooked, .dcsHook _ _ _ _ :: out => if hooked then none else dcsScan true out
  | hooked, .dcsPut _ :: out => if hooked then dcsScan true out else none
  | hooked, .dcsUnhook :: out => if hooked then dcsScan false out else none
  | hooked, _ :: out => dcsScan hooked out

theorem dcsScan_append (hooked : Bool) (out out' : List VTAction) :
    dcsScan hooked (out ++ out') = (dcsScan hooked out).bind fun hooked => dcsScan hooked out' := by
  induction out generalizing hooked with
  | nil => rfl
  | cons a out ih =>
    rw [List.cons_append]
    cases a <;> cases hooked <;> first | rfl | exact ih _

/-- What an action puts out, as far as hooks are concerned. -/
def actionScan : Action → Bool → Option Bool
  | .hook, hooked => if hooked then none else some true
  | .put, hooked => if hooked then some true else none
  | .unhook, hooked => if hooked then some false else none
  | _, hooked => some hooked

/-! ## Actions -/

namespace VTParser

variable {σ : Type} {p p' : VTParser σ}

/-- The arrays have their lengths and are filled within them, and the buffers are within their
limits. -/
structure Sound (p : VTParser σ) : Prop where
  paramsSize : p.params.length = maxParams
  paramsCount : p.numParams ≤ maxParams
  current : ∀ byte, p.currentParam ≠ some (.p byte)
  intermediatesSize : p.intermediates.length = maxIntermediates
  intermediatesCount : p.numIntermediates ≤ maxIntermediates
  osc : p.osc.Sound
  apc : p.apcData.length ≤ maxApcBytes

/-- The actions leave the states alone. -/
structure SameState (p p' : VTParser σ) : Prop where
  state : p'.state = p.state
  utf8Parser : p'.utf8Parser = p.utf8Parser
  utf8ReturnState : p'.utf8ReturnState = p.utf8ReturnState

theorem SameState.refl (p : VTParser σ) : SameState p p := ⟨rfl, rfl, rfl⟩

theorem SameState.trans {p1 p2 p3 : VTParser σ} (h : SameState p1 p2) (h' : SameState p2 p3) :
    SameState p1 p3 :=
  ⟨h'.1.trans h.1, h'.2.trans h.2, h'.3.trans h.3⟩

theorem Sound.pushParam (h : p.Sound) (hroom : p.numParams < maxParams) (param : CsiParam) :
    ∃ p', p.pushParam param = .ok p' ∧ p'.Sound ∧ SameState p p' := by
  unfold VTParser.pushParam
  rw [store_ok (by rw [h.paramsSize]; exact hroom)]
  refine ⟨_, rfl, ⟨?_, hroom, h.current, h.intermediatesSize, h.intermediatesCount, h.osc, h.apc⟩,
    rfl, rfl, rfl⟩
  show (p.params.set _ _).length = maxParams
  rw [List.length_set, h.paramsSize]

theorem Sound.finishParam (h : p.Sound) :
    ∃ p', p.finishParam = .ok p' ∧ p'.Sound ∧ SameState p p' := by
  unfold VTParser.finishParam
  split
  · exact ⟨p, rfl, h, .refl p⟩
  · have hnone : { p with currentParam := none }.Sound :=
      ⟨h.paramsSize, h.paramsCount, fun _ h => (by cases h), h.intermediatesSize,
        h.intermediatesCount, h.osc, h.apc⟩
    dsimp only
    split
    · next hroom =>
      obtain ⟨p', hp', hsound, hsame⟩ := hnone.pushParam hroom _
      exact ⟨p', hp', hsound, hsame.1, hsame.2, hsame.3⟩
    · exact ⟨_, rfl, hnone, rfl, rfl, rfl⟩

theorem Sound.promote (bytes : List UInt8) (h : p.Sound) :
    ∃ p', VTParser.promote bytes p = .ok p' ∧ p'.Sound ∧ SameState p p' := by
  induction bytes generalizing p with
  | nil => exact ⟨p, rfl, h, .refl p⟩
  | cons byte bytes ih =>
    unfold VTParser.promote
    split
    · exact ⟨_, rfl, ⟨h.paramsSize, h.paramsCount, h.current, h.intermediatesSize,
        h.intermediatesCount, h.osc, h.apc⟩, rfl, rfl, rfl⟩
    · next hroom =>
      obtain ⟨p1, h1, hsound1, hsame1⟩ := h.pushParam (Nat.lt_of_not_le hroom) (.p byte)
      obtain ⟨p2, h2, hsound2, hsame2⟩ := ih hsound1
      refine ⟨p2, ?_, hsound2, hsame1.trans hsame2⟩
      rw [h1]
      exact h2

theorem Sound.promoteIntermediatesToParams (h : p.Sound) :
    ∃ p', p.promoteIntermediatesToParams = .ok p' ∧ p'.Sound ∧ SameState p p' := by
  unfold VTParser.promoteIntermediatesToParams
  split
  · rw [slice_ok (by rw [h.intermediatesSize]; exact h.intermediatesCount)]
    obtain ⟨p', hp', hsound, hsame⟩ := h.promote (p.intermediates.take p.numIntermediates)
    refine ⟨{ p' with numIntermediates := 0 }, ?_, ⟨hsound.paramsSize, hsound.paramsCount,
      hsound.current, hsound.intermediatesSize, Nat.zero_le _, hsound.osc, hsound.apc⟩, hsame.1,
      hsame.2, hsame.3⟩
    show (VTParser.promote _ p >>= _) = _
    rw [hp']
    rfl
  · exact ⟨p, rfl, h, .refl p⟩

theorem Sound.asIntegerParams (h : p.Sound) : ∃ params, p.asIntegerParams = .ok params := by
  have hcount := h.paramsCount
  unfold VTParser.asIntegerParams
  rw [slice_ok (by rw [h.paramsSize]; exact hcount)]
  obtain ⟨res, hres, hlen⟩ := integerParams_ok (p.params.take p.numParams) 0
    (List.replicate maxParams 0) (by
      rw [List.length_take, List.length_replicate, Nat.zero_add]
      omega)
  refine ⟨res.take p.numParams, ?_⟩
  show (integerParams _ 0 _ >>= fun res => slice res p.numParams) = _
  rw [hres]
  exact slice_ok (by rw [hlen, List.length_replicate]; exact hcount)

theorem Sound.arguments (h : p.Sound) : ∃ p1 params intermediates, p.finishParam = .ok p1 ∧
    p1.asIntegerParams = .ok params ∧
    slice p1.intermediates p1.numIntermediates = .ok intermediates ∧ p1.Sound ∧ SameState p p1 := by
  obtain ⟨p1, h1, hsound1, hsame1⟩ := h.finishParam
  obtain ⟨params, hparams⟩ := hsound1.asIntegerParams
  exact ⟨p1, params, _, h1, hparams,
    slice_ok (by rw [hsound1.intermediatesSize]; exact hsound1.intermediatesCount), hsound1, hsame1⟩

theorem Sound.clear (h : p.Sound) : p.clear.Sound where
  paramsSize := h.paramsSize
  paramsCount := Nat.zero_le _
  current := fun _ h => by cases h
  intermediatesSize := h.intermediatesSize
  intermediatesCount := Nat.zero_le _
  osc := h.osc.start
  apc := Nat.zero_le _

theorem Sound.collect (h : p.Sound) (byte : UInt8) :
    ∃ p', p.collect byte = .ok p' ∧ p'.Sound ∧ SameState p p' := by
  unfold VTParser.collect
  split
  · next hroom =>
    rw [store_ok (by rw [h.intermediatesSize]; exact hroom)]
    refine ⟨_, rfl, ⟨h.paramsSize, h.paramsCount, h.current, ?_, hroom, h.osc, h.apc⟩, rfl, rfl,
      rfl⟩
    show (p.intermediates.set _ _).length = maxIntermediates
    rw [List.length_set, h.intermediatesSize]
  · exact ⟨_, rfl, ⟨h.paramsSize, h.paramsCount, h.current, h.intermediatesSize,
      h.intermediatesCount, h.osc, h.apc⟩, rfl, rfl, rfl⟩

theorem Sound.param (h : p.Sound) (byte : UInt8) :
    ∃ p', p.param byte = .ok p' ∧ p'.Sound ∧ SameState p p' := by
  unfold VTParser.param
  split
  · exact ⟨p, rfl, h, .refl p⟩
  · obtain ⟨p1, h1, hsound1, hsame1⟩ := h.promoteIntermediatesToParams
    rw [h1, ok_bind]
    have hcurrent : ∀ i, { p1 with currentParam := some (.integer i) }.Sound :=
      fun _ => ⟨hsound1.paramsSize, hsound1.paramsCount, fun _ h => (by cases h),
        hsound1.intermediatesSize, hsound1.intermediatesCount, hsound1.osc, hsound1.apc⟩
    split
    · cases hparam : p1.currentParam with
      | none => exact ⟨_, rfl, hcurrent _, hsame1.1, hsame1.2, hsame1.3⟩
      | some param =>
        cases param with
        | integer i => exact ⟨_, rfl, hcurrent _, hsame1.1, hsame1.2, hsame1.3⟩
        | p byte => exact absurd hparam (hsound1.current byte)
    · obtain ⟨p2, h2, hsound2, hsame2⟩ := hsound1.finishParam
      have hsame := hsame1.trans hsame2
      rw [h2, ok_bind]
      split
      · exact ⟨_, rfl, ⟨hsound2.paramsSize, hsound2.paramsCount, hsound2.current,
          hsound2.intermediatesSize, hsound2.intermediatesCount, hsound2.osc, hsound2.apc⟩, hsame.1,
          hsame.2, hsame.3⟩
      · next hroom =>
        obtain ⟨p3, h3, hsound3, hsame3⟩ := hsound2.pushParam (by omega) (.p byte)
        exact ⟨p3, h3, hsound3, hsame.trans hsame3⟩

/-- **What an action does**: it does not fail, it leaves the states alone, and it hooks and unhooks
only if that is what it is. -/
theorem Sound.action (h : p.Sound) {act : Action} (hact : act ≠ .utf8) (byte : UInt8) :
    ∃ p' out, p.action act byte = .ok (p', out) ∧ p'.Sound ∧ SameState p p' ∧
      ∀ hooked, dcsScan hooked out = actionScan act hooked := by
  cases act with
  | none | ignore | print | execute => exact ⟨_, _, rfl, h, .refl p, fun _ => rfl⟩
  | put | unhook => exact ⟨_, _, rfl, h, .refl p, fun hooked => by cases hooked <;> rfl⟩
  | clear => exact ⟨_, _, rfl, h.clear, ⟨rfl, rfl, rfl⟩, fun _ => rfl⟩
  | collect =>
    obtain ⟨p', hp', hsound, hsame⟩ := h.collect byte
    refine ⟨p', [], ?_, hsound, hsame, fun _ => rfl⟩
    show (p.collect byte >>= _) = _
    rw [hp']
    rfl
  | param =>
    obtain ⟨p', hp', hsound, hsame⟩ := h.param byte
    refine ⟨p', [], ?_, hsound, hsame, fun _ => rfl⟩
    show (p.param byte >>= _) = _
    rw [hp']
    rfl
  | hook =>
    obtain ⟨p1, params, intermediates, h1, hparams, hinter, hsound1, hsame1⟩ := h.arguments
    refine ⟨p1, [.dcsHook params intermediates p1.ignoredExcessIntermediates byte], ?_, hsound1,
      hsame1, fun hooked => by cases hooked <;> rfl⟩
    unfold VTParser.action
    dsimp only
    rw [h1, ok_bind, hparams, ok_bind, hinter, ok_bind]
  | escDispatch =>
    obtain ⟨p1, params, intermediates, h1, hparams, hinter, hsound1, hsame1⟩ := h.arguments
    refine ⟨p1, [.escDispatch params intermediates p1.ignoredExcessIntermediates byte], ?_, hsound1,
      hsame1, fun _ => rfl⟩
    unfold VTParser.action
    dsimp only
    rw [h1, ok_bind, hparams, ok_bind, hinter, ok_bind]
  | csiDispatch =>
    obtain ⟨p1, h1, hsound1, hsame1⟩ := h.finishParam
    obtain ⟨p2, h2, hsound2, hsame2⟩ := hsound1.promoteIntermediatesToParams
    refine ⟨p2, [.csiDispatch (p2.params.take p2.numParams) p2.ignoredExcessIntermediates byte], ?_,
      hsound2, hsame1.trans hsame2, fun _ => rfl⟩
    unfold VTParser.action
    dsimp only
    rw [h1, ok_bind, h2, ok_bind,
      slice_ok (by rw [hsound2.paramsSize]; exact hsound2.paramsCount), ok_bind]
  | oscStart =>
    exact ⟨_, _, rfl, ⟨h.paramsSize, h.paramsCount, h.current, h.intermediatesSize,
      h.intermediatesCount, h.osc.start, h.apc⟩, ⟨rfl, rfl, rfl⟩, fun _ => rfl⟩
  | oscPut =>
    obtain ⟨osc, hosc, hsound⟩ := h.osc.put (Char.ofNat byte.toNat)
    refine ⟨{ p with osc := osc }, [], ?_, ⟨h.paramsSize, h.paramsCount, h.current,
      h.intermediatesSize, h.intermediatesCount, hsound, h.apc⟩, ⟨rfl, rfl, rfl⟩, fun _ => rfl⟩
    show (p.osc.put _ >>= _) = _
    rw [hosc]
    rfl
  | oscEnd =>
    obtain ⟨out, hout, hkind⟩ := h.osc.finish
    refine ⟨p, out, ?_, h, .refl p, ?_⟩
    · show (p.osc.finish >>= _) = _
      rw [hout]
      rfl
    · intro hooked
      rcases hkind with rfl | ⟨params, rfl⟩ <;> rfl
  | apcStart =>
    exact ⟨_, _, rfl, ⟨h.paramsSize, h.paramsCount, h.current, h.intermediatesSize,
      h.intermediatesCount, h.osc, Nat.zero_le _⟩, ⟨rfl, rfl, rfl⟩, fun _ => rfl⟩
  | apcPut =>
    unfold VTParser.action
    dsimp only
    split
    · next hroom =>
      refine ⟨_, _, rfl, ⟨h.paramsSize, h.paramsCount, h.current, h.intermediatesSize,
        h.intermediatesCount, h.osc, ?_⟩, ⟨rfl, rfl, rfl⟩, fun _ => rfl⟩
      show (p.apcData ++ [byte]).length ≤ maxApcBytes
      rw [List.length_append, List.length_singleton]
      exact hroom
    · exact ⟨_, _, rfl, ⟨h.paramsSize, h.paramsCount, h.current, h.intermediatesSize,
        h.intermediatesCount, h.osc, h.apc⟩, ⟨rfl, rfl, rfl⟩, fun _ => rfl⟩
  | apcEnd =>
    have hempty : { p with apcData := [] }.Sound := ⟨h.paramsSize, h.paramsCount, h.current,
      h.intermediatesSize, h.intermediatesCount, h.osc, Nat.zero_le _⟩
    unfold VTParser.action
    dsimp only
    split
    · exact ⟨_, _, rfl, hempty, ⟨rfl, rfl, rfl⟩, fun _ => rfl⟩
    · exact ⟨_, _, rfl, hempty, ⟨rfl, rfl, rfl⟩, fun _ => rfl⟩
  | utf8 => exact absurd rfl hact

end VTParser

/-! ## Bytes -/

/-- What is relied on: a byte that begins a sequence of several bytes does not end one, and after
each report the decoder begins anew. -/
structure Utf8Parser.Regular {σ : Type} (utf8 : Utf8Parser σ) : Prop where
  more : ∀ byte : UInt8, lead byte.toNat = true → (utf8.advance utf8.new byte).2 = none
  anew : ∀ s byte s' report, utf8.advance s byte = (s', some report) → s' = utf8.new

namespace VTParser

variable {σ : Type} {utf8 : Utf8Parser σ} {p : VTParser σ}

/-- What holds between two bytes. -/
structure Ready (utf8 : Utf8Parser σ) (p : VTParser σ) : Prop extends p.Sound where
  tabled : p.state ≠ .anywhere
  returns : p.state = .utf8Sequence → p.utf8ReturnState = .ground ∨ p.utf8ReturnState = .oscString
  idle : p.state ≠ .utf8Sequence → p.utf8Parser = utf8.new

/-- Is a device control string being passed through? -/
def hooked (p : VTParser σ) : Bool := p.state = .dcsPassthrough

theorem ready_new (utf8 : Utf8Parser σ) : (VTParser.new utf8).Ready utf8 where
  paramsSize := List.length_replicate
  paramsCount := Nat.zero_le _
  current := fun _ h => by cases h
  intermediatesSize := List.length_replicate
  intermediatesCount := Nat.zero_le _
  osc := OscState.sound_new
  apc := Nat.zero_le _
  tabled := fun h => by cases h
  returns := fun h => by cases h
  idle := fun _ => rfl

theorem Sound.setState (h : p.Sound) (state ret : State) :
    { p with utf8ReturnState := ret, state := state }.Sound :=
  ⟨h.paramsSize, h.paramsCount, h.current, h.intermediatesSize, h.intermediatesCount, h.osc, h.apc⟩

theorem Sound.shift (h : p.Sound) (start state : State) {act : Action}
    (hutf8 : act ≠ .utf8) (hhook : act ≠ .hook ∧ act ≠ .unhook) (hput : act ≠ .put)
    (byte byte' : UInt8) : ∃ p' out, (andThen (p.action (lookupExit start) 0) fun p =>
        andThen (p.action act byte) fun p => andThen (p.action (lookupEntry state) byte') fun p =>
        .ok ({ p with utf8ReturnState := p.state, state := state }, [])) = .ok (p', out) ∧
      p'.Sound ∧ p'.state = state ∧ p'.utf8Parser = p.utf8Parser ∧ p'.utf8ReturnState = p.state ∧
      dcsScan (start = .dcsPassthrough) out = some (decide (state = .dcsPassthrough)) := by
  obtain ⟨p1, out1, h1, hsound1, hsame1, hscan1⟩ :=
    h.action (show lookupExit start ≠ .utf8 by cases start <;> decide) 0
  obtain ⟨p2, out2, h2, hsound2, hsame2, hscan2⟩ := hsound1.action hutf8 byte
  obtain ⟨p3, out3, h3, hsound3, hsame3, hscan3⟩ :=
    hsound2.action (show lookupEntry state ≠ .utf8 by cases state <;> decide) byte'
  have hsame := (hsame1.trans hsame2).trans hsame3
  refine ⟨_, _, andThen_eq_ok h1 (andThen_eq_ok h2 (andThen_eq_ok h3 rfl)),
    hsound3.setState state p3.state, rfl, hsame.utf8Parser, hsame.state, ?_⟩
  have hleft : dcsScan (start = .dcsPassthrough) out1 = some false := by
    rw [hscan1]
    cases start <;> rfl
  have hdone : dcsScan false out2 = some false := by
    rw [hscan2]
    cases act <;> first | rfl | exact absurd rfl hhook.1 | exact absurd rfl hhook.2 |
      exact absurd rfl hput
  have hentered : dcsScan false out3 = some (decide (state = .dcsPassthrough)) := by
    rw [hscan3]
    cases state <;> rfl
  rw [dcsScan_append, hleft, Option.bind_some, dcsScan_append, hdone, Option.bind_some,
    dcsScan_append, hentered]
  rfl

theorem Sound.accumulate (h : p.Sound)
    (hreturn : p.utf8ReturnState = .ground ∨ p.utf8ReturnState = .oscString)
    (hidle : p.utf8Parser = utf8.new) (c : Char) :
    ∃ p' out, p.accumulate c = .ok (p', out) ∧ p'.Ready utf8 ∧ dcsScan false out = some p'.hooked := by
  unfold VTParser.accumulate
  rcases hreturn with hr | hr
  · rw [hr]
    exact ⟨_, _, rfl, ⟨h.setState .ground _, fun h => (by cases h), fun h => (by cases h),
      fun _ => hidle⟩, rfl⟩
  · obtain ⟨osc, hosc, hsound⟩ := h.osc.put c
    rw [hr]
    dsimp only
    rw [hosc, ok_bind]
    exact ⟨_, _, rfl, ⟨⟨h.paramsSize, h.paramsCount, h.current, h.intermediatesSize,
      h.intermediatesCount, hsound, h.apc⟩, fun h => (by cases h), fun h => (by cases h),
      fun _ => hidle⟩, rfl⟩

theorem Sound.decoded (h : p.Sound)
    (hreturn : p.utf8ReturnState = .ground ∨ p.utf8ReturnState = .oscString)
    (hidle : p.utf8Parser = utf8.new) (c : Char) :
    ∃ p' out, p.decoded c = .ok (p', out) ∧ p'.Ready utf8 ∧ dcsScan false out = some p'.hooked := by
  unfold VTParser.decoded
  split
  · have hr : p.utf8ReturnState ≠ .anywhere ∧ p.utf8ReturnState ≠ .utf8Sequence ∧
        p.utf8ReturnState ≠ .dcsPassthrough := by
      rcases hreturn with hr | hr <;> rw [hr] <;> decide
    obtain ⟨act, state, hlookup, htame⟩ := lookup_ok hr.1 hr.2.1 (UInt8.ofNat c.toNat)
    dsimp only
    rw [hlookup, ok_bind]
    dsimp only
    split
    · next hcontrol =>
      have hnot : state ≠ .utf8Sequence := by
        intro hs
        rcases hcontrol with rfl | ⟨-, hne⟩
        · cases htame.utf8.mpr hs
        · exact hne hs
      have hput : act ≠ .put := fun hact => hr.2.2 (htame.put hact).1
      obtain ⟨p', out, hp', hsound, hstate, hutf8, -, hscan⟩ :=
        h.shift p.utf8ReturnState state
          (fun hact => hnot (htame.utf8.mp hact)) htame.unhooked hput (UInt8.ofNat c.toNat) 0
      refine ⟨p', out, hp', ⟨hsound, ?_, ?_, ?_⟩, ?_⟩
      · rw [hstate]
        exact htame.tabled
      · intro hs
        exact absurd (hstate.symm.trans hs) hnot
      · intro _
        rw [hutf8, hidle]
      · rw [decide_eq_false hr.2.2] at hscan
        rw [hscan]
        unfold hooked
        rw [hstate]
    · exact h.accumulate hreturn hidle c
  · exact h.accumulate hreturn hidle c

variable {byte : UInt8}

theorem nextUtf8_more (hnone : (utf8.advance p.utf8Parser byte).2 = none) : p.nextUtf8 utf8 byte =
      .ok ({ p with utf8Parser := (utf8.advance p.utf8Parser byte).1 }, []) := by
  unfold VTParser.nextUtf8
  cases hadvance : utf8.advance p.utf8Parser byte with
  | mk s report =>
    rw [hadvance] at hnone
    obtain rfl : report = none := hnone
    rfl

theorem nextUtf8_reports {s : σ} {report : Utf8Report}
    (h : utf8.advance p.utf8Parser byte = (s, some report)) :
    p.nextUtf8 utf8 byte = { p with utf8Parser := s }.decoded report.decoded := by
  unfold VTParser.nextUtf8
  rw [h]

theorem parseByte_begins (hstate : p.state ≠ .utf8Sequence)
    (hlookup : lookup p.state byte = .ok (.utf8, .utf8Sequence))
    (hnone : (utf8.advance p.utf8Parser byte).2 = none) :
    p.parseByte utf8 byte =
      .ok ({ p with
        utf8Parser := (utf8.advance p.utf8Parser byte).1
        utf8ReturnState := p.state
        state := .utf8Sequence }, []) := by
  unfold VTParser.parseByte
  rw [if_neg hstate, hlookup, ok_bind]
  dsimp only
  rw [if_pos (Ne.symm hstate), if_neg (not_not.mpr rfl)]
  exact andThen_eq_ok rfl (andThen_eq_ok ((if_pos rfl).trans (nextUtf8_more hnone))
    (andThen_eq_ok rfl rfl))

theorem parseByte_shifts (hstate : p.state ≠ .utf8Sequence) {act : Action} {state : State}
    (hlookup : lookup p.state byte = .ok (act, state)) (hact : act ≠ .utf8)
    (hnot : state ≠ .utf8Sequence) (hmoves : state ≠ p.state) : p.parseByte utf8 byte =
      andThen (p.action (lookupExit p.state) 0) fun p => andThen (p.action act byte) fun p =>
        andThen (p.action (lookupEntry state) byte) fun p =>
        .ok ({ p with utf8ReturnState := p.state, state := state }, []) := by
  unfold VTParser.parseByte
  rw [if_neg hstate, hlookup, ok_bind]
  dsimp only
  rw [if_pos hmoves, if_pos hnot]
  simp only [if_neg hact]

theorem parseByte_stays (hstate : p.state ≠ .utf8Sequence) {act : Action}
    (hlookup : lookup p.state byte = .ok (act, p.state)) (hact : act ≠ .utf8) :
    p.parseByte utf8 byte = p.action act byte := by
  unfold VTParser.parseByte
  rw [if_neg hstate, hlookup, ok_bind]
  dsimp only
  rw [if_neg (not_not.mpr rfl), if_neg hact]

/-- What a byte can be: it belongs to a sequence of UTF-8, it begins one, the state is left for
another one, or it stays. -/
inductive ByteCase (utf8 : Utf8Parser σ) (p : VTParser σ) (byte : UInt8) : Prop
  | within (hstate : p.state = .utf8Sequence)
  | begins (hstate : p.state ≠ .utf8Sequence) (hfrom : p.state = .ground ∨ p.state = .oscString)
      (hlookup : lookup p.state byte = .ok (.utf8, .utf8Sequence))
      (hnone : (utf8.advance p.utf8Parser byte).2 = none)
  | shifts (act : Action) (state : State) (hstate : p.state ≠ .utf8Sequence)
      (hlookup : lookup p.state byte = .ok (act, state))
      (htame : Tame p.state byte.toNat (act, state)) (hact : act ≠ .utf8)
      (hnot : state ≠ .utf8Sequence) (hmoves : state ≠ p.state)
  | stays (act : Action) (hstate : p.state ≠ .utf8Sequence)
      (hlookup : lookup p.state byte = .ok (act, p.state))
      (htame : Tame p.state byte.toNat (act, p.state)) (hact : act ≠ .utf8)

theorem Ready.byteCase (h : p.Ready utf8) (hutf8 : utf8.Regular) (byte : UInt8) :
    ByteCase utf8 p byte := by
  by_cases hstate : p.state = .utf8Sequence
  · exact .within hstate
  · obtain ⟨act, state, hlookup, htame⟩ := lookup_ok h.tabled hstate byte
    by_cases hact : act = .utf8
    · subst hact
      obtain rfl : state = .utf8Sequence := htame.utf8.mp rfl
      obtain ⟨hfrom, hlead⟩ := htame.begins rfl
      have hnone := hutf8.more byte hlead
      rw [← h.idle hstate] at hnone
      exact .begins hstate hfrom hlookup hnone
    · have hnot : state ≠ .utf8Sequence := fun hs => hact (htame.utf8.mpr hs)
      by_cases hmoves : state = p.state
      · subst hmoves
        exact .stays act hstate hlookup htame hact
      · exact .shifts act state hstate hlookup htame hact hnot hmoves

theorem Ready.nextUtf8 (h : p.Ready utf8) (hutf8 : utf8.Regular) (hstate : p.state = .utf8Sequence)
    (byte : UInt8) : ∃ p' out, p.nextUtf8 utf8 byte = .ok (p', out) ∧ p'.Ready utf8 ∧
      dcsScan p.hooked out = some p'.hooked := by
  have hhooked : p.hooked = false := by
    unfold hooked
    rw [hstate]
    rfl
  have hsound : ∀ s : σ, Sound { p with utf8Parser := s } := fun _ =>
    ⟨h.paramsSize, h.paramsCount, h.current, h.intermediatesSize, h.intermediatesCount, h.osc, h.apc⟩
  unfold VTParser.nextUtf8
  cases hadvance : utf8.advance p.utf8Parser byte with
  | mk s report =>
    cases report with
    | none =>
      refine ⟨_, [], rfl, ⟨hsound s, h.tabled, h.returns, ?_⟩, ?_⟩
      · intro hs
        exact absurd hstate hs
      · rfl
    | some report =>
      rw [hhooked]
      exact (hsound s).decoded (h.returns hstate) (hutf8.anew _ _ _ _ hadvance) report.decoded

/-- **One byte**: nothing fails, and the hooks alternate. -/
theorem Ready.parseByte (h : p.Ready utf8) (hutf8 : utf8.Regular) (byte : UInt8) :
    ∃ p' out, p.parseByte utf8 byte = .ok (p', out) ∧ p'.Ready utf8 ∧
      dcsScan p.hooked out = some p'.hooked := by
  cases h.byteCase hutf8 byte with
  | within hstate =>
    rw [VTParser.parseByte, if_pos hstate]
    exact h.nextUtf8 hutf8 hstate byte
  | begins hstate hfrom hlookup hnone =>
    refine ⟨_, _, parseByte_begins hstate hlookup hnone, ⟨?_, ?_, ?_, ?_⟩, ?_⟩
    · exact ⟨h.paramsSize, h.paramsCount, h.current, h.intermediatesSize, h.intermediatesCount,
        h.osc, h.apc⟩
    · intro hs
      cases hs
    · intro _
      exact hfrom
    · intro hs
      exact absurd rfl hs
    · unfold hooked
      rcases hfrom with hs | hs <;> rw [hs] <;> rfl
  | shifts act state hstate hlookup htame hact hnot hmoves =>
    have hput : act ≠ .put := fun hp => hmoves (htame.put hp).2
    obtain ⟨p', out, hp', hsound, hstate', hparser, -, hscan⟩ :=
      h.toSound.shift p.state state hact htame.unhooked hput byte byte
    refine ⟨p', out, (parseByte_shifts hstate hlookup hact hnot hmoves).trans hp',
      ⟨hsound, ?_, ?_, ?_⟩, ?_⟩
    · rw [hstate']
      exact htame.tabled
    · intro hs
      exact absurd (hstate'.symm.trans hs) hnot
    · intro _
      rw [hparser, h.idle hstate]
    · show dcsScan (decide _) out = some (decide _)
      rw [hscan, hstate']
  | stays act hstate hlookup htame hact =>
    obtain ⟨p', out, hp', hsound, hsame, hscan⟩ := h.toSound.action hact byte
    refine ⟨p', out, (parseByte_stays hstate hlookup hact).trans hp',
      ⟨hsound, ?_, ?_, ?_⟩, ?_⟩
    · rw [hsame.state]
      exact h.tabled
    · rw [hsame.state, hsame.utf8ReturnState]
      exact h.returns
    · rw [hsame.state, hsame.utf8Parser]
      exact h.idle
    · have hsamehooked : p'.hooked = p.hooked := by
        unfold hooked
        rw [hsame.state]
      rw [hscan, hsamehooked]
      by_cases hput : act = .put
      · have hpass : p.hooked = true := decide_eq_true (htame.put hput).1
        rw [hput, hpass]
        rfl
      · cases act <;> first | rfl | exact absurd rfl hput | exact absurd rfl htame.unhooked.1 |
          exact absurd rfl htame.unhooked.2

/-- **Any number of bytes, in any number of parts.** -/
theorem Ready.parse (h : p.Ready utf8) (hutf8 : utf8.Regular) (bytes : List UInt8) :
    ∃ p' out, p.parse utf8 bytes = .ok (p', out) ∧ p'.Ready utf8 ∧
      dcsScan p.hooked out = some p'.hooked :=
  feed_invariant (Ready utf8) hooked dcsScan (fun _ => rfl)
    dcsScan_append (fun _ byte h => h.parseByte hutf8 byte) h bytes

end VTParser

end Wakterm.Vtparse
