import Wakterm.Theorems.VtParser
import Wakterm.Vtparse.Logic.DcsParams
import Wakterm.Vtparse.Logic.Introducers
import Wakterm.Vtparse.Logic.Resync

/-!
# The spellings of an introducer

DCS, SOS, CSI, OSC, PM and APC may each be written as a C1 control, as that control in UTF-8, or as
ESC and a byte of ASCII.
-/

namespace Wakterm.Theorems.Introducers

open Wakterm.Machine Wakterm.Vtparse

/-- The control as one byte, and in UTF-8. -/
def spellings (b : UInt8) : List (List UInt8) := [[b], String.utf8EncodeChar (Char.ofNat b.toNat)]

/-- The calls on the actor. -/
def told {σ : Type} (utf8 : Utf8Parser σ) (p : VTParser σ) (bytes : List UInt8) :
    Except Fault (List VTAction) :=
  (p.parse utf8 bytes).map Prod.snd

/-- **The spellings come to the same, whatever follows**: exactly if it is not APC, or if no string
of data is told for APC either, since none ends, or since it is too long. -/
theorem spellings_alike_iff {σ : Type} {utf8 : Utf8Parser σ} (hutf8 : utf8.Regular)
    {before : List UInt8} {p : VTParser σ} {out : List VTAction}
    (hrun : (VTParser.new utf8).parse utf8 before = .ok (p, out)) (hground : p.state = .ground)
    {b : UInt8} (hb : b ∈ c1Introducers) (hdecodes : utf8.Decodes (Char.ofNat b.toNat))
    {spelling : List UInt8} (hspelling : spelling ∈ spellings b) (x : List UInt8) :
    told utf8 p (spelling ++ x) = told utf8 p ([0x1b, b - 0x40] ++ x) ↔
      b ≠ 0x9f ∨ (∀ byte ∈ x, ender byte.toNat = false) ∨ maxApcBytes < dataBytes x := by
  have hp := (VTParser.ready_new utf8).of_parse hutf8 hrun
  obtain ⟨q8, hbare8, hparse8⟩ : ∃ q, VTParser.Bare p q ∧
      p.parse utf8 spelling = q.enter (introducedBy b) := by
    rcases List.mem_pair.mp hspelling with rfl | rfl
    · exact ⟨p, .refl p, VTParser.parse_introduced utf8 hground hb⟩
    · exact hp.parse_encoded hground hb hdecodes
  obtain ⟨q7, hbare7, hparse7⟩ := VTParser.parse_escaped utf8 hground hb
  have hready8 : ∀ q' out, q8.enter (introducedBy b) = .ok (q', out) → q'.Ready utf8 :=
    fun q' out henter => hp.of_parse hutf8 (hparse8.trans henter)
  have hready7 : ∀ q' out, q7.enter (escapedBy b) = .ok (q', out) → q'.Ready utf8 :=
    fun q' out henter => hp.of_parse hutf8 (hparse7.trans henter)
  unfold told
  rw [VTParser.parse_append, VTParser.parse_append, hparse8, hparse7]
  have hspelled := escapedBy_eq b hb
  by_cases hapc : b = 0x9f
  · rw [if_pos hapc] at hspelled
    obtain ⟨hsos, hapcString⟩ := hspelled
    rw [hsos] at hready8 ⊢
    rw [hapcString] at hready7 ⊢
    let r8 : VTParser σ := { q8 with utf8ReturnState := q8.state, state := .sosPmString }
    let r7 : VTParser σ :=
      { q7 with
        apcData := []
        apcDataTruncated := false
        utf8ReturnState := q7.state
        state := .apcString }
    have henter8 : q8.enter .sosPmString = .ok (r8, []) := rfl
    have henter7 : q7.enter .apcString = .ok (r7, []) := rfl
    have hinApc : r7.InApc 0 := ⟨rfl, rfl, rfl⟩
    have hbare : VTParser.Bare r7 r8 :=
      have h := hbare7.between hbare8
      ⟨h.params, h.intermediates, h.paramIndices, h.utf8Parser, False.elim, False.elim, False.elim⟩
    obtain ⟨data, rest, htold7, htold8, hdata⟩ :=
      hinApc.parse rfl hbare (hready7 _ _ henter7) (hready8 _ _ henter8) hutf8 x
    rw [henter8, henter7, andThen_nothing, andThen_nothing, htold7, htold8,
      or_iff_right (not_not.mpr hapc)]
    rw [Nat.zero_add] at hdata
    rw [← hdata]
    constructor
    · intro heq
      exact List.append_left_eq_self.mp (Except.ok.inj heq).symm
    · rintro rfl
      rfl
  · rw [if_neg hapc] at hspelled
    rw [hspelled] at hready7 ⊢
    refine iff_of_true ?_ (Or.inl hapc)
    exact VTParser.told_enters hutf8 (hbare8.between hbare7) (introducers b hb).2.1 hready8 hready7 x

/-- CSI in UTF-8, with one parameter. -/
theorem spellings_alike_csi :
    told VtParser.decoder (.new VtParser.decoder) ([0xc2, 0x9b] ++ [0x31, 0x6d]) =
        told VtParser.decoder (.new VtParser.decoder) ([0x1b, 0x9b - 0x40] ++ [0x31, 0x6d]) ↔
      (0x9b : UInt8) ≠ 0x9f ∨ (∀ byte ∈ ([0x31, 0x6d] : List UInt8), ender byte.toNat = false) ∨
        maxApcBytes < dataBytes [0x31, 0x6d] := by
  have hrun : (VTParser.new VtParser.decoder).parse VtParser.decoder [] =
    .ok (.new VtParser.decoder, []) := rfl
  have hdecodes : VtParser.decoder.Decodes (Char.ofNat (0x9b : UInt8).toNat) := ⟨rfl, rfl⟩
  exact spellings_alike_iff VtParser.regular_decoder hrun rfl (by decide) hdecodes (by decide) _

/-- The data of an APC string that its C1 control introduces is lost. -/
theorem apc_string_lost :
    told VtParser.decoder (.new VtParser.decoder) ([0x9f] ++ [0x61, 0x9c]) = .ok [] ∧
      told VtParser.decoder (.new VtParser.decoder) ([0x1b, 0x9f - 0x40] ++ [0x61, 0x9c]) =
        .ok [.apcDispatch [0x61]] ∧
      ¬ ∀ x, told VtParser.decoder (.new VtParser.decoder) ([0x9f] ++ x) =
        told VtParser.decoder (.new VtParser.decoder) ([0x1b, 0x9f - 0x40] ++ x) := by
  have hlost : told VtParser.decoder (.new VtParser.decoder) ([0x9f] ++ [0x61, 0x9c]) = .ok [] :=
    rfl
  have htold : told VtParser.decoder (.new VtParser.decoder) ([0x1b, 0x9f - 0x40] ++ [0x61, 0x9c]) =
    .ok [.apcDispatch [0x61]] := rfl
  refine ⟨hlost, htold, fun hall => ?_⟩
  have heq := hall [0x61, 0x9c]
  rw [hlost, htold] at heq
  cases heq

end Wakterm.Theorems.Introducers

/-!
## ESC c

Whatever has been consumed, ESC and `c` end it, and an escape sequence is dispatched.
-/

namespace Wakterm.Theorems.Resync

open Wakterm.Machine Wakterm.Vtparse

/-- The escape sequence is dispatched last, and the parser is in the ground state. -/
def Resyncs {σ : Type} (utf8 : Utf8Parser σ) (p : VTParser σ) : Prop :=
  ∃ p' told, p.parse utf8 [0x1b, 0x63] = .ok (p', told ++ [.escDispatch [] [] false 0x63]) ∧
    p'.state = .ground

variable {σ : Type} {utf8 : Utf8Parser σ} {p : VTParser σ}

theorem parse_broken (hp : p.Ready utf8) (hstate : p.state = .utf8Sequence)
    (hinvalid : (utf8.advance p.utf8Parser 0x1b).2 = some .invalidSequence) :
    ∃ p' told, p.parse utf8 [0x1b, 0x63] = .ok (p', told) ∧
      (told = [] ∨ told = [.print '\uFFFD'] ++ [.print 'c']) := by
  obtain ⟨s, hadvance⟩ : ∃ s, utf8.advance p.utf8Parser 0x1b = (s, some .invalidSequence) :=
    ⟨_, Prod.ext rfl hinvalid⟩
  have hbyte : p.parseByte utf8 0x1b = { p with utf8Parser := s }.accumulate '\uFFFD' := by
    rw [VTParser.parseByte, if_pos hstate]
    exact (VTParser.nextUtf8_reports hadvance).trans (if_neg (by decide))
  rw [VTParser.parse_cons, hbyte]
  rcases hp.returns hstate with hreturn | hreturn
  · have hprint : (VTParser.accumulate { p with utf8Parser := s } '\uFFFD') =
        .ok ({ p with utf8Parser := s, state := .ground }, [.print '\uFFFD']) := by
      unfold VTParser.accumulate
      rw [show VTParser.utf8ReturnState { p with utf8Parser := s } = .ground from hreturn]
    let q : VTParser σ := { p with utf8Parser := s, state := .ground }
    have hfinal : q.parseByte utf8 0x63 = .ok (q, [.print 'c']) :=
      VTParser.parseByte_stays (p := q) (show State.ground ≠ .utf8Sequence by decide) rfl
        (show Action.print ≠ .utf8 by decide)
    rw [hprint]
    exact ⟨_, _, andThen_eq_ok rfl (VTParser.parse_one hfinal), Or.inr rfl⟩
  · obtain ⟨o, hput, hsound⟩ := hp.osc.put '\uFFFD'
    obtain ⟨o', hput', -⟩ := hsound.put (Char.ofNat (0x63 : UInt8).toNat)
    have hgather : (VTParser.accumulate { p with utf8Parser := s } '\uFFFD') =
        .ok ({ p with utf8Parser := s, osc := o, state := .oscString }, []) := by
      unfold VTParser.accumulate
      rw [show VTParser.utf8ReturnState { p with utf8Parser := s } = .oscString from hreturn]
      dsimp only
      rw [hput, ok_bind]
    let q : VTParser σ := { p with utf8Parser := s, osc := o, state := .oscString }
    have hput'' : q.action .oscPut 0x63 = .ok ({ q with osc := o' }, []) := by
      show (o.put _ >>= _) = _
      rw [hput', ok_bind]
    have hfinal : q.parseByte utf8 0x63 = .ok ({ q with osc := o' }, []) :=
      (VTParser.parseByte_stays (p := q) (show State.oscString ≠ .utf8Sequence by decide) rfl
        (show Action.oscPut ≠ .utf8 by decide)).trans hput''
    rw [hgather]
    exact ⟨_, _, andThen_eq_ok rfl (VTParser.parse_one hfinal), Or.inl rfl⟩

/-- **ESC c gets the parser out of whatever it is in, but for a sequence of UTF-8.** -/
theorem resyncs_iff (hutf8 : utf8.Regular)
    (hbreaks : ∀ s, utf8.Unfinished s → (utf8.advance s 0x1b).2 = some .invalidSequence)
    {bytes : List UInt8} {out : List VTAction}
    (hrun : (VTParser.new utf8).parse utf8 bytes = .ok (p, out)) :
    Resyncs utf8 p ↔ p.state ≠ .utf8Sequence := by
  obtain ⟨hready, hsteady⟩ := VTParser.steady_of_parse hutf8 hrun
  constructor
  · rintro ⟨p', told, hparse, -⟩ hstate
    obtain ⟨p1, told1, hparse1, htold⟩ :=
      parse_broken hready hstate (hbreaks _ (hsteady.sequence hstate))
    obtain ⟨-, rfl⟩ := Prod.mk.inj (Except.ok.inj (hparse1.symm.trans hparse))
    rcases htold with hnil | hprint
    · exact List.append_ne_nil_of_right_ne_nil _ (List.cons_ne_nil _ _) hnil
    · have hlast := (List.append_inj' hprint rfl).2
      cases hlast
  · intro hstate
    obtain ⟨p1, out1, hesc, hescape⟩ := hready.parse_esc hstate
    have hcleared := (hsteady.parseByte hready hutf8 hesc).escape hescape
    obtain ⟨p2, hfinal, hground⟩ := hcleared.parse_final hescape
    exact ⟨p2, out1, andThen_eq_ok hesc (VTParser.parse_one hfinal), hground⟩

theorem decoder_wants {s : VtParser.Utf8State} {byte : UInt8}
    (hnone : (VtParser.advance s byte).2 = none) :
    (VtParser.advance s byte).1.tails ≠ 0 ∧ 0x80 ≤ (VtParser.advance s byte).1.first := by
  revert hnone
  unfold VtParser.advance
  simp only
  repeat' split
  all_goals
    intro hnone
    first
      | exact absurd hnone (Option.some_ne_none _)
      | dsimp only
        omega

theorem decoder_breaks (s : VtParser.Utf8State) (h : VtParser.decoder.Unfinished s) :
    (VtParser.decoder.advance s 0x1b).2 = some .invalidSequence := by
  obtain ⟨htails, hfirst⟩ : s.tails ≠ 0 ∧ 0x80 ≤ s.first := by
    cases h with
    | first byte hnone => exact decoder_wants hnone
    | more s byte h hnone => exact decoder_wants hnone
  have hout : within s.first s.last 0x1b = false := by
    simp only [within, Bool.and_eq_false_iff, decide_eq_false_iff_not]
    omega
  show (VtParser.advance s 0x1b).2 = _
  unfold VtParser.advance
  dsimp only
  rw [if_neg htails, if_neg (by rw [show (0x1b : UInt8).toNat = 0x1b from rfl, hout]; decide)]

/-- After an OSC string that was not ended. -/
theorem resyncs_in_osc :
    ∃ p out, (VTParser.new VtParser.decoder).parse VtParser.decoder [0x1b, 0x5d, 0x30] =
      .ok (p, out) ∧ (Resyncs VtParser.decoder p ↔ p.state ≠ .utf8Sequence) := by
  obtain ⟨p, out, hrun, -⟩ :=
    (VTParser.ready_new VtParser.decoder).parse VtParser.regular_decoder [0x1b, 0x5d, 0x30]
  exact ⟨p, out, hrun, resyncs_iff VtParser.regular_decoder decoder_breaks hrun⟩

/-- After the first byte of a character of two bytes, `c` is printed. -/
theorem escape_swallowed :
    ∃ p out, (VTParser.new VtParser.decoder).parse VtParser.decoder [0xc3] = .ok (p, out) ∧
      (p.parse VtParser.decoder [0x1b, 0x63]).map Prod.snd = .ok [.print '\uFFFD', .print 'c'] ∧
      ¬ Resyncs VtParser.decoder p := by
  have htold : ((VTParser.new VtParser.decoder).parse VtParser.decoder [0xc3] >>= fun r =>
      (r.1.parse VtParser.decoder [0x1b, 0x63]).map Prod.snd) =
        .ok [.print '\uFFFD', .print 'c'] := rfl
  obtain ⟨p, out, hrun, -⟩ :=
    (VTParser.ready_new VtParser.decoder).parse VtParser.regular_decoder [0xc3]
  rw [hrun, ok_bind] at htold
  refine ⟨p, out, hrun, htold, ?_⟩
  rintro ⟨p', told, hparse, -⟩
  rw [hparse] at htold
  have hlast := Except.ok.inj htold
  have hlast : told ++ [VTAction.escDispatch [] [] false 0x63] =
      [VTAction.print '\uFFFD'] ++ [VTAction.print 'c'] := hlast
  cases (List.append_inj' hlast rfl).2

end Wakterm.Theorems.Resync

/-!
## The parameters of a device control string

The hook is called with one entry for each number that is given and one for each separator, which is
as many as there are fields only if one of them is given.
-/

namespace Wakterm.Theorems.DcsParams

open Wakterm.Machine Wakterm.Vtparse

theorem take_eq_iff {numbers : List Int} {k : Nat} {room : Nat} (hk : k ≤ numbers.length + room) :
    (numbers ++ List.replicate room 0).take k = numbers ↔ k = numbers.length := by
  constructor
  · intro htake
    have hlength := congrArg List.length htake
    rw [List.length_take, List.length_append, List.length_replicate, Nat.min_eq_left hk] at hlength
    exact hlength
  · rintro rfl
    exact List.take_left

/-- **The hook is called with the fields, one entry for each**: exactly if there are none, or if
one of them is given and the others are omitted. -/
theorem hooked_fields_iff {σ : Type} {utf8 : Utf8Parser σ} (hutf8 : utf8.Regular)
    {before : List UInt8} {p : VTParser σ} {out : List VTAction}
    (hrun : (VTParser.new utf8).parse utf8 before = .ok (p, out)) (hground : p.state = .ground)
    {introducer : List UInt8} (hintroducer : introducer ∈ VTParser.dcsIntroducers)
    {fields : List (Option Nat)} (hcount : fields.length ≤ 128)
    (hsize : ∀ v ∈ fields, ∀ n, v = some n → n < 2 ^ 63) {final : UInt8}
    (hfinal : within 0x40 0x7e final.toNat = true) :
    (∃ p', p.parse utf8 (introducer ++ (fieldsText fields ++ [final])) =
        .ok (p', [.dcsHook (numbers fields) [] false final])) ↔
      fields = [] ∨ (fields.filter Option.isSome).length = 1 := by
  have hp := (VTParser.ready_new utf8).of_parse hutf8 hrun
  have hmax : maxParams = 256 := rfl
  obtain ⟨p1, hdcs, hempty⟩ := hp.parse_dcs hground hintroducer
  obtain ⟨p2, front, v, hfields, hholds, hfront, hstored⟩ :
      ∃ q front v, p1.parse utf8 (fieldsText fields) = .ok (q, []) ∧ q.Holds front v ∧
        front.length < maxParams ∧ front ++ number v = [] ++ stored fields :=
    hempty.fields (by decide) hsize (by rw [hmax]; show 0 + 2 * fields.length ≤ 256; omega)
  rw [List.nil_append] at hstored
  have hnumbers : (numbers fields).length = fields.length := List.length_map _
  have hlength := length_stored fields
  have hgiven := List.length_filter_le Option.isSome fields
  have hresults : integerParams (front ++ number v) 0 (List.replicate maxParams 0) =
      .ok (numbers fields ++ List.replicate (maxParams - fields.length) 0) := by
    rw [hstored]
    exact @integerParams_stored fields [] maxParams (by omega)
  have hfits : (front ++ number v).length ≤
      (numbers fields ++ List.replicate (maxParams - fields.length) 0).length := by
    rw [hstored, List.length_append, List.length_replicate]
    omega
  obtain ⟨p3, hhook⟩ : ∃ q, p2.parseByte utf8 final = .ok (q, [.dcsHook
      ((numbers fields ++ List.replicate (maxParams - fields.length) 0).take
        (front ++ number v).length) [] false final]) := hholds.hook hfront hresults hfits hfinal
  rw [hstored, hlength] at hhook
  have hall := andThen_eq_ok (f := fun p => p.parse utf8 (fieldsText fields ++ [final])) hdcs (by
    rw [VTParser.parse_append]
    exact andThen_eq_ok hfields (VTParser.parse_one hhook))
  rw [← VTParser.parse_append] at hall
  have hsame := @take_eq_iff (numbers fields)
    ((fields.filter Option.isSome).length + (fields.length - 1)) (maxParams - fields.length)
    (by omega)
  have hcounts : (fields.filter Option.isSome).length + (fields.length - 1) =
      (numbers fields).length ↔ fields = [] ∨ (fields.filter Option.isSome).length = 1 := by
    rw [hnumbers, ← List.length_eq_zero_iff]
    omega
  rw [hall, ← hcounts, ← hsame]
  constructor
  · rintro ⟨p', hp'⟩
    have hout := (Prod.mk.inj (Except.ok.inj hp')).2
    exact (VTAction.dcsHook.inj (List.cons.inj hout).1).1
  · intro htake
    rw [htake]
    exact ⟨p3, rfl⟩

/-- An omitted field before a number. -/
theorem hooked_fields_omitted : (∃ p', (VTParser.new VtParser.decoder).parse VtParser.decoder
        ([0x1b, 0x50] ++ (fieldsText [none, some 1] ++ [0x71])) =
          .ok (p', [.dcsHook (numbers [none, some 1]) [] false 0x71])) ↔
      ([none, some 1] : List (Option Nat)) = [] ∨
        (([none, some 1] : List (Option Nat)).filter Option.isSome).length = 1 := by
  have hrun : (VTParser.new VtParser.decoder).parse VtParser.decoder [] =
    .ok (.new VtParser.decoder, []) := rfl
  refine hooked_fields_iff VtParser.regular_decoder hrun rfl (by decide) (by decide) ?_ (by decide)
  intro v hv n hn
  rcases List.mem_pair.mp hv with rfl | rfl
  · cases hn
  · cases hn
    decide

/-- Two numbers are followed by a third that is not there. -/
theorem extra_entry : ((VTParser.new VtParser.decoder).parse VtParser.decoder
        ([0x1b, 0x50] ++ (fieldsText [some 1, some 2] ++ [0x71]))).map Prod.snd =
      .ok [.dcsHook [1, 2, 0] [] false 0x71] ∧
    ¬ ∃ p', (VTParser.new VtParser.decoder).parse VtParser.decoder
        ([0x1b, 0x50] ++ (fieldsText [some 1, some 2] ++ [0x71])) =
          .ok (p', [.dcsHook (numbers [some 1, some 2]) [] false 0x71]) := by
  have htold : ((VTParser.new VtParser.decoder).parse VtParser.decoder
      ([0x1b, 0x50] ++ (fieldsText [some 1, some 2] ++ [0x71]))).map Prod.snd =
        .ok [.dcsHook [1, 2, 0] [] false 0x71] := by
    decide +kernel
  refine ⟨htold, ?_⟩
  rintro ⟨p', hp'⟩
  rw [hp'] at htold
  have hsame : [VTAction.dcsHook (numbers [some 1, some 2]) [] false 0x71] =
    [.dcsHook [1, 2, 0] [] false 0x71] := Except.ok.inj htold
  revert hsame
  decide

end Wakterm.Theorems.DcsParams
