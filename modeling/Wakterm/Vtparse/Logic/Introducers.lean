import Wakterm.Vtparse.Logic.Alike
import Wakterm.Vtparse.Logic.OscText

/-!
# The spellings of an introducer

A C1 control that introduces a string or a sequence is written as one byte, in UTF-8, or as ESC and
a byte of ASCII.
-/

namespace Wakterm.Vtparse

open Wakterm.Machine

/-- DCS, SOS, CSI, OSC, PM and APC. -/
def c1Introducers : List UInt8 := [0x90, 0x98, 0x9b, 0x9d, 0x9e, 0x9f]

/-- Where the control itself leads. -/
def introducedBy (b : UInt8) : State := (ground b.toNat).2

/-- Where ESC and the other byte lead. -/
def escapedBy (b : UInt8) : State := (escape (b - 0x40).toNat).2

/-- A state that is entered for a string or a sequence. -/
def State.Entered (state : State) : Prop :=
  state ≠ .utf8Sequence ∧ state ≠ .dcsPassthrough ∧ state ≠ .ground ∧ state ≠ .escape ∧
    (state.collects = true → lookupEntry state = .clear)

instance (state : State) : Decidable state.Entered :=
  inferInstanceAs (Decidable (_ ∧ _ ∧ _ ∧ _ ∧ _))

theorem introducers : ∀ b ∈ c1Introducers,
    ground b.toNat = (.none, introducedBy b) ∧ (introducedBy b).Entered ∧
      escape (b - 0x40).toNat = (.none, escapedBy b) ∧ (escapedBy b).Entered := by
  decide +kernel

theorem escapedBy_eq : ∀ b ∈ c1Introducers,
    if b = 0x9f then introducedBy b = .sosPmString ∧ escapedBy b = .apcString
    else escapedBy b = introducedBy b := by
  decide +kernel

namespace VTParser

variable {σ : Type} {utf8 : Utf8Parser σ} {p q : VTParser σ}

def enter (p : VTParser σ) (state : State) : Except Fault (VTParser σ × List VTAction) :=
  andThen (p.action .none 0) fun p =>
    andThen (p.action (lookupEntry state) 0) fun p =>
    .ok ({ p with utf8ReturnState := p.state, state := state }, [])

variable {state : State} {b : UInt8}

theorem entry_byte (h : state ≠ .dcsPassthrough) (p : VTParser σ) (byte : UInt8) :
    p.action (lookupEntry state) byte = p.action (lookupEntry state) 0 := by
  cases state with
  | dcsPassthrough => exact absurd rfl h
  | _ => rfl

theorem parseByte_enters {byte : UInt8} (hstate : p.state = .ground ∨ p.state = .escape)
    (hlookup : lookup p.state byte = .ok (.none, state)) (hentered : state.Entered) :
    p.parseByte utf8 byte = p.enter state := by
  obtain ⟨hnot, hpass, hground, hescape, -⟩ := hentered
  have hmoves : state ≠ p.state := by
    rcases hstate with hs | hs <;> rw [hs]
    · exact hground
    · exact hescape
  have hsequence : p.state ≠ .utf8Sequence := by
    rcases hstate with hs | hs <;> rw [hs] <;> decide
  have hexit : lookupExit p.state = .none := by
    rcases hstate with hs | hs <;> rw [hs] <;> rfl
  rw [parseByte_shifts hsequence hlookup (by decide) hnot hmoves, hexit]
  simp only [entry_byte hpass]
  exact andThen_nothing p _

theorem Agree.enters {sequence osc apc : Prop} (h : Agree sequence osc apc p q)
    (hentered : state.Entered) : Both (Told Alike) (p.enter state) (q.enter state) := by
  obtain ⟨hnot, hpass, -, -, hgathers⟩ := hentered
  refine (h.mono False.elim False.elim False.elim).enter (by decide) ?_ ?_ ?_ hnot
    (fun hs => Or.inr (hgathers hs)) (fun hs => absurd hs hpass) 0 0
  all_goals decide

theorem parse_singleton (p : VTParser σ) (byte : UInt8) :
    p.parse utf8 [byte] = p.parseByte utf8 byte := by
  rw [parse_cons]
  cases p.parseByte utf8 byte with
  | error e => rfl
  | ok r =>
    obtain ⟨p', out⟩ := r
    show Except.ok (p', out ++ []) = _
    rw [List.append_nil]

/-- What is left of the parser besides what is gathered. -/
abbrev Bare (p q : VTParser σ) : Prop := Agree False False False p q

theorem parse_escaped (utf8 : Utf8Parser σ) (hground : p.state = .ground) (hb : b ∈ c1Introducers) :
    ∃ q, Bare p q ∧ p.parse utf8 [0x1b, b - 0x40] = q.enter (escapedBy b) := by
  obtain ⟨-, -, hescape, hentered⟩ := introducers b hb
  have hesc : p.parseByte utf8 0x1b =
      .ok ({ p.clear with utf8ReturnState := p.state, state := .escape }, []) :=
    parseByte_moves utf8 0x1b .ground .escape hground rfl (by decide) rfl rfl rfl
  have hlookup : lookup .escape (b - 0x40) = .ok (.none, escapedBy b) := congrArg Except.ok hescape
  refine ⟨{ p.clear with utf8ReturnState := p.state, state := .escape },
    ⟨rfl, rfl, rfl, rfl, False.elim, False.elim, False.elim⟩, ?_⟩
  rw [parse_cons, hesc, andThen_nothing, parse_singleton]
  exact parseByte_enters (Or.inr rfl) hlookup hentered

theorem parse_introduced (utf8 : Utf8Parser σ) (hground : p.state = .ground)
    (hb : b ∈ c1Introducers) : p.parse utf8 [b] = p.enter (introducedBy b) := by
  obtain ⟨htable, hentered, -⟩ := introducers b hb
  rw [parse_singleton]
  refine parseByte_enters (Or.inl hground) ?_ hentered
  rw [hground]
  exact congrArg Except.ok htable

theorem decoded_introduced (hreturn : p.utf8ReturnState = .ground) (hb : b ∈ c1Introducers)
    {c : Char} (hc : c.toNat = b.toNat) : p.decoded c = p.enter (introducedBy b) := by
  obtain ⟨htable, hentered, -⟩ := introducers b hb
  have hbyte : c.toNat ≤ 0xff := by
    rw [hc]
    exact Nat.le_of_lt_succ b.toNat_lt
  have hlookup : lookup p.utf8ReturnState (UInt8.ofNat c.toNat) = .ok (.none, introducedBy b) := by
    rw [hreturn, hc, UInt8.ofNat_toNat]
    exact congrArg Except.ok htable
  have hleaves : introducedBy b ≠ p.utf8ReturnState ∧ introducedBy b ≠ .utf8Sequence := by
    rw [hreturn]
    exact ⟨hentered.2.2.1, hentered.1⟩
  unfold VTParser.decoded
  rw [if_pos hbyte]
  dsimp only
  rw [hlookup, ok_bind]
  dsimp only
  rw [if_pos (Or.inr hleaves), hreturn]
  exact andThen_nothing p _

theorem Ready.parse_encoded (h : p.Ready utf8) (hground : p.state = .ground)
    (hb : b ∈ c1Introducers) (hdecodes : utf8.Decodes (Char.ofNat b.toNat)) : ∃ q, Bare p q ∧
      p.parse utf8 (String.utf8EncodeChar (Char.ofNat b.toNat)) = q.enter (introducedBy b) := by
  have hencode : ∀ b ∈ c1Introducers, String.utf8EncodeChar (Char.ofNat b.toNat) = [0xc2, b] ∧
      (Char.ofNat b.toNat).toNat = b.toNat := by
    decide +kernel
  obtain ⟨hbytes, hchar⟩ := hencode b hb
  have hstate : p.state ≠ .utf8Sequence := by
    rw [hground]
    decide
  have hidle := h.idle hstate
  unfold Utf8Parser.Decodes at hdecodes
  rw [hbytes, ← hidle] at hdecodes
  obtain ⟨hnone, hlast⟩ := hdecodes
  have hlast : utf8.advance (utf8.advance p.utf8Parser 0xc2).1 b =
    (utf8.new, some (.codepoint (Char.ofNat b.toNat))) := hlast
  have hlookup : lookup p.state 0xc2 = .ok (.utf8, .utf8Sequence) := by
    rw [hground]
    rfl
  let q : VTParser σ :=
    { p with utf8Parser := utf8.new, utf8ReturnState := p.state, state := .utf8Sequence }
  refine ⟨q, ⟨rfl, rfl, rfl, hidle.symm, False.elim, False.elim, False.elim⟩, ?_⟩
  have hdecoded : q.decoded (Char.ofNat b.toNat) = q.enter (introducedBy b) :=
    decoded_introduced hground hb hchar
  rw [hbytes, parse_cons, parseByte_begins hstate hlookup hnone, andThen_nothing, parse_singleton,
    VTParser.parseByte, if_pos rfl]
  exact (nextUtf8_reports hlast).trans hdecoded

theorem told_enters (hutf8 : utf8.Regular) (h : Bare p q) (hentered : state.Entered)
    (hp : ∀ p' out, p.enter state = .ok (p', out) → p'.Ready utf8)
    (hq : ∀ q' out, q.enter state = .ok (q', out) → q'.Ready utf8) (bytes : List UInt8) :
    (andThen (p.enter state) fun p => p.parse utf8 bytes).map Prod.snd =
      (andThen (q.enter state) fun q => q.parse utf8 bytes).map Prod.snd := by
  have hboth := h.enters hentered
  have hready : Both (Told fun p q => Alike p q ∧ p.Ready utf8 ∧ q.Ready utf8) (p.enter state)
      (q.enter state) := by
    revert hboth hp hq
    generalize p.enter state = x
    generalize q.enter state = y
    intro hp hq hboth
    cases hboth with
    | error e => exact .error e
    | ok hr => exact .ok ⟨hr.1, hr.2, hp _ _ rfl, hq _ _ rfl⟩
  exact (hready.andThen fun p q hpq => hpq.1.parse hpq.2.1 hpq.2.2 hutf8 bytes).told_eq

end VTParser

/-! ## APC strings -/

/-- The bytes that end a string: CAN, SUB, ESC and the C1 controls. -/
def ender (i : Nat) : Bool := i == 0x18 || i == 0x1a || i == 0x1b || within 0x80 0x9f i

/-- How many bytes of data there are before the string ends. -/
def dataBytes (bytes : List UInt8) : Nat :=
  ((bytes.takeWhile fun byte => !ender byte.toNat).filter (· < 0x80)).length

theorem apcString_ender : ∀ i, i < 256 → ender i = true →
    sosPmString i = apcString i ∧ (apcString i).2 ≠ .apcString ∧
      ((apcString i).1 = .none ∨ (apcString i).1 = .execute) ∧
      ((apcString i).2 = .sosPmString → (apcString i).1 = .none) ∧
      (apcString i).2 ≠ .utf8Sequence ∧ (apcString i).2 ≠ .dcsPassthrough ∧
      ((apcString i).2.collects = true → lookupEntry (apcString i).2 = .clear) := by
  decide +kernel

theorem apcString_data : ∀ i, i < 256 → ender i = false →
    if i < 0x80 then apcString i = (.apcPut, .apcString) ∧ sosPmString i = (.ignore, .sosPmString)
    else apcString i = (.none, .apcString) ∧ sosPmString i = (.none, .sosPmString) := by
  decide +kernel

namespace VTParser

variable {σ : Type} {utf8 : Utf8Parser σ} {p q : VTParser σ}

/-- An APC string with some bytes of data. -/
structure InApc (n : Nat) (p : VTParser σ) : Prop where
  state : p.state = .apcString
  length : p.apcData.length = min n maxApcBytes
  truncated : p.apcDataTruncated = decide (maxApcBytes < n)

theorem InApc.put {n : Nat} (h : p.InApc n) (byte : UInt8) :
    ∃ p', p.action .apcPut byte = .ok (p', []) ∧ p'.InApc (n + 1) ∧ Bare p p' := by
  have hlength := h.length
  unfold VTParser.action
  dsimp only
  split
  · next hroom =>
    have hn : n < maxApcBytes := by omega
    refine ⟨_, rfl, ⟨h.state, ?_, ?_⟩, rfl, rfl, rfl, rfl, False.elim, False.elim, False.elim⟩
    · show (p.apcData ++ [byte]).length = _
      rw [List.length_append, List.length_singleton]
      omega
    · show p.apcDataTruncated = _
      rw [h.truncated, decide_eq_false (by omega), decide_eq_false (by omega)]
  · next hfull =>
    refine ⟨_, rfl, ⟨h.state, ?_, ?_⟩, rfl, rfl, rfl, rfl, False.elim, False.elim, False.elim⟩
    · show p.apcData.length = _
      omega
    · show true = _
      rw [decide_eq_true (by omega)]

theorem InApc.finish {n : Nat} (h : p.InApc n) :
    ∃ p' data, p.action .apcEnd 0 = .ok (p', data) ∧ Bare p p' ∧ (data = [] ↔ maxApcBytes < n) := by
  have htruncated := h.truncated
  unfold VTParser.action
  dsimp only
  split
  · next hlong =>
    rw [htruncated, decide_eq_true_eq] at hlong
    exact ⟨_, [], rfl, ⟨rfl, rfl, rfl, rfl, False.elim, False.elim, False.elim⟩,
      iff_of_true rfl hlong⟩
  · next hshort =>
    rw [htruncated, decide_eq_true_eq] at hshort
    exact ⟨_, [_], rfl, ⟨rfl, rfl, rfl, rfl, False.elim, False.elim, False.elim⟩,
      iff_of_false (List.cons_ne_nil _ _) hshort⟩

theorem Agree.between {p1 : VTParser σ} (h : Bare p p1) (h' : Bare p q) : Bare p1 q :=
  ⟨h'.params.trans h.params.symm, h'.intermediates.trans h.intermediates.symm,
    h'.paramIndices.trans h.paramIndices.symm, h'.utf8Parser.trans h.utf8Parser.symm,
    False.elim, False.elim, False.elim⟩

theorem told_cons {byte : UInt8} {bytes : List UInt8} {p' : VTParser σ} {out out' : List VTAction}
    (hbyte : p.parseByte utf8 byte = .ok (p', out))
    (hrest : (p'.parse utf8 bytes).map Prod.snd = .ok out') :
    (p.parse utf8 (byte :: bytes)).map Prod.snd = .ok (out ++ out') := by
  rw [parse_cons, hbyte, andThen_ok]
  cases hparse : p'.parse utf8 bytes with
  | error e =>
    rw [hparse] at hrest
    cases hrest
  | ok r =>
    rw [hparse] at hrest
    obtain rfl : r.2 = out' := Except.ok.inj hrest
    rfl

theorem InApc.ends {n : Nat} (h : p.InApc n) (hstate : q.state = .sosPmString)
    (hbare : Bare p q) (hq : q.Ready utf8) (hutf8 : utf8.Regular)
    {byte : UInt8} (hender : ender byte.toNat = true) :
    ∃ p' q' data out, p.parseByte utf8 byte = .ok (p', data ++ out) ∧
      q.parseByte utf8 byte = .ok (q', out) ∧ Alike p' q' ∧ (data = [] ↔ maxApcBytes < n) := by
  obtain ⟨hsame, hleaves, hact, hstays, hnot, hpass, hgathers⟩ :=
    apcString_ender byte.toNat byte.toNat_lt hender
  have hlookupp : lookup .apcString byte = .ok (apcString byte.toNat) := rfl
  have hlookupq : lookup .sosPmString byte = .ok (apcString byte.toNat) := congrArg Except.ok hsame
  revert hleaves hact hstays hnot hpass hgathers hlookupp hlookupq
  generalize apcString byte.toNat = r
  obtain ⟨act, state⟩ := r
  intro hleaves hact hstays hnot hpass hgathers hlookupp hlookupq
  rw [← h.state] at hlookupp hleaves
  rw [← hstate] at hlookupq hstays
  have hplain : act ≠ .utf8 ∧ (act ≠ .clear ∧ act ≠ .oscStart ∧ act ≠ .apcStart) ∧
      act.onSequence = false ∧ act.onOsc = false ∧ act.onApc = false := by
    rcases hact with hact | hact <;> obtain rfl : act = _ := hact <;> decide
  obtain ⟨hutf8act, hkeeps, hsequence, hosc, hapc⟩ := hplain
  have hstatep : p.state ≠ .utf8Sequence := by
    rw [h.state]
    decide
  have hstateq : q.state ≠ .utf8Sequence := by
    rw [hstate]
    decide
  obtain ⟨p1, data, hfinish, hbare1, hdata⟩ := h.finish
  have hbareq : Bare p1 q := hbare1.between hbare
  have hboth : Both (Told Alike)
      (andThen (p1.action act byte) fun p =>
        andThen (p.action (lookupEntry state) byte) fun p =>
        .ok ({ p with utf8ReturnState := p.state, state := state }, []))
      (q.parseByte utf8 byte) := by
    by_cases hmoves : state = q.state
    · -- the state that ignores a string goes on
      obtain rfl : act = .none := hstays hmoves
      have hsos := hmoves.trans hstate
      rw [hmoves] at hlookupq
      rw [parseByte_stays hstateq hlookupq hutf8act, hsos]
      exact both_told ⟨hstate, fun hs => (by cases hs), hbareq.params, hbareq.intermediates,
        hbareq.paramIndices, hbareq.utf8Parser, fun hs => (by cases hs),
        fun ho => (by rcases ho with hs | ⟨hs, -⟩ <;> cases hs), fun hs => (by cases hs)⟩ []
    · have hexit : lookupExit q.state = .none := by
        rw [hstate]
        rfl
      rw [parseByte_shifts hstateq hlookupq hutf8act hnot hmoves, hexit]
      refine cast (congrArg (Both (Told Alike) _) (andThen_nothing q _).symm) ?_
      refine hbareq.enter hkeeps ?_ ?_ ?_ hnot (fun hs => Or.inr (hgathers hs))
        (fun hs => absurd hs hpass) byte byte
      · simp [hsequence]
      · simp [hosc]
      · simp [hapc]
  obtain ⟨q', out, hq', hreadyq, -⟩ := hq.parseByte hutf8 byte
  have hexit : p.action (lookupExit p.state) 0 = .ok (p1, data) := by
    rw [h.state]
    exact hfinish
  rw [hq'] at hboth
  obtain ⟨p', hrest, halike⟩ := hboth.eq_ok
  refine ⟨p', q', data, out, ?_, hq', halike, hdata⟩
  rw [parseByte_shifts hstatep hlookupp hutf8act hnot hleaves]
  exact andThen_eq_ok hexit hrest

/-- A string that is gathered and one that is ignored: all that is told besides is the data. -/
theorem InApc.parse {n : Nat} (h : p.InApc n) (hstate : q.state = .sosPmString)
    (hbare : Bare p q) (hp : p.Ready utf8) (hq : q.Ready utf8) (hutf8 : utf8.Regular)
    (bytes : List UInt8) : ∃ data out, (p.parse utf8 bytes).map Prod.snd = .ok (data ++ out) ∧
      (q.parse utf8 bytes).map Prod.snd = .ok out ∧
      (data = [] ↔ (∀ byte ∈ bytes, ender byte.toNat = false) ∨
        maxApcBytes < n + dataBytes bytes) := by
  induction bytes generalizing n p q with
  | nil =>
    exact ⟨[], [], rfl, rfl, iff_of_true rfl (Or.inl fun _ hmem => absurd hmem List.not_mem_nil)⟩
  | cons byte bytes ih =>
    have hstatep : p.state ≠ .utf8Sequence := by
      rw [h.state]
      decide
    have hstateq : q.state ≠ .utf8Sequence := by
      rw [hstate]
      decide
    cases hender : ender byte.toNat with
    | true =>
      obtain ⟨p', q', data, out, hp', hq', halike, hdata⟩ := h.ends hstate hbare hq hutf8 hender
      obtain ⟨p1, out1, hp1, hreadyp, -⟩ := hp.parseByte hutf8 byte
      obtain ⟨q1, out2, hq1, hreadyq, -⟩ := hq.parseByte hutf8 byte
      obtain ⟨rfl, -⟩ := Prod.mk.inj (Except.ok.inj (hp'.symm.trans hp1))
      obtain ⟨rfl, -⟩ := Prod.mk.inj (Except.ok.inj (hq'.symm.trans hq1))
      have hrest := (halike.parse hreadyp hreadyq hutf8 bytes).told_eq
      obtain ⟨q2, out3, hq2, -⟩ := hreadyq.parse hutf8 bytes
      have htold : (q'.parse utf8 bytes).map Prod.snd = .ok out3 := by
        rw [hq2]
        rfl
      refine ⟨data, out ++ out3, ?_, told_cons hq' htold, ?_⟩
      · rw [← List.append_assoc]
        exact told_cons hp' (hrest.trans htold)
      · have hnone : dataBytes (byte :: bytes) = 0 := by
          simp [dataBytes, hender]
        have hends : ¬ ∀ b ∈ byte :: bytes, ender b.toNat = false := fun hall => by
          rw [hall byte List.mem_cons_self] at hender
          cases hender
        rw [hdata, hnone, or_iff_right hends, Nat.add_zero]
    | false =>
      have hdata := apcString_data byte.toNat byte.toNat_lt hender
      have hstays : ∀ {act : Action}, sosPmString byte.toNat = (act, .sosPmString) →
          act = .ignore ∨ act = .none → q.parseByte utf8 byte = .ok (q, []) := by
        intro act htable hact
        have hlookup : lookup q.state byte = .ok (act, q.state) := by
          rw [hstate]
          exact congrArg Except.ok htable
        rcases hact with rfl | rfl
        · exact parseByte_stays hstateq hlookup (by decide)
        · exact parseByte_stays hstateq hlookup (by decide)
      have hall : (∀ b ∈ byte :: bytes, ender b.toNat = false) ↔
          ∀ b ∈ bytes, ender b.toNat = false := by
        rw [List.forall_mem_cons]
        exact and_iff_right hender
      split at hdata
      · next hascii =>
        obtain ⟨hput, hignore⟩ := hdata
        obtain ⟨p', hput', hinapc, hbare'⟩ := h.put byte
        have hlookup : lookup p.state byte = .ok (.apcPut, p.state) := by
          rw [h.state]
          exact congrArg Except.ok hput
        have hp' : p.parseByte utf8 byte = _ :=
          (parseByte_stays hstatep hlookup (by decide)).trans hput'
        have hq' := hstays hignore (Or.inl rfl)
        obtain ⟨p1, out1, hp1, hreadyp, -⟩ := hp.parseByte hutf8 byte
        obtain ⟨rfl, -⟩ := Prod.mk.inj (Except.ok.inj (hp'.symm.trans hp1))
        obtain ⟨data, out, htoldp, htoldq, hiff⟩ :=
          ih hinapc hstate (hbare'.between hbare) hreadyp hq
        have hsaidp := told_cons hp' htoldp
        have hsaidq := told_cons hq' htoldq
        refine ⟨data, out, hsaidp, hsaidq, ?_⟩
        have hcount : dataBytes (byte :: bytes) = 1 + dataBytes bytes := by
          have hlt : byte < 0x80 := hascii
          simp [dataBytes, hender, hlt, Nat.add_comm]
        rw [hiff, hall, hcount, Nat.add_assoc]
      · next hlatin =>
        obtain ⟨hnone, hignore⟩ := hdata
        have hlookup : lookup p.state byte = .ok (.none, p.state) := by
          rw [h.state]
          exact congrArg Except.ok hnone
        have hp' : p.parseByte utf8 byte = .ok (p, []) :=
          parseByte_stays hstatep hlookup (by decide)
        have hq' := hstays hignore (Or.inr rfl)
        obtain ⟨data, out, htoldp, htoldq, hiff⟩ := ih h hstate hbare hp hq
        have hsaidp := told_cons hp' htoldp
        have hsaidq := told_cons hq' htoldq
        refine ⟨data, out, hsaidp, hsaidq, ?_⟩
        have hcount : dataBytes (byte :: bytes) = dataBytes bytes := by
          have hlt : ¬ byte < 0x80 := hlatin
          simp [dataBytes, hender, hlt]
        rw [hiff, hall, hcount]

end VTParser

end Wakterm.Vtparse
