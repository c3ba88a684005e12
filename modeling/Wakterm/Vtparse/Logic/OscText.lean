import Wakterm.Vtparse.Logic.Osc

/-!
# OSC strings as they are parsed

From the introducer over the characters of the string, in UTF-8, to its terminator: the parser puts
each character into the string, and dispatches it at the end.
-/

namespace Wakterm.Vtparse

open Wakterm.Machine

/-- A character that is no control. -/
def Printable (c : Char) : Prop := 0x20 ≤ c.toNat ∧ ¬ (0x7f ≤ c.toNat ∧ c.toNat ≤ 0x9f)

instance (c : Char) : Decidable (Printable c) := inferInstanceAs (Decidable (_ ∧ _))

/-- The character is reported with the last of the bytes, and nothing before. -/
def Utf8Parser.Reads {σ : Type} (utf8 : Utf8Parser σ) (c : Char) : σ → List UInt8 → Prop
  | _, [] => False
  | s, [byte] => utf8.advance s byte = (utf8.new, some (.codepoint c))
  | s, byte :: byte' :: bytes =>
    (utf8.advance s byte).2 = none ∧ utf8.Reads c (utf8.advance s byte).1 (byte' :: bytes)

/-- The character is decoded from its encoding. -/
def Utf8Parser.Decodes {σ : Type} (utf8 : Utf8Parser σ) (c : Char) : Prop :=
  utf8.Reads c utf8.new (String.utf8EncodeChar c)

theorem encode_lead {c : Char} (h : 0x80 ≤ c.toNat) :
    ∃ byte byte' bytes, String.utf8EncodeChar c = byte :: byte' :: bytes ∧
      lead byte.toNat = true := by
  have hmax : c.toNat < 0x110000 := by
    rcases c.valid with hlow | ⟨-, hhigh⟩
    · exact Nat.lt_trans hlow (by decide)
    · exact hhigh
  have hlead : ∀ n, 0xc2 ≤ n → n ≤ 0xf4 → lead (UInt8.ofNat n).toNat = true := by
    intro n hlow hhigh
    rw [byte_toNat (by omega)]
    simp only [lead, within, Bool.or_eq_true, Bool.and_eq_true, decide_eq_true_eq]
    omega
  unfold String.utf8EncodeChar
  have hval : c.val.toNat = c.toNat := rfl
  generalize c.val.toNat = v at hval
  dsimp only
  rw [if_neg (by omega)]
  split
  · exact ⟨_, _, _, rfl, hlead _ (by omega) (by omega)⟩
  · split
    · exact ⟨_, _, _, rfl, hlead _ (by omega) (by omega)⟩
    · exact ⟨_, _, _, rfl, hlead _ (by omega) (by omega)⟩

theorem oscString_ascii {i : Nat} (h : 0x20 ≤ i) (h' : i < 0x7f) :
    oscString i = (.oscPut, .oscString) := by
  have hcontrol : control i = false := by
    simp only [control, within, Bool.or_eq_false_iff, Bool.and_eq_false_iff, decide_eq_false_iff_not,
      beq_eq_false_iff_ne]
    omega
  unfold oscString
  rw [if_neg (by simp; omega), if_neg (by rw [hcontrol]; decide), if_pos (by
    simp only [within, Bool.and_eq_true, decide_eq_true_eq]; omega)]

theorem oscString_latin : ∀ i, i < 256 → 0xa0 ≤ i →
    (oscString i).1 ≠ .execute ∧ ((oscString i).2 = .oscString ∨ (oscString i).2 = .utf8Sequence) := by
  decide +kernel

theorem oscString_lead {i : Nat} (h : lead i = true) : oscString i = (.utf8, .utf8Sequence) := by
  have hrange : 0xc2 ≤ i ∧ i ≤ 0xf4 := by
    simp only [lead, within, Bool.or_eq_true, Bool.and_eq_true, decide_eq_true_eq] at h
    omega
  have hcontrol : control i = false := by
    simp only [control, within, Bool.or_eq_false_iff, Bool.and_eq_false_iff, decide_eq_false_iff_not,
      beq_eq_false_iff_ne]
    omega
  unfold oscString
  rw [if_neg (by simp; omega), if_neg (by rw [hcontrol]; decide), if_neg (by
    simp only [within, Bool.and_eq_true, decide_eq_true_eq]; omega), if_pos h]

namespace VTParser

variable {σ : Type} {utf8 : Utf8Parser σ} {p p' : VTParser σ}

variable {bytes : List UInt8} {out : List VTAction}

theorem Ready.of_parse (h : p.Ready utf8) (hutf8 : utf8.Regular)
    (hrun : p.parse utf8 bytes = .ok (p', out)) : p'.Ready utf8 := by
  obtain ⟨p1, out1, hrun1, hready, -⟩ := h.parse hutf8 bytes
  rw [hrun] at hrun1
  obtain ⟨rfl, -⟩ := Prod.mk.inj (Except.ok.inj hrun1)
  exact hready

theorem parse_cons (utf8 : Utf8Parser σ) (p : VTParser σ) (byte : UInt8) (bytes : List UInt8) :
    p.parse utf8 (byte :: bytes) = andThen (p.parseByte utf8 byte) fun p => p.parse utf8 bytes := rfl

theorem parse_one {byte : UInt8} (h : p.parseByte utf8 byte = .ok (p', out)) :
    p.parse utf8 [byte] = .ok (p', out) := by
  have hone := andThen_eq_ok (f := fun p => p.parse utf8 []) h rfl
  rwa [List.append_nil] at hone

theorem lookup_oscString {i : Nat} (h : i < 256) :
    lookup .oscString (UInt8.ofNat i) = .ok (oscString i) := by
  show Except.ok (oscString (UInt8.ofNat i).toNat) = _
  rw [byte_toNat h]

theorem parse_append (utf8 : Utf8Parser σ) (p : VTParser σ) (a b : List UInt8) :
    p.parse utf8 (a ++ b) = andThen (p.parse utf8 a) fun p => p.parse utf8 b := feed_append _ _ _ _

theorem decoded_printable {c : Char} (hc : Printable c) (hlatin : 0x80 ≤ c.toNat)
    (hreturn : p.utf8ReturnState = .oscString) {osc : OscState} (hput : p.osc.put c = .ok osc) :
    p.decoded c = .ok ({ p with osc := osc, state := .oscString }, []) := by
  have haccumulate : p.accumulate c = .ok ({ p with osc := osc, state := .oscString }, []) := by
    unfold VTParser.accumulate
    rw [hreturn]
    dsimp only
    rw [hput, ok_bind]
  unfold VTParser.decoded
  split
  · next hbyte =>
    obtain ⟨hact, hstate⟩ := oscString_latin c.toNat (by omega) (by
      unfold Printable at hc
      omega)
    have hlookup : lookup p.utf8ReturnState (UInt8.ofNat c.toNat) = .ok (oscString c.toNat) := by
      rw [hreturn]
      exact lookup_oscString (by omega)
    dsimp only
    rw [hlookup, ok_bind, if_neg]
    · exact haccumulate
    · rw [hreturn]
      rintro (h | ⟨h, h'⟩)
      · exact hact h
      · exact hstate.elim h h'
  · exact haccumulate

theorem parse_tails {c : Char} (hc : Printable c) (hlatin : 0x80 ≤ c.toNat) {osc : OscState}
    (hput : p.osc.put c = .ok osc) (hstate : p.state = .utf8Sequence)
    (hreturn : p.utf8ReturnState = .oscString) (hreads : utf8.Reads c p.utf8Parser bytes) :
    p.parse utf8 bytes =
      .ok ({ p with osc := osc, state := .oscString, utf8Parser := utf8.new }, []) := by
  induction bytes generalizing p with
  | nil => exact hreads.elim
  | cons byte bytes ih =>
    have hbyte : p.parseByte utf8 byte = p.nextUtf8 utf8 byte := if_pos hstate
    cases bytes with
    | nil =>
      have hadvance : utf8.advance p.utf8Parser byte = (utf8.new, some (.codepoint c)) := hreads
      have hnext : p.nextUtf8 utf8 byte =
          .ok ({ p with osc := osc, state := .oscString, utf8Parser := utf8.new }, []) :=
        (nextUtf8_reports hadvance).trans
          (decoded_printable (p := { p with utf8Parser := utf8.new }) hc hlatin hreturn hput)
      exact parse_one (hbyte.trans hnext)
    | cons byte' bytes =>
      obtain ⟨hnone, hrest⟩ := hreads
      exact andThen_eq_ok (hbyte.trans (nextUtf8_more hnone)) (ih hput hstate hreturn hrest)

/-- **One character of the string**, whether it is one byte or several. -/
theorem Ready.parse_char (h : p.Ready utf8) (hstate : p.state = .oscString) {c : Char}
    (hc : Printable c) (hdecodes : 0x80 ≤ c.toNat → utf8.Decodes c) :
    ∃ p', p.parse utf8 (String.utf8EncodeChar c) = .ok (p', []) ∧ p'.state = .oscString ∧
      p.osc.put c = .ok p'.osc := by
  obtain ⟨osc, hput, -⟩ := h.osc.put c
  have hnot : ¬ p.state = .utf8Sequence := by
    rw [hstate]
    decide
  by_cases hascii : c.toNat < 0x80
  · have hlookup : lookup p.state (UInt8.ofNat c.toNat) = .ok (.oscPut, .oscString) := by
      rw [hstate, lookup_oscString (by omega), oscString_ascii hc.1 (by
        unfold Printable at hc
        omega)]
    have hbyte : p.parseByte utf8 (UInt8.ofNat c.toNat) = .ok ({ p with osc := osc }, []) := by
      unfold VTParser.parseByte
      rw [if_neg hnot, hlookup, ok_bind]
      dsimp only
      rw [if_neg (not_not.mpr hstate.symm), if_neg (by decide)]
      show (p.osc.put (Char.ofNat (UInt8.ofNat c.toNat).toNat) >>= _) = _
      rw [byte_toNat (by omega), Char.ofNat_toNat, hput, ok_bind]
    rw [encode_ascii hascii]
    exact ⟨_, parse_one hbyte, hstate, hput⟩
  · have hlatin : 0x80 ≤ c.toNat := Nat.le_of_not_lt hascii
    obtain ⟨byte, byte', bytes, hencode, hlead⟩ := encode_lead hlatin
    have hdec := hdecodes hlatin
    unfold Utf8Parser.Decodes at hdec
    rw [hencode] at hdec ⊢
    obtain ⟨hnone, hrest⟩ := hdec
    have hlookup : lookup p.state byte = .ok (.utf8, .utf8Sequence) := by
      rw [hstate, ← oscString_lead hlead]
      rfl
    have hidle := h.idle hnot
    rw [← hidle] at hnone hrest
    have hbyte := parseByte_begins hnot hlookup hnone
    have htails := parse_tails (p := { p with
      utf8Parser := (utf8.advance p.utf8Parser byte).1
      utf8ReturnState := p.state
      state := .utf8Sequence }) hc hlatin hput rfl hstate hrest
    exact ⟨_, andThen_eq_ok hbyte htails, rfl, hput⟩

/-- **The characters of the string.** -/
theorem Ready.parse_text (h : p.Ready utf8) (hutf8 : utf8.Regular) (hstate : p.state = .oscString)
    {text : List Char} (htext : ∀ c ∈ text, Printable c)
    (hdecodes : ∀ c ∈ text, 0x80 ≤ c.toNat → utf8.Decodes c) :
    ∃ p', p.parse utf8 (encodeText text) = .ok (p', []) ∧ p'.state = .oscString ∧
      p.osc.putText text = .ok p'.osc := by
  induction text generalizing p with
  | nil => exact ⟨p, rfl, hstate, rfl⟩
  | cons c text ih =>
    obtain ⟨p1, h1, hstate1, hput1⟩ :=
      h.parse_char hstate (htext c List.mem_cons_self) (hdecodes c List.mem_cons_self)
    obtain ⟨p2, h2, hstate2, hput2⟩ := ih (h.of_parse hutf8 h1) hstate1
      (fun d hd => htext d (List.mem_cons_of_mem _ hd))
      (fun d hd => hdecodes d (List.mem_cons_of_mem _ hd))
    refine ⟨p2, ?_, hstate2, ?_⟩
    · rw [encodeText_cons, parse_append]
      exact andThen_eq_ok h1 h2
    · unfold OscState.putText
      rw [List.foldlM_cons, hput1]
      exact hput2

/-! ## Introducers and terminators -/

theorem parseByte_moves (utf8 : Utf8Parser σ) (byte : UInt8) (start state : State) {act : Action}
    {p1 p2 p3 : VTParser σ} {out1 out2 out3 : List VTAction} (hstart : p.state = start)
    (hlookup : lookup start byte = .ok (act, state))
    (hplain : start ≠ .utf8Sequence ∧ act ≠ .utf8 ∧ state ≠ start ∧ state ≠ .utf8Sequence)
    (h1 : p.action (lookupExit start) 0 = .ok (p1, out1)) (h2 : p1.action act byte = .ok (p2, out2))
    (h3 : p2.action (lookupEntry state) byte = .ok (p3, out3)) : p.parseByte utf8 byte =
      .ok ({ p3 with utf8ReturnState := p3.state, state := state }, out1 ++ (out2 ++ (out3 ++ []))) := by
  obtain ⟨hstate, hact, hmoves, hnot⟩ := hplain
  subst hstart
  unfold VTParser.parseByte
  rw [if_neg hstate, hlookup, ok_bind]
  dsimp only
  rw [if_pos hmoves, if_pos hnot]
  exact andThen_eq_ok h1 (andThen_eq_ok ((if_neg hact).trans h2) (andThen_eq_ok h3 rfl))

/-- What begins an OSC string: ESC and a bracket, or the C1 control. -/
def oscIntroducers : List (List UInt8) := [[0x1b, 0x5d], [0x9d]]

/-- What ends one, and what the terminator itself is told as: BEL, the C1 control, or ESC and a
backslash. -/
def oscTerminators : List (List UInt8 × List VTAction) :=
  [([0x07], []), ([0x9c], []), ([0x1b, 0x5c], [.escDispatch [] [] false 0x5c])]

theorem Ready.parse_introducer (h : p.Ready utf8) (hground : p.state = .ground)
    (hbytes : bytes ∈ oscIntroducers) :
    ∃ p', p.parse utf8 bytes = .ok (p', []) ∧ p'.state = .oscString ∧
      ∃ osc : OscState, p'.osc = osc.start ∧ osc.paramIndices.length = maxOsc := by
  rcases List.mem_pair.mp hbytes with rfl | rfl
  · obtain ⟨p1, hesc, hstate1, hosc1⟩ : ∃ p1, p.parseByte utf8 0x1b = .ok (p1, []) ∧
        p1.state = .escape ∧ p1.osc = p.osc.start :=
      ⟨_, parseByte_moves utf8 0x1b .ground .escape hground rfl (by decide) rfl rfl rfl, rfl, rfl⟩
    obtain ⟨p2, hbracket, hstate2, hosc2⟩ : ∃ p2, p1.parseByte utf8 0x5d = .ok (p2, []) ∧
        p2.state = .oscString ∧ p2.osc = p1.osc.start :=
      ⟨_, parseByte_moves utf8 0x5d .escape .oscString hstate1 rfl (by decide) rfl rfl rfl, rfl, rfl⟩
    refine ⟨p2, andThen_eq_ok hesc (parse_one hbracket), hstate2, p1.osc, hosc2, ?_⟩
    rw [hosc1]
    exact h.osc.size
  · exact ⟨_, parse_one (parseByte_moves utf8 0x9d .ground .oscString hground rfl (by decide) rfl rfl
      rfl), rfl, p.osc, rfl, h.osc.size⟩

theorem parse_terminator (utf8 : Utf8Parser σ) (hstate : p.state = .oscString)
    (hfinish : p.osc.finish = .ok out) {told : List VTAction}
    (hbytes : (bytes, told) ∈ oscTerminators) :
    ∃ p', p.parse utf8 bytes = .ok (p', out ++ told) ∧ p'.state = .ground := by
  have hexit : p.action (lookupExit .oscString) 0 = .ok (p, out) := by
    show (p.osc.finish >>= _) = _
    rw [hfinish, ok_bind]
  have hends : ∀ {byte : UInt8} {act : Action}, lookup .oscString byte = .ok (act, .ground) →
      act = .none ∨ act = .ignore →
      ∃ p', p.parse utf8 [byte] = .ok (p', out ++ []) ∧ p'.state = .ground := by
    intro byte act hlookup hact
    rcases hact with rfl | rfl
    · exact ⟨_, parse_one (parseByte_moves utf8 byte .oscString .ground hstate hlookup (by decide)
        hexit rfl rfl), rfl⟩
    · exact ⟨_, parse_one (parseByte_moves utf8 byte .oscString .ground hstate hlookup (by decide)
        hexit rfl rfl), rfl⟩
  unfold oscTerminators at hbytes
  rw [List.mem_cons, List.mem_pair] at hbytes
  rcases hbytes with hbel | hc1 | hst
  · cases hbel
    exact hends rfl (.inr rfl)
  · cases hc1
    exact hends rfl (.inl rfl)
  · cases hst
    obtain ⟨p1, hesc, hstate1, hclear⟩ : ∃ p1, p.parseByte utf8 0x1b = .ok (p1, out ++ []) ∧
        p1.state = .escape ∧ p1 = { p.clear with utf8ReturnState := p.state, state := .escape } :=
      ⟨_, parseByte_moves utf8 0x1b .oscString .escape hstate rfl (by decide) hexit rfl rfl, rfl, rfl⟩
    have hdispatch : p1.action .escDispatch 0x5c =
        .ok (p1, [.escDispatch [] [] false 0x5c]) := by
      rw [hclear]
      rfl
    have hslash := parseByte_moves utf8 0x5c .escape .ground hstate1 rfl (by decide) rfl hdispatch rfl
    rw [List.append_nil] at hesc
    exact ⟨_, andThen_eq_ok hesc (parse_one hslash), rfl⟩

end VTParser

end Wakterm.Vtparse
