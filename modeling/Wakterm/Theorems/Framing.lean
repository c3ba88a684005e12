import Wakterm.Codec.Logic.Numbers
import Wakterm.Theorems.Codec

/-!
# Where a frame ends

The length field of a frame counts the bytes of two numbers and of the data.
-/

namespace Wakterm.Theorems.Framing

open Wakterm.Machine Wakterm.Codec

variable {leb : Leb128}

variable {rest buffer : List UInt8}

theorem decodeRaw_consumes (hseq : leb.Sequential) {decoded : Decoded}
    (h : decodeRaw leb buffer = .ok (decoded, rest)) :
    ∃ n used, Numbers.of leb buffer = some n ∧ n.Spells leb buffer ∧ buffer = used ++ rest ∧
      n.encoded leb ≤ n.announced ∧
      used.length = n.lenBytes.length + (n.serialBytes.length + n.identBytes.length) +
        (n.announced - n.encoded leb) := by
  cases hn : Numbers.of leb buffer with
  | none =>
    have hnone := decodeRaw_without_numbers hn
    rw [h] at hnone
    cases hnone
  | some n =>
    have hspells := Numbers.spells_of hseq hn
    rw [decodeRaw_of_numbers hn] at h
    rcases @decodeData_cases leb n with ⟨_, text, he⟩ | ⟨_, _, text, contexts, he⟩ |
      ⟨hsized, hdata, hok⟩
    · rw [he] at h
      cases h
    · rw [he] at h
      cases h
    · rw [hok] at h
      simp only [Except.ok.injEq, Prod.mk.injEq] at h
      obtain ⟨_, rfl⟩ := h
      refine ⟨n, n.lenBytes ++ (n.serialBytes ++ (n.identBytes ++
        n.data.take (n.announced - n.encoded leb))), rfl, hspells, ?_, hsized.1, ?_⟩
      · rw [List.append_assoc, List.append_assoc, List.append_assoc, List.take_append_drop]
        exact hspells.buffer_eq
      · simp only [List.length_append, List.length_take, Nat.min_eq_left hdata]
        omega

/-- **The decoders agree.** On every input, with no bound on the serial number,
`decode_raw_async` and `decode_raw` both fail or both return the same frame and
have taken the same bytes. -/
theorem decoders_agree (leb : Leb128) (hseq : leb.Sequential) (r : List UInt8) :
    ((∃ e, decodeRawAsync leb r none = .error e) ∧ ∃ e, decodeRaw leb r = .error e) ∨
      ∃ decoded used rest, r = used ++ rest ∧ decodeRawAsync leb r none = .ok (decoded, rest) ∧
        decodeRaw leb r = .ok (decoded, rest) := by
  have hsame := toOption_decodeRawAsync hseq r
  cases hsync : decodeRaw leb r with
  | error e =>
    refine .inl ⟨?_, e, rfl⟩
    rw [hsync] at hsame
    cases hasync : decodeRawAsync leb r none with
    | error e' => exact ⟨e', rfl⟩
    | ok out =>
      rw [hasync] at hsame
      cases hsame
  | ok out =>
    obtain ⟨decoded, rest⟩ := out
    obtain ⟨n, used, _, _, hused, _⟩ := decodeRaw_consumes hseq hsync
    refine .inr ⟨decoded, used, rest, hused, ?_, rfl⟩
    rw [hsync] at hsame
    exact toOption_eq_some.mp hsame

/-- The serial number has a tenth byte that is too large, and the input ends
while the reader skips the rest of it. -/
theorem decoders_agree_overflow :
    let r : List UInt8 := [5, 0x80, 0x80, 0x80, 0x80, 0x80, 0x80, 0x80, 0x80, 0x80, 0xFF, 0x80]
    ((∃ e, decodeRawAsync Leb128.reference r none = .error e) ∧
        ∃ e, decodeRaw Leb128.reference r = .error e) ∨
      ∃ decoded used rest, r = used ++ rest ∧
        decodeRawAsync Leb128.reference r none = .ok (decoded, rest) ∧
        decodeRaw Leb128.reference r = .ok (decoded, rest) :=
  decoders_agree Leb128.reference Leb128.reference_sequential _

/-- **A frame ends where its length field says exactly when the serial number and
the identifier are not padded**, for both decoders and any bound on the serial. -/
theorem delimited_iff (leb : Leb128) (hseq : leb.Sequential) (hshort : leb.Shortest)
    (buffer rest : List UInt8) (decoded : Decoded) (h : decodeRaw leb buffer = .ok (decoded, rest) ∨
      ∃ maxSerial, decodeRawAsync leb buffer maxSerial = .ok (decoded, rest)) :
    ∃ n used, Numbers.of leb buffer = some n ∧ buffer = used ++ rest ∧
      (used.length = n.lenBytes.length + n.announced ↔ n.Unpadded) := by
  have hsync : decodeRaw leb buffer = .ok (decoded, rest) := by
    rcases h with h | ⟨maxSerial, h⟩
    · exact h
    · exact decodeRaw_of_decodeRawAsync hseq h
  obtain ⟨n, used, hn, hspells, hused, hle, hlen⟩ := decodeRaw_consumes hseq hsync
  obtain ⟨hencoded, hiff⟩ := hspells.encoded_le hshort
  refine ⟨n, used, hn, hused, ?_⟩
  rw [← hiff, hlen]
  omega

/-- The serial number 0 spelled with two bytes, and a frame of three bytes after
its length: the first byte of the next frame goes with it. -/
def paddedSerial : List UInt8 := [3, 0x80, 0x00, 0x01, 0x02, 0x01, 0x01]

theorem delimited_iff_paddedSerial : ∃ n used, Numbers.of Leb128.reference paddedSerial = some n ∧
      paddedSerial = used ++ [0x01, 0x01] ∧
      (used.length = n.lenBytes.length + n.announced ↔ n.Unpadded) :=
  delimited_iff Leb128.reference Leb128.reference_sequential Leb128.reference_shortest
    paddedSerial [0x01, 0x01] ⟨1, 0, [0x02], false⟩ (.inl (by decide))

theorem paddedSerial_not_delimited :
    ¬ ∀ buffer rest decoded, decodeRaw Leb128.reference buffer = .ok (decoded, rest) →
      ∀ n, Numbers.of Leb128.reference buffer = some n →
        buffer.length - rest.length = n.lenBytes.length + n.announced := by
  intro h
  have hall := h paddedSerial [0x01, 0x01] ⟨1, 0, [0x02], false⟩ (by decide)
    ⟨3, [3], 0, [0x80, 0x00], 1, [0x01], [0x02, 0x01, 0x01]⟩ (by decide)
  exact absurd hall (by decide)

/-! ## Asking for more -/

variable {Payload : PduKind → Type} {wire : Wire Payload}

/-- The buffer holds the numbers of a frame and all of the data it announces. -/
def FrameComplete (leb : Leb128) (buffer : List UInt8) : Prop :=
  ∃ n, Numbers.of leb buffer = some n ∧ n.Complete

/-- The error says that bytes ended, or that they have not come yet. -/
def SaysEnded (e : Error) : Prop :=
  ∃ text, e.rootCause = .io .unexpectedEof text ∨ e.rootCause = .io .wouldBlock text

theorem streamDecode_eq_none (buffer : List UInt8) : (Pdu.streamDecode wire buffer).1 = .ok none ↔
      ∃ e, Pdu.decode wire buffer = .error e ∧ SaysEnded e := by
  unfold Pdu.streamDecode
  cases hdecode : Pdu.decode wire buffer with
  | ok out => simp
  | error e =>
    simp only [Except.error.injEq, exists_eq_left', SaysEnded]
    cases hcause : e.rootCause with
    | leb128Overflow => simp
    | message text => simp
    | io kind text => cases kind <;> simp

/-- The frame is complete, but one of its numbers is padded, and the decoder,
which takes the shortest spelling off the length, is after more data than there is. -/
def Starved (leb : Leb128) (n : Numbers) : Prop :=
  ¬ n.Unpadded ∧ n.Complete ∧ n.Sized leb ∧ n.data.length < n.announced - n.encoded leb

/-- The frame is of a known kind, and in its payload the deserializer of that kind
comes to the end of the bytes. -/
def PayloadEnds (wire : Wire Payload) (n : Numbers) : Prop :=
  n.Sized wire.leb128 ∧ n.announced - n.encoded wire.leb128 ≤ n.data.length ∧
    ∃ kind e, PduKind.ofVers n.ident = some kind ∧
      deserialize wire kind (n.data.take (n.announced - n.encoded wire.leb128))
        n.isCompressed = .error e ∧ SaysEnded e

theorem decode_of_data {decoded : Decoded} (h : decodeRaw wire.leb128 buffer = .ok (decoded, rest))
    : (∃ e, Pdu.decode wire buffer = .error e ∧ SaysEnded e) ↔
      ∃ kind e, PduKind.ofVers decoded.ident = some kind ∧
        deserialize wire kind decoded.data decoded.isCompressed = .error e ∧ SaysEnded e := by
  unfold Pdu.decode
  rw [h, Result.context_ok, Result.ok_bind]
  dsimp only
  cases hkind : PduKind.ofVers decoded.ident with
  | none =>
    refine iff_of_false ?_ ?_
    · rintro ⟨e, he, _⟩
      cases he
    · rintro ⟨kind, e, hk, _⟩
      cases hk
  | some kind =>
    dsimp only
    cases hpayload : deserialize wire kind decoded.data decoded.isCompressed with
    | error e =>
      refine ⟨?_, ?_⟩
      · rintro ⟨e', he', hends⟩
        cases he'
        exact ⟨kind, e, rfl, hpayload, hends⟩
      · rintro ⟨kind', e', hk, he', hends⟩
        cases hk
        rw [hpayload] at he'
        exact ⟨e, rfl, Except.error.inj he' ▸ hends⟩
    | ok payload =>
      refine iff_of_false ?_ ?_
      · rintro ⟨e, he, _⟩
        cases he
      · rintro ⟨kind', e', hk, he', _⟩
        cases hk
        rw [hpayload] at he'
        cases he'

theorem decode_of_error {e : Error} (h : decodeRaw wire.leb128 buffer = .error e) :
    (∃ e, Pdu.decode wire buffer = .error e ∧ SaysEnded e) ↔ SaysEnded e := by
  unfold Pdu.decode
  rw [h]
  refine ⟨?_, fun hends => ⟨_, rfl, hends⟩⟩
  rintro ⟨e', he', hends⟩
  cases he'
  exact hends

/-- **When the stream reader asks for more of a frame it has.** `stream_decode`
answers `Ok(None)` on a complete frame exactly where a padded number makes the
decoder ask for too much data, or where the payload's own deserializer comes to the
end of the payload. -/
theorem streamDecode_none_iff (wire : Wire Payload) (hseq : wire.leb128.Sequential)
    (hshort : wire.leb128.Shortest) (buffer : List UInt8) :
    ((Pdu.streamDecode wire buffer).1 = .ok none → ¬ FrameComplete wire.leb128 buffer) ↔
      ∀ n, Numbers.of wire.leb128 buffer = some n →
        ¬ Starved wire.leb128 n ∧ ¬ PayloadEnds wire n := by
  rw [streamDecode_eq_none]
  cases hn : Numbers.of wire.leb128 buffer with
  | none =>
    refine iff_of_true ?_ ?_
    · rintro _ ⟨n, h, _⟩
      rw [hn] at h
      cases h
    · intro n h
      cases h
  | some n =>
    have hcomplete : FrameComplete wire.leb128 buffer ↔ n.Complete := by
      simp only [FrameComplete, hn, Option.some.injEq, exists_eq_left']
    obtain ⟨hencoded, hpadded⟩ := (Numbers.spells_of hseq hn).encoded_le hshort
    simp only [Option.some.injEq, forall_eq', hcomplete]
    have hraw := decodeRaw_of_numbers hn
    rcases @decodeData_cases wire.leb128 n with ⟨hsized, text, he⟩ |
      ⟨hsized, hdata, text, contexts, he⟩ | ⟨hsized, hdata, hok⟩
    · -- the length field is refused, with a message
      rw [decode_of_error (hraw.trans he)]
      refine iff_of_true ?_ ⟨fun h => hsized h.2.2.1, fun h => hsized h.1⟩
      rintro ⟨t, h | h⟩ <;> cases h
    · -- short of data: complete only when a number is padded
      rw [decode_of_error (hraw.trans he)]
      have hends : SaysEnded ⟨.io .unexpectedEof text, contexts⟩ := ⟨text, .inl rfl⟩
      have hnot : ¬ PayloadEnds wire n := fun h => absurd h.2.1 (Nat.not_le_of_lt hdata)
      have hstarved : Starved wire.leb128 n ↔ n.Complete := by
        refine ⟨fun h => h.2.1, fun hc => ⟨?_, hc, hsized, hdata⟩⟩
        rw [← hpadded]
        unfold Numbers.Complete at hc
        omega
      rw [hstarved]
      exact ⟨fun h => ⟨h hends, hnot⟩, fun h _ => h.1⟩
    · -- the data is there, as much as announced or more
      rw [decode_of_data (hraw.trans hok)]
      have hc : n.Complete := by
        unfold Numbers.Complete
        omega
      have hnot : ¬ Starved wire.leb128 n := fun h => absurd hdata (Nat.not_le_of_lt h.2.2.2)
      have hpayload : PayloadEnds wire n ↔
          ∃ kind e, PduKind.ofVers n.ident = some kind ∧
            deserialize wire kind (n.data.take (n.announced - n.encoded wire.leb128))
              n.isCompressed = .error e ∧ SaysEnded e :=
        ⟨fun h => h.2.2, fun h => ⟨hsized, hdata, h⟩⟩
      rw [hpayload]
      exact ⟨fun h => ⟨hnot, fun hp => h hp hc⟩, fun h hp _ => h.2 hp⟩

/-- The whole frame of a `Ping`, with its serial number 0 spelled with two bytes. -/
def paddedPing : List UInt8 := [3, 0x80, 0x00, 0x01]

theorem streamDecode_none_iff_paddedPing :
    ((Pdu.streamDecode Codec.emptyWire paddedPing).1 = .ok none →
        ¬ FrameComplete Codec.emptyWire.leb128 paddedPing) ↔
      ∀ n, Numbers.of Codec.emptyWire.leb128 paddedPing = some n →
        ¬ Starved Codec.emptyWire.leb128 n ∧ ¬ PayloadEnds Codec.emptyWire n :=
  streamDecode_none_iff Codec.emptyWire Leb128.reference_sequential
    Leb128.reference_shortest paddedPing

theorem paddedPing_asks_for_more :
    ¬ ∀ buffer, (Pdu.streamDecode Codec.emptyWire buffer).1 = .ok none →
      ¬ FrameComplete Codec.emptyWire.leb128 buffer := by
  intro h
  refine h paddedPing rfl ⟨⟨3, [3], 0, [0x80, 0x00], 1, [0x01], []⟩, ?_, ?_⟩
  · show Numbers.of Leb128.reference paddedPing = _
    decide
  · decide

end Wakterm.Theorems.Framing
