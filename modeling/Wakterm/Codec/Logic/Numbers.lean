import Mathlib.Data.List.Basic
import Wakterm.Codec.Pdu

/-!
# The numbers in front of a frame

Both readers take three numbers from the front of their input and then the data.
-/

namespace Wakterm.Codec

open Wakterm.Machine

variable {leb : Leb128}

theorem toOption_context {α : Type} (r : Result α) (text : String) :
    (r.context text).toOption = r.toOption := by
  cases r <;> rfl

theorem toOption_bind {α β : Type} (r : Result α) (f : α → Result β) :
    (r >>= f).toOption = r.toOption.bind fun a => (f a).toOption := by
  cases r <;> rfl

theorem toOption_eq_some {ε α : Type} {r : Except ε α} {a : α} :
    r.toOption = some a ↔ r = .ok a := by
  cases r with
  | ok b => simp [Except.toOption]
  | error e => simp [Except.toOption]

theorem toOption_readU64 (r : List UInt8) :
    (readU64 leb r).toOption = (leb.readUnsigned r).toOption := by
  rw [readU64, toOption_context]
  cases leb.readUnsigned r with
  | ok out => rfl
  | error e => cases e <;> rfl

theorem read_nil : leb.readUnsigned [] = .error .unexpectedEof :=
  leb.read_short 0 [] (leb.writeUnsigned 0) rfl (List.ne_nil_of_length_pos (leb.write_pos 0))

variable {rest r bytes buffer : List UInt8}

theorem rest_eq_nil (hseq : leb.Sequential) {buf : List UInt8} {byte : UInt8} {n : UInt64}
    (hbuf : leb.readUnsigned buf = .error .unexpectedEof)
    (h : leb.readUnsigned (buf ++ [byte]) = .ok (n, rest)) : rest = [] := by
  obtain ⟨used, hsplit, hused⟩ := hseq.ok_used _ _ _ h
  rcases List.eq_nil_or_concat rest with hnil | ⟨rest', last, rfl⟩
  · exact hnil
  · rw [List.concat_eq_append, ← List.append_assoc] at hsplit
    have hbuf' : buf = used ++ rest' := (List.append_inj' hsplit rfl).1
    have hmore := hseq.ok_append used rest' n [] hused
    rw [← hbuf', hbuf] at hmore
    cases hmore

theorem toOption_readU64Async_loop (hseq : leb.Sequential) (buf r : List UInt8)
    (hbuf : leb.readUnsigned buf = .error .unexpectedEof) :
    (readU64Async.loop leb buf r).toOption = (leb.readUnsigned (buf ++ r)).toOption := by
  induction r generalizing buf with
  | nil =>
    rw [List.append_nil, hbuf]
    rfl
  | cons byte r ih =>
    have hsplit : buf ++ byte :: r = buf ++ [byte] ++ r := by
      rw [List.append_assoc, List.singleton_append]
    rw [hsplit, readU64Async.loop]
    cases hread : leb.readUnsigned (buf ++ [byte]) with
    | ok out =>
      obtain ⟨n, rest⟩ := out
      obtain rfl := rest_eq_nil hseq hbuf hread
      rw [hseq.ok_append _ r n [] hread]
      rfl
    | error e =>
      cases e with
      | unexpectedEof => exact ih (buf ++ [byte]) hread
      | overflow =>
        rw [hseq.overflow_append _ r hread]
        rfl

theorem toOption_readU64Async (hseq : leb.Sequential) (r : List UInt8) :
    (readU64Async leb r).toOption = (readU64 leb r).toOption := by
  rw [toOption_readU64, readU64Async, toOption_readU64Async_loop hseq [] r read_nil,
    List.nil_append]

theorem toOption_decodeDataAsync (len : UInt64) (isCompressed : Bool) (serial ident : UInt64)
    (r : List UInt8) : (decodeDataAsync leb len isCompressed serial ident r).toOption =
      (decodeData leb len isCompressed serial ident r).toOption := by
  unfold decodeDataAsync decodeData
  dsimp only
  split
  · rfl
  · split
    · rfl
    · rw [toOption_bind, toOption_bind, toOption_context, toOption_context]

theorem toOption_decodeRawAsync (hseq : leb.Sequential) (r : List UInt8) :
    (decodeRawAsync leb r none).toOption = (decodeRaw leb r).toOption := by
  simp only [decodeRawAsync, decodeRaw, Option.filter_none, toOption_bind, toOption_context,
    toOption_readU64Async hseq, toOption_decodeDataAsync]

theorem decodeRaw_of_decodeRawAsync (hseq : leb.Sequential) {maxSerial : Option UInt64}
    {out : Decoded × List UInt8} (h : decodeRawAsync leb r maxSerial = .ok out) :
    decodeRaw leb r = .ok out := by
  rw [← toOption_eq_some] at h ⊢
  simp only [decodeRawAsync, decodeRaw, toOption_bind, toOption_context,
    toOption_readU64Async hseq] at h ⊢
  cases hlen : (readU64 leb r).toOption with
  | none =>
    rw [hlen] at h
    cases h
  | some lenR =>
    simp only [hlen, Option.bind_some] at h ⊢
    cases hserial : (readU64 leb lenR.2).toOption with
    | none =>
      rw [hserial] at h
      cases h
    | some serialR =>
      simp only [hserial, Option.bind_some] at h ⊢
      split at h
      · cases h
      · simpa only [toOption_bind, toOption_context, toOption_readU64Async hseq,
          toOption_decodeDataAsync] using h

/-- The number at the front of the input, the bytes it is spelled with and the
bytes after it. -/
def varint (leb : Leb128) (r : List UInt8) : Option (UInt64 × List UInt8 × List UInt8) :=
  match leb.readUnsigned r with
  | .ok (v, rest) => some (v, r.take (r.length - rest.length), rest)
  | .error _ => none

/-- What stands in front of a frame's data, and what follows. -/
structure Numbers where
  len : UInt64
  lenBytes : List UInt8
  serial : UInt64
  serialBytes : List UInt8
  ident : UInt64
  identBytes : List UInt8
  data : List UInt8
  deriving DecidableEq

/-- The three numbers at the front of a buffer, when they are all there. -/
def Numbers.of (leb : Leb128) (buffer : List UInt8) : Option Numbers := do
  let (len, lenBytes, r) ← varint leb buffer
  let (serial, serialBytes, r) ← varint leb r
  let (ident, identBytes, data) ← varint leb r
  some ⟨len, lenBytes, serial, serialBytes, ident, identBytes, data⟩

namespace Numbers

/-- The value of the length field, the compression bit cleared. -/
def announced (n : Numbers) : Nat := (splitLen n.len).1.toNat

def isCompressed (n : Numbers) : Bool := (splitLen n.len).2

/-- Neither the serial number nor the identifier is padded. -/
def Unpadded (n : Numbers) : Prop :=
  ¬ Leb128.Padded n.serialBytes ∧ ¬ Leb128.Padded n.identBytes

instance (n : Numbers) : Decidable n.Unpadded :=
  inferInstanceAs (Decidable (_ ∧ _))

/-- The data that the length field announces is all there. -/
def Complete (n : Numbers) : Prop :=
  n.announced - (n.serialBytes.length + n.identBytes.length) ≤ n.data.length

instance (n : Numbers) : Decidable n.Complete :=
  inferInstanceAs (Decidable (_ ≤ _))

/-- The bytes the decoders take off the length for the two numbers. -/
def encoded (leb : Leb128) (n : Numbers) : Nat :=
  encodedLength leb n.ident + encodedLength leb n.serial

/-- The length field passes the decoders' checks. -/
def Sized (leb : Leb128) (n : Numbers) : Prop :=
  n.encoded leb ≤ n.announced ∧ n.announced - n.encoded leb ≤ maxPduSize

end Numbers

theorem varint_eq_some (hseq : leb.Sequential) {v : UInt64}
    (h : varint leb r = some (v, bytes, rest)) :
    r = bytes ++ rest ∧ leb.readUnsigned bytes = .ok (v, []) := by
  unfold varint at h
  cases hread : leb.readUnsigned r with
  | error e =>
    rw [hread] at h
    cases h
  | ok out =>
    obtain ⟨v', rest'⟩ := out
    rw [hread] at h
    simp only [Option.some.injEq, Prod.mk.injEq] at h
    obtain ⟨rfl, rfl, rfl⟩ := h
    obtain ⟨used, rfl, hused⟩ := hseq.ok_used _ _ _ hread
    have htake : (used ++ rest').take ((used ++ rest').length - rest'.length) = used := by
      rw [List.length_append, Nat.add_sub_cancel, List.take_left']
      rfl
    rw [htake]
    exact ⟨rfl, hused⟩

structure Numbers.Spells (leb : Leb128) (n : Numbers) (buffer : List UInt8) : Prop where
  buffer_eq : buffer = n.lenBytes ++ (n.serialBytes ++ (n.identBytes ++ n.data))
  len : leb.readUnsigned n.lenBytes = .ok (n.len, [])
  serial : leb.readUnsigned n.serialBytes = .ok (n.serial, [])
  ident : leb.readUnsigned n.identBytes = .ok (n.ident, [])

theorem Numbers.spells_of (hseq : leb.Sequential) {n : Numbers} (h : Numbers.of leb buffer = some n)
    : n.Spells leb buffer := by
  simp only [Numbers.of, Option.bind_eq_bind, Option.bind_eq_some_iff, Option.some.injEq] at h
  obtain ⟨⟨len, lenBytes, r₁⟩, hlen, ⟨serial, serialBytes, r₂⟩, hserial,
    ⟨ident, identBytes, data⟩, hident, rfl⟩ := h
  obtain ⟨rfl, hlenRead⟩ := varint_eq_some hseq hlen
  obtain ⟨rfl, hserialRead⟩ := varint_eq_some hseq hserial
  obtain ⟨rfl, hidentRead⟩ := varint_eq_some hseq hident
  exact ⟨rfl, hlenRead, hserialRead, hidentRead⟩

theorem Numbers.Spells.encoded_le (hshort : leb.Shortest) {n : Numbers} (h : n.Spells leb buffer) :
    n.encoded leb ≤ n.serialBytes.length + n.identBytes.length ∧
      (n.encoded leb = n.serialBytes.length + n.identBytes.length ↔ n.Unpadded) := by
  obtain ⟨hserialLe, hserialIff⟩ := hshort.length_eq h.serial
  obtain ⟨hidentLe, hidentIff⟩ := hshort.length_eq h.ident
  unfold Numbers.encoded encodedLength Numbers.Unpadded
  rw [← hserialIff, ← hidentIff]
  omega

theorem varint_eq_none (h : varint leb r = none) : (readU64 leb r).toOption = none := by
  rw [toOption_readU64]
  unfold varint at h
  cases hread : leb.readUnsigned r with
  | ok out =>
    rw [hread] at h
    cases h
  | error e => rfl

theorem readU64_of_varint {v : UInt64} (h : varint leb r = some (v, bytes, rest)) :
    readU64 leb r = .ok (v, rest) := by
  unfold varint at h
  cases hread : leb.readUnsigned r with
  | error e =>
    rw [hread] at h
    cases h
  | ok out =>
    rw [hread] at h
    simp only [Option.some.injEq, Prod.mk.injEq] at h
    rw [readU64, hread, ← h.1, ← h.2.2]
    rfl

theorem decodeRaw_of_numbers {n : Numbers} (h : Numbers.of leb buffer = some n) :
    decodeRaw leb buffer =
      decodeData leb (splitLen n.len).1 n.isCompressed n.serial n.ident n.data := by
  simp only [Numbers.of, Option.bind_eq_bind, Option.bind_eq_some_iff, Option.some.injEq] at h
  obtain ⟨⟨len, lenBytes, r₁⟩, hlen, ⟨serial, serialBytes, r₂⟩, hserial,
    ⟨ident, identBytes, data⟩, hident, rfl⟩ := h
  unfold decodeRaw
  rw [readU64_of_varint hlen]
  show ((readU64 leb r₁).context _ >>= _) = _
  rw [readU64_of_varint hserial]
  show ((readU64 leb r₂).context _ >>= _) = _
  rw [readU64_of_varint hident]
  rfl

theorem decodeRaw_without_numbers (h : Numbers.of leb buffer = none) :
    (decodeRaw leb buffer).toOption = none := by
  simp only [decodeRaw, toOption_bind, toOption_context]
  simp only [Numbers.of, Option.bind_eq_bind] at h
  cases hlen : varint leb buffer with
  | none => rw [varint_eq_none hlen, Option.bind_none]
  | some lenR =>
    obtain ⟨len, lenBytes, r₁⟩ := lenR
    rw [readU64_of_varint hlen]
    rw [hlen, Option.bind_some] at h
    show ((readU64 leb r₁).toOption.bind _) = none
    cases hserial : varint leb r₁ with
    | none => rw [varint_eq_none hserial, Option.bind_none]
    | some serialR =>
      obtain ⟨serial, serialBytes, r₂⟩ := serialR
      rw [readU64_of_varint hserial]
      rw [hserial, Option.bind_some] at h
      show ((readU64 leb r₂).toOption.bind _) = none
      cases hident : varint leb r₂ with
      | none => rw [varint_eq_none hident, Option.bind_none]
      | some identR =>
        rw [hident] at h
        cases h

theorem decodeData_cases (n : Numbers) : (¬ n.Sized leb ∧ ∃ text,
      decodeData leb (splitLen n.len).1 n.isCompressed n.serial n.ident n.data = bail text) ∨
    (n.Sized leb ∧ n.data.length < n.announced - n.encoded leb ∧ ∃ text contexts,
      decodeData leb (splitLen n.len).1 n.isCompressed n.serial n.ident n.data =
        .error ⟨.io .unexpectedEof text, contexts⟩) ∨
    (n.Sized leb ∧ n.announced - n.encoded leb ≤ n.data.length ∧
      decodeData leb (splitLen n.len).1 n.isCompressed n.serial n.ident n.data =
        .ok (⟨n.ident, n.serial, n.data.take (n.announced - n.encoded leb), n.isCompressed⟩,
          n.data.drop (n.announced - n.encoded leb))) := by
  unfold decodeData Numbers.Sized Numbers.encoded Numbers.announced
  dsimp only
  split
  · rename_i hlen
    exact .inl ⟨fun h => absurd h.1 (Nat.not_le_of_lt hlen), _, rfl⟩
  · rename_i hlen
    split
    · rename_i hmax
      exact .inl ⟨fun h => absurd h.2 (Nat.not_le_of_lt hmax), _, rfl⟩
    · rename_i hmax
      refine .inr ?_
      have hsized := And.intro (Nat.le_of_not_lt hlen) (Nat.le_of_not_lt hmax)
      unfold readExact
      split
      · rename_i hdata
        exact .inr ⟨hsized, hdata, rfl⟩
      · rename_i hdata
        exact .inl ⟨hsized, Nat.lt_of_not_le hdata, _, _, rfl⟩

end Wakterm.Codec
