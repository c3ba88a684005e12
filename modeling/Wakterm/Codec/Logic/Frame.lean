import Mathlib.Data.List.Basic
import Wakterm.Codec.Frame

/-!
# What a frame decodes to

`decodeRaw` reads a whole frame back with the bytes after it untouched
(`decodeRaw_encodeRawAsVec`), finds a frame without its end short
(`decodeRaw_short`), and refuses a frame whose data is over the maximum
(`decodeRaw_oversized`): the encoder writes such frames all the same.
-/

namespace Wakterm.Codec

open Wakterm.Machine

variable {leb : Leb128}

theorem compressedMask_toBitVec : compressedMask.toBitVec = BitVec.twoPow 64 63 := by decide

variable {n : Nat} {α β : Type} {p q data : List UInt8} {ident serial : UInt64}

theorem and_compressedMask (h : n < 2 ^ 63) : UInt64.ofNat n &&& compressedMask = 0 := by
  apply UInt64.toBitVec_inj.mp
  rw [UInt64.toBitVec_and, compressedMask_toBitVec, BitVec.and_twoPow]
  have hbit : (UInt64.ofNat n).toBitVec.getLsbD 63 = false := by
    rw [UInt64.toBitVec_ofNat', BitVec.getLsbD_ofNat, Nat.testBit_lt_two_pow h]
    rfl
  rw [hbit]
  rfl

theorem splitLen_plain (h : n < 2 ^ 63) : splitLen (UInt64.ofNat n) = (UInt64.ofNat n, false) := by
  simp only [splitLen, and_compressedMask h, ne_eq, not_true_eq_false, if_false]

theorem or_and_self (a m : UInt64) : (a ||| m) &&& m = m := by
  apply UInt64.toBitVec_inj.mp
  apply BitVec.eq_of_getLsbD_eq
  intro i _
  simp only [UInt64.toBitVec_and, UInt64.toBitVec_or, BitVec.getLsbD_and, BitVec.getLsbD_or]
  cases m.toBitVec.getLsbD i <;> simp

theorem or_and_not {a m : UInt64} (h : a &&& m = 0) : (a ||| m) &&& ~~~m = a := by
  apply UInt64.toBitVec_inj.mp
  apply BitVec.eq_of_getLsbD_eq
  intro i hi
  have hbit : (a.toBitVec.getLsbD i && m.toBitVec.getLsbD i) = false := by
    rw [← BitVec.getLsbD_and, ← UInt64.toBitVec_and, h]
    simp
  simp only [UInt64.toBitVec_and, UInt64.toBitVec_or, UInt64.toBitVec_not, BitVec.getLsbD_and,
    BitVec.getLsbD_or, BitVec.getLsbD_not, hi, decide_true, Bool.true_and]
  cases ha : a.toBitVec.getLsbD i <;> cases hm : m.toBitVec.getLsbD i <;> simp_all

theorem splitLen_masked (h : n < 2 ^ 63) :
    splitLen (UInt64.ofNat n ||| compressedMask) = (UInt64.ofNat n, true) := by
  have hne : compressedMask ≠ 0 := by decide
  simp only [splitLen, or_and_self, or_and_not (and_compressedMask h), ne_eq, hne,
    not_false_eq_true, if_true]

theorem splitLen_encoded (isCompressed : Bool) (h : n < 2 ^ 63) :
    splitLen (if isCompressed then UInt64.ofNat n ||| compressedMask else UInt64.ofNat n) =
      (UInt64.ofNat n, isCompressed) := by
  cases isCompressed with
  | false => exact splitLen_plain h
  | true => exact splitLen_masked h

/-- The input ended: the error that the stream reader takes for an incomplete frame. -/
def Short {α : Type} (r : Result α) : Prop :=
  ∃ text contexts, r = .error ⟨.io .unexpectedEof text, contexts⟩

theorem Short.context {r : Result α} (h : Short r) (text : String) : Short (r.context text) := by
  obtain ⟨t, cs, rfl⟩ := h
  exact ⟨t, text :: cs, rfl⟩

theorem Short.bind {r : Result α} (h : Short r) (f : α → Result β) : Short (r >>= f) := by
  obtain ⟨t, cs, rfl⟩ := h
  exact ⟨t, cs, rfl⟩

theorem cut_append {a b p q : List α} (h : a ++ b = p ++ q) :
    (∃ q', q' ≠ [] ∧ a = p ++ q') ∨ (∃ p', p = a ++ p' ∧ b = p' ++ q) := by
  rcases List.append_eq_append_iff.mp h with ⟨p', hp, hb⟩ | ⟨q', ha, hq'⟩
  · exact .inr ⟨p', hp, hb⟩
  · by_cases hnil : q' = []
    · subst hnil
      refine .inr ⟨[], ?_, ?_⟩
      · simpa using ha.symm
      · simpa using hq'.symm
    · exact .inl ⟨q', hnil, ha⟩

theorem readU64_write (v : UInt64) (rest : List UInt8) :
    readU64 leb (leb.writeUnsigned v ++ rest) = .ok (v, rest) := by
  simp only [readU64, leb.read_write, Result.context_ok]

theorem readU64_short {v : UInt64} (h : leb.writeUnsigned v = p ++ q) (hq : q ≠ []) :
    Short (readU64 leb p) := by
  refine ⟨"failed to fill whole buffer", ["reading leb128"], ?_⟩
  simp only [readU64, leb.read_short v p q h hq, Result.context_error]

theorem readU64_nil : Short (readU64 leb []) := by
  have hpos := leb.write_pos 0
  exact readU64_short (v := 0) (List.nil_append _).symm (List.ne_nil_of_length_pos hpos)

theorem readExact_append (data rest : List UInt8) :
    readExact (data ++ rest) data.length = .ok (data, rest) := by
  simp [readExact]

theorem readExact_short {r : List UInt8} (h : r.length < n) : Short (readExact r n) := by
  refine ⟨"failed to fill whole buffer", [], ?_⟩
  simp only [readExact, Nat.not_le.mpr h, if_false]

/-- What the length field counts. -/
def frameLen (leb : Leb128) (ident serial : UInt64) (data : List UInt8) : Nat :=
  data.length + encodedLength leb ident + encodedLength leb serial

theorem frameLen_lt (h : data.length < 2 ^ 63 - 20) : frameLen leb ident serial data < 2 ^ 63 := by
  have hi := leb.write_le ident
  have hs := leb.write_le serial
  unfold frameLen encodedLength
  omega

/-- The length field of a frame. -/
def maskedLen (leb : Leb128) (ident serial : UInt64) (data : List UInt8) (isCompressed : Bool) :
    UInt64 :=
  if isCompressed then UInt64.ofNat (frameLen leb ident serial data) ||| compressedMask
  else UInt64.ofNat (frameLen leb ident serial data)

theorem encodeRawAsVec_eq (ident serial : UInt64) (data : List UInt8) (isCompressed : Bool) :
    encodeRawAsVec leb ident serial data isCompressed =
      leb.writeUnsigned (maskedLen leb ident serial data isCompressed) ++
        (leb.writeUnsigned serial ++ (leb.writeUnsigned ident ++ data)) := by
  simp only [encodeRawAsVec, maskedLen, frameLen, List.append_assoc]

theorem Result.ok_bind (a : α) (f : α → Result β) : ((.ok a : Result α) >>= f) = f a := rfl

theorem decodeRaw_numbers (isCompressed : Bool) (h : data.length < 2 ^ 63 - 20) (r : List UInt8) :
    decodeRaw leb (leb.writeUnsigned (maskedLen leb ident serial data isCompressed) ++
        (leb.writeUnsigned serial ++ (leb.writeUnsigned ident ++ r))) =
      decodeData leb (UInt64.ofNat (frameLen leb ident serial data)) isCompressed serial ident
        r := by
  have hsplit : splitLen (maskedLen leb ident serial data isCompressed) =
      (UInt64.ofNat (frameLen leb ident serial data), isCompressed) :=
    splitLen_encoded isCompressed (frameLen_lt h)
  unfold decodeRaw
  simp only [readU64_write, Result.context_ok, Result.ok_bind, hsplit]

theorem dataLen_eq (h : data.length < 2 ^ 63 - 20) :
    (UInt64.ofNat (frameLen leb ident serial data)).toNat =
      data.length + (encodedLength leb ident + encodedLength leb serial) := by
  have hlt : frameLen leb ident serial data < 2 ^ 63 := frameLen_lt h
  rw [UInt64.toNat_ofNat', Nat.mod_eq_of_lt (by omega)]
  unfold frameLen
  omega

/-- **A whole frame decodes to what was encoded, and the bytes after it stay.** -/
theorem decodeRaw_encodeRawAsVec (isCompressed : Bool) (h : data.length ≤ maxPduSize)
    (rest : List UInt8) :
    decodeRaw leb (encodeRawAsVec leb ident serial data isCompressed ++ rest) =
      .ok (⟨ident, serial, data, isCompressed⟩, rest) := by
  have hlt : data.length < 2 ^ 63 - 20 := by
    unfold maxPduSize at h
    omega
  rw [encodeRawAsVec_eq]
  simp only [List.append_assoc]
  rw [decodeRaw_numbers isCompressed hlt]
  simp only [decodeData, dataLen_eq hlt, Nat.not_lt.mpr (Nat.le_add_left _ _), if_false,
    Nat.add_sub_cancel, gt_iff_lt, Nat.not_lt.mpr h, readExact_append, Result.context_ok, Result.ok_bind]
  rfl

/-- **A frame without its end is short**, wherever it was cut. -/
theorem decodeRaw_short {isCompressed : Bool} (h : data.length ≤ maxPduSize)
    (hsplit : encodeRawAsVec leb ident serial data isCompressed = p ++ q) (hq : q ≠ []) :
    Short (decodeRaw leb p) := by
  have hlt : data.length < 2 ^ 63 - 20 := by
    unfold maxPduSize at h
    omega
  rw [encodeRawAsVec_eq] at hsplit
  rcases cut_append hsplit with ⟨q₁, hq₁, hlen⟩ | ⟨p₁, rfl, hsplit₁⟩
  · -- inside the length
    exact ((readU64_short hlen hq₁).context _).bind _
  rcases cut_append hsplit₁ with ⟨q₂, hq₂, hserial⟩ | ⟨p₂, rfl, hsplit₂⟩
  · -- inside the serial number
    unfold decodeRaw
    simp only [readU64_write, Result.context_ok, Result.ok_bind]
    exact ((readU64_short hserial hq₂).context _).bind _
  rcases cut_append hsplit₂ with ⟨q₃, hq₃, hident⟩ | ⟨p₃, rfl, hdata⟩
  · -- inside the identifier
    unfold decodeRaw
    simp only [readU64_write, Result.context_ok, Result.ok_bind]
    exact ((readU64_short hident hq₃).context _).bind _
  · -- inside the data
    have hshort : p₃.length < data.length := by
      have hpos := List.length_pos_iff.mpr hq
      rw [hdata, List.length_append]
      omega
    rw [decodeRaw_numbers isCompressed hlt]
    simp only [decodeData, dataLen_eq hlt, Nat.not_lt.mpr (Nat.le_add_left _ _), if_false,
      Nat.add_sub_cancel, gt_iff_lt, Nat.not_lt.mpr h]
    exact ((readExact_short hshort).context _).bind _

/-- **A frame with more data than the maximum is refused** as soon as its numbers are there. -/
theorem decodeRaw_oversized {ident serial : UInt64} {data : List UInt8} (isCompressed : Bool)
    (h : maxPduSize < data.length) (hlt : data.length < 2 ^ 63 - 20) (r : List UInt8) :
    ∃ text, decodeRaw leb (leb.writeUnsigned (maskedLen leb ident serial data isCompressed) ++
        (leb.writeUnsigned serial ++ (leb.writeUnsigned ident ++ r))) = bail text := by
  rw [decodeRaw_numbers isCompressed hlt]
  simp only [decodeData, dataLen_eq hlt, Nat.not_lt.mpr (Nat.le_add_left _ _), if_false,
    Nat.add_sub_cancel, gt_iff_lt, h, if_true]
  exact ⟨_, rfl⟩

end Wakterm.Codec
