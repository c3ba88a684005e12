import Wakterm.Base91.Logic.RoundTrip
import Wakterm.Codec.Logic.Stream

/-!
# basE91 round trip

A byte string, written to the encoder in any pieces, comes back out of the decoder however its text
is cut and whatever bytes outside the alphabet are put into it.
-/

namespace Wakterm.Theorems.Base91

open Wakterm.Base91

/-- **Round trip.** The encoder turns the bytes of `writes` into a text; any padding of that text,
in any pieces, decodes to those bytes. -/
theorem decode_encode_writes (writes : List (List UInt8)) :
    ∃ text, encodeWrites writes = some text ∧
      ∀ noisy, Padded text noisy → ∀ reads : List (List UInt8), reads.flatten = noisy →
        decodeWrites reads = some writes.flatten := by
  obtain ⟨e, d, hwrites, hsim⟩ := sim_writes sim_new writes
  obtain ⟨e', d', d'', hflush, hdecoder, hdflush, hbytes⟩ := sim_flush hsim
  refine ⟨e'.written, ?_, ?_⟩
  · simp only [encodeWrites, hwrites, hflush, Option.bind_eq_bind, Option.bind_some,
      Option.pure_def]
  · rintro noisy hpad reads rfl
    have hread : reads.foldlM Decoder.write Decoder.new = some d' := by
      rw [foldlM_decoder_write, write_padded hpad]
      exact hdecoder
    simp only [decodeWrites, hread, hdflush, Option.bind_eq_bind, Option.bind_some,
      Option.pure_def, hbytes, List.nil_append]

/-- The text of `hello\n` with a line break in it, in three pieces. -/
theorem decode_encode_writes_hello :
    encodeWrites [[104, 101], [108, 108, 111, 10]] = some [84, 80, 119, 74, 104, 62, 85, 65] ∧
      decodeWrites [[84, 80, 119], [74, 10, 104], [62, 85, 65]] =
        some [104, 101, 108, 108, 111, 10] := by
  have htext : encodeWrites [[104, 101], [108, 108, 111, 10]] =
      some [84, 80, 119, 74, 104, 62, 85, 65] := by decide
  refine ⟨htext, ?_⟩
  obtain ⟨text, henc, hdec⟩ := decode_encode_writes [[104, 101], [108, 108, 111, 10]]
  rw [htext] at henc
  cases henc
  apply hdec [84, 80, 119, 74, 10, 104, 62, 85, 65]
  · exact .keep _ (.keep _ (.keep _ (.keep _ (.skip (by decide) (.keep _ (.keep _ (.keep _
      (.keep _ .nil))))))))
  · rfl

end Wakterm.Theorems.Base91

/-!
## The PDU stream comes back

What the encoder wrote for a list of PDUs, delivered in any pieces, is read back as that list.
-/

namespace Wakterm.Theorems.Codec

open Wakterm.Machine Wakterm.Codec

/-- **PDU stream round trip.** The frames of `msgs`, in any chunks and with any number of
reads that would block between them, are read back as `msgs`, in order; then the reader is
at the end of the file and its buffer is empty. -/
theorem stream_round_trip {Payload : PduKind → Type} (wire : Wire Payload)
    (msgs : List (Pdu Payload × UInt64)) (bytes : List UInt8)
    (henc : encodeAll wire msgs = .ok bytes)
    (hinv : ∀ m ∈ msgs, m.1.Inverse wire) (hfits : ∀ m ∈ msgs, m.1.Fits wire)
    (reads : List ReadResult) (hblocks : OnlyBlocks reads) (hreads : delivered reads = bytes)
    (fuel : Nat) (hfuel : msgs.length + reads.length < fuel) : Pdu.readAll wire fuel reads [] =
      some (msgs.map fun m => ⟨m.2, m.1⟩, endOfFile, []) := by
  have hgood : Decodable wire msgs := fun m hm => ⟨hfits m hm, hinv m hm⟩
  have hpending : Pending wire msgs reads [] := by
    refine ⟨hblocks, ?_⟩
    rw [henc, hreads]
    rfl
  exact readAll_pending fuel hgood hpending hfuel

/-- The wire for PDUs without fields: their serialization is empty. -/
def emptyWire : Wire (fun _ => Unit) where
  leb128 := Leb128.reference
  serializeInto _ _ := .ok []
  deserializeFrom _ _ := .ok ()
  zstdEncode bytes := .ok bytes
  zstdDecoder bytes := .ok ⟨bytes, none⟩

theorem emptyWire_inverse (pdu : Pdu fun _ => Unit) : pdu.Inverse emptyWire := by
  cases pdu with
  | invalid ident => exact True.intro
  | known kind t =>
    intro bytes _
    refine ⟨rfl, ?_⟩
    intro compressed hz
    cases hz
    rfl

theorem emptyWire_fits (pdu : Pdu fun _ => Unit) : pdu.Fits emptyWire := by
  cases pdu with
  | invalid ident => exact True.intro
  | known kind t =>
    intro data isCompressed hs
    cases hs
    exact Nat.zero_le _

/-- What a reader gives for `Ping` and its answer, in three pieces with a pause. -/
def pingReads : List ReadResult :=
  [.data ⟨[2], by decide, by decide⟩, .error .wouldBlock "",
    .data ⟨[0x40, 1, 2], by decide, by decide⟩, .data ⟨[0x41, 2], by decide, by decide⟩]

theorem stream_round_trip_ping : Pdu.readAll emptyWire 7 pingReads [] =
      some ([⟨0x40, .known .ping ()⟩, ⟨0x41, .known .pong ()⟩], endOfFile, []) := by
  apply stream_round_trip emptyWire [(.known .ping (), 0x40), (.known .pong (), 0x41)]
    [2, 0x40, 1, 2, 0x41, 2] rfl
  · exact fun m _ => emptyWire_inverse m.1
  · exact fun m _ => emptyWire_fits m.1
  · intro kind text hmem
    simp only [pingReads, List.mem_cons, reduceCtorEq, List.not_mem_nil, or_false, false_or,
      ReadResult.error.injEq] at hmem
    exact hmem.1
  · rfl
  · decide

/-- The errors of `varbincode` are texts: where bytes ended, there is no `io::Error` behind it. -/
def varbincode {α : Type} : Result α → Result α
  | .ok a => .ok a
  | .error _ => .error ⟨.message "failed to fill whole buffer", []⟩

/-- The wire for `WriteToPane`, a number and some bytes. The bytes it is used on leave `zstd`
nothing to compress, so it stores them behind a header. -/
def writeToPaneWire : Wire (fun _ => UInt64 × List UInt8) where
  leb128 := Leb128.reference
  serializeInto _ t :=
    .ok (Leb128.reference.writeUnsigned t.1 ++
      (Leb128.reference.writeUnsigned (UInt64.ofNat t.2.length) ++ t.2))
  deserializeFrom _ r := varbincode do
    let (paneId, rest) ← readU64 Leb128.reference r.bytes
    let (len, rest) ← readU64 Leb128.reference rest
    let (data, _) ← readExact rest len.toNat
    return (paneId, data)
  zstdEncode bytes := .ok ([0x28, 0xB5, 0x2F, 0xFD] ++ bytes)
  zstdDecoder bytes := .ok ⟨bytes.drop 4, none⟩

/-- Bytes without redundancy: the high bytes of a linear congruential generator. -/
def noise : Nat → UInt64 → List UInt8
  | 0, _ => []
  | n + 1, x =>
    (x >>> 56).toUInt8 :: noise n (x * 6364136223846793005 + 1442695040888963407)

theorem noise_length (n : Nat) (x : UInt64) : (noise n x).length = n := by
  induction n generalizing x with
  | zero => rfl
  | succ n ih => simp [noise, ih]

section Oversized

variable {bytes : List UInt8} (h : bytes.length < 2 ^ 63 - 40)

include h

theorem writeToPaneWire_inverse (paneId : UInt64) :
    writeToPaneWire.InverseOn .writeToPane (paneId, bytes) := by
  have hlen : (UInt64.ofNat bytes.length).toNat = bytes.length := by
    rw [UInt64.toNat_ofNat', Nat.mod_eq_of_lt (by omega)]
  intro out hout
  cases hout
  constructor
  · show varbincode (readU64 Leb128.reference _ >>= _) = _
    rw [readU64_write, Result.ok_bind]
    show varbincode (readU64 Leb128.reference _ >>= _) = _
    rw [readU64_write, Result.ok_bind]
    show varbincode (readExact bytes (UInt64.ofNat bytes.length).toNat >>= _) = _
    have hread := readExact_append bytes []
    rw [List.append_nil] at hread
    rw [hlen, hread, Result.ok_bind]
    rfl
  · intro compressed hz
    cases hz
    rfl

omit h in
theorem writeToPaneWire_serialize (paneId : UInt64) (hlong : compressThresh < bytes.length) :
    ∃ data, serialize writeToPaneWire .writeToPane (paneId, bytes) = .ok (data, false) ∧
      bytes.length < data.length ∧ data.length ≤ bytes.length + 20 := by
  have hid := Leb128.reference.write_le paneId
  have hlen := Leb128.reference.write_le (UInt64.ofNat bytes.length)
  have hpos := Leb128.reference.write_pos paneId
  refine ⟨Leb128.reference.writeUnsigned paneId ++
    (Leb128.reference.writeUnsigned (UInt64.ofNat bytes.length) ++ bytes), ?_, ?_, ?_⟩
  · unfold serialize
    simp only [writeToPaneWire, Result.ok_bind]
    rw [if_neg, if_neg]
    · rfl
    · simp only [List.length_append]
      omega
    · simp only [List.length_append]
      omega
  · simp only [List.length_append]
    omega
  · simp only [List.length_append]
    omega

end Oversized

/-- A `read` that got one byte. -/
def byteRead (b : UInt8) : ReadResult := .data ⟨[b], by simp, by simp⟩

theorem delivered_byteReads (bytes : List UInt8) : delivered (bytes.map byteRead) = bytes := by
  induction bytes with
  | nil => rfl
  | cons b rest ih =>
    show [b] ++ delivered (rest.map byteRead) = b :: rest
    rw [ih]
    rfl

theorem onlyBlocks_byteReads (chunk : Chunk) (bytes : List UInt8) :
    OnlyBlocks (.data chunk :: bytes.map byteRead) := by
  intro kind text hmem
  simp [byteRead] at hmem

/-- One PDU with over 64 MiB that cannot be compressed. -/
def bigWrite : Pdu (fun _ => UInt64 × List UInt8) :=
  .known .writeToPane (0, noise (maxPduSize + 1) 1)

/-- **Without a bound on the size the stream does not come back**: the encoder accepts the PDU, its payload
decodes, and yet the stream reader gives nothing for it. -/
theorem oversized_pdu_lost : bigWrite.Inverse writeToPaneWire ∧
    ∃ bytes reads, encodeAll writeToPaneWire [(bigWrite, 1)] = .ok bytes ∧ OnlyBlocks reads ∧
      delivered reads = bytes ∧ ∀ fuel, Pdu.readAll writeToPaneWire fuel reads [] ≠
        some ([⟨1, bigWrite⟩], endOfFile, []) := by
  have hlen : (noise (maxPduSize + 1) 1).length = maxPduSize + 1 := noise_length _ _
  have hmax : maxPduSize = 67108864 := rfl
  refine ⟨writeToPaneWire_inverse (by omega) 0, ?_⟩
  obtain ⟨data, hs, hlong, hshort⟩ :=
    @writeToPaneWire_serialize (noise (maxPduSize + 1) 1) 0 (by unfold compressThresh; omega)
  let head := header writeToPaneWire .writeToPane 1 data false
  have hhead : head.length ≤ 30 := header_le _ _ _ _
  let chunk : Chunk := ⟨head, header_pos _ _ _ _, by omega⟩
  refine ⟨head ++ data, .data chunk :: data.map byteRead, ?_, onlyBlocks_byteReads _ _, ?_, ?_⟩
  · have henc : bigWrite.encode writeToPaneWire 1 = .ok (head ++ data) := by
      simp only [bigWrite, Pdu.encode, hs, Result.ok_bind, head, ← encodeRawAsVec_header]
      rfl
    simp only [encodeAll, henc, Result.ok_bind]
    show Except.ok (head ++ data ++ []) = Except.ok (head ++ data)
    rw [List.append_nil]
  · show head ++ delivered (data.map byteRead) = head ++ data
    rw [delivered_byteReads]
  · intro fuel
    cases fuel with
    | zero =>
      intro hc
      cases hc
    | succ fuel =>
      obtain ⟨err, he⟩ := @readAll_oversized _ writeToPaneWire .writeToPane 1 data false
        (by omega) (by omega) chunk rfl (data.map byteRead) fuel
      rw [he]
      intro hc
      exact absurd (congrArg Prod.fst (Option.some.inj hc)) (List.cons_ne_nil _ _).symm

end Wakterm.Theorems.Codec
