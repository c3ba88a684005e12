import Wakterm.Codec.Logic.Frame
import Wakterm.Codec.Pdu

/-!
# The PDU stream

The frames of a list of PDUs, cut anywhere, come back as those PDUs.
-/

namespace Wakterm.Codec

variable {Payload : PduKind → Type} {wire : Wire Payload}

theorem PduKind.ofVers_vers (kind : PduKind) : ofVers kind.vers = some kind := by
  cases kind <;> decide +kernel

/-- What the bytes of a payload are decoded to is the payload, with and without compression. -/
def Wire.InverseOn (wire : Wire Payload) (kind : PduKind) (t : Payload kind) : Prop :=
  ∀ bytes, wire.serializeInto kind t = .ok bytes →
    wire.deserializeFrom kind ⟨bytes, none⟩ = .ok t ∧
      ∀ compressed, wire.zstdEncode bytes = .ok compressed →
        wire.zstdDecoder compressed = .ok ⟨bytes, none⟩

/-- `InverseOn` for the payload of a PDU. -/
def Pdu.Inverse (wire : Wire Payload) : Pdu Payload → Prop
  | .invalid _ => True
  | .known kind t => wire.InverseOn kind t

/-- The data of the PDU's frame is at most `MAX_PDU_SIZE` bytes. -/
def Pdu.Fits (wire : Wire Payload) : Pdu Payload → Prop
  | .invalid _ => True
  | .known kind t => ∀ data isCompressed, serialize wire kind t = .ok (data, isCompressed) →
      data.length ≤ maxPduSize

variable {data buffer : List UInt8} {msgs : List (Pdu Payload × UInt64)} {reads : List ReadResult}

theorem serialize_cases {kind : PduKind} {t : Payload kind} {isCompressed : Bool}
    (h : serialize wire kind t = .ok (data, isCompressed)) :
    ∃ bytes, wire.serializeInto kind t = .ok bytes ∧ ((isCompressed = false ∧ data = bytes) ∨
        (isCompressed = true ∧ wire.zstdEncode bytes = .ok data)) := by
  unfold serialize at h
  cases hs : wire.serializeInto kind t with
  | error e => exact absurd (hs ▸ h) (by intro hc; cases hc)
  | ok bytes =>
    refine ⟨bytes, rfl, ?_⟩
    simp only [hs, Result.ok_bind] at h
    by_cases hsmall : bytes.length ≤ compressThresh
    · rw [if_pos hsmall] at h
      cases h
      exact .inl ⟨rfl, rfl⟩
    · rw [if_neg hsmall] at h
      cases hz : wire.zstdEncode bytes with
      | error e => exact absurd (hz ▸ h) (by intro hc; cases hc)
      | ok compressed =>
        simp only [hz, Result.ok_bind] at h
        split at h
        · cases h
          exact .inr ⟨rfl, rfl⟩
        · cases h
          exact .inl ⟨rfl, rfl⟩

theorem deserialize_serialize {kind : PduKind} {t : Payload kind} {isCompressed : Bool}
    (hinv : wire.InverseOn kind t) (h : serialize wire kind t = .ok (data, isCompressed)) :
    deserialize wire kind data isCompressed = .ok t := by
  obtain ⟨bytes, hs, ⟨rfl, rfl⟩ | ⟨rfl, hz⟩⟩ := serialize_cases h
  · show wire.deserializeFrom kind ⟨data, none⟩ = .ok t
    exact (hinv data hs).1
  · have hdecoder := (hinv bytes hs).2 data hz
    show (wire.zstdDecoder data >>= fun r => wire.deserializeFrom kind r) = .ok t
    rw [hdecoder, Result.ok_bind]
    exact (hinv bytes hs).1

theorem encode_cases {pdu : Pdu Payload} {serial : UInt64} {frame : List UInt8}
    (h : pdu.encode wire serial = .ok frame) : ∃ kind t data isCompressed, pdu = .known kind t ∧
      serialize wire kind t = .ok (data, isCompressed) ∧
      frame = encodeRawAsVec wire.leb128 kind.vers serial data isCompressed := by
  cases pdu with
  | invalid ident => cases h
  | known kind t =>
    cases hs : serialize wire kind t with
    | error e =>
      simp only [Pdu.encode, hs] at h
      cases h
    | ok out =>
      simp only [Pdu.encode, hs, Result.ok_bind] at h
      cases h
      exact ⟨kind, t, out.1, out.2, rfl, hs, rfl⟩

section

variable {pdu : Pdu Payload} {serial : UInt64} {frame : List UInt8}
  (henc : pdu.encode wire serial = .ok frame) (hfits : pdu.Fits wire)

include henc

include hfits

/-- **A PDU's frame decodes to the PDU**, whatever follows it. -/
theorem decode_encode (hinv : pdu.Inverse wire) (rest : List UInt8) :
    Pdu.decode wire (frame ++ rest) = .ok (⟨serial, pdu⟩, rest) := by
  obtain ⟨kind, t, data, isCompressed, rfl, hs, rfl⟩ := encode_cases henc
  have hsize : data.length ≤ maxPduSize := hfits data isCompressed hs
  unfold Pdu.decode
  rw [decodeRaw_encodeRawAsVec isCompressed hsize]
  simp only [Result.context_ok, Result.ok_bind, PduKind.ofVers_vers, deserialize_serialize hinv hs]
  rfl

/-- **A PDU's frame without its end is short.** -/
theorem decode_short {p q : List UInt8} (hsplit : frame = p ++ q) (hq : q ≠ []) :
    Short (Pdu.decode wire p) := by
  obtain ⟨kind, t, data, isCompressed, rfl, hs, rfl⟩ := encode_cases henc
  have hsize : data.length ≤ maxPduSize := hfits data isCompressed hs
  exact ((decodeRaw_short hsize hsplit hq).context _).bind _

end

theorem streamDecode_of_short (h : Short (Pdu.decode wire buffer)) :
    Pdu.streamDecode wire buffer = (.ok none, buffer) := by
  obtain ⟨text, contexts, he⟩ := h
  simp only [Pdu.streamDecode, he]

theorem streamDecode_nil : Pdu.streamDecode wire [] = (.ok none, []) :=
  streamDecode_of_short (((readU64_nil.context _).bind _ |>.context _).bind _)

/-- The bytes that the encoder writes for a list of PDUs. -/
def encodeAll (wire : Wire Payload) : List (Pdu Payload × UInt64) → Result (List UInt8)
  | [] => .ok []
  | (pdu, serial) :: rest => do
    let frame ← pdu.encode wire serial
    let frames ← encodeAll wire rest
    return frame ++ frames

theorem encodeAll_cons {pdu : Pdu Payload} {serial : UInt64}
    {rest : List (Pdu Payload × UInt64)} {bytes : List UInt8}
    (h : encodeAll wire ((pdu, serial) :: rest) = .ok bytes) :
    ∃ frame frames, pdu.encode wire serial = .ok frame ∧ encodeAll wire rest = .ok frames ∧
      bytes = frame ++ frames := by
  unfold encodeAll at h
  cases hf : pdu.encode wire serial with
  | error e => exact absurd (hf ▸ h) (by intro hc; cases hc)
  | ok frame =>
    simp only [hf, Result.ok_bind] at h
    cases hr : encodeAll wire rest with
    | error e => exact absurd (hr ▸ h) (by intro hc; cases hc)
    | ok frames =>
      simp only [hr, Result.ok_bind] at h
      cases h
      exact ⟨frame, frames, rfl, rfl, rfl⟩

/-- What a reader still has to give. -/
def delivered : List ReadResult → List UInt8
  | [] => []
  | .data chunk :: reads => chunk.bytes ++ delivered reads
  | .error _ _ :: reads => delivered reads

/-- A reader whose only errors say that no byte is there yet. -/
def OnlyBlocks (reads : List ReadResult) : Prop :=
  ∀ kind text, .error kind text ∈ reads → kind = .wouldBlock

/-- The buffer and the bytes still to come are the frames of `msgs`. -/
structure Pending (wire : Wire Payload) (msgs : List (Pdu Payload × UInt64))
    (reads : List ReadResult) (buffer : List UInt8) : Prop where
  blocks : OnlyBlocks reads
  frames : encodeAll wire msgs = .ok (buffer ++ delivered reads)

/-- Every PDU fits a frame and its payload can be decoded. -/
def Decodable (wire : Wire Payload) (msgs : List (Pdu Payload × UInt64)) : Prop :=
  ∀ m ∈ msgs, m.1.Fits wire ∧ m.1.Inverse wire

theorem Pending.tail {msgs : List (Pdu Payload × UInt64)} {kind : IoErrorKind} {text : String}
    {reads : List ReadResult} {buffer : List UInt8}
    (h : Pending wire msgs (.error kind text :: reads) buffer) : Pending wire msgs reads buffer :=
  ⟨fun k t hmem => h.blocks k t (List.mem_cons_of_mem _ hmem), h.frames⟩

theorem Pending.extend {chunk : Chunk} (h : Pending wire msgs (.data chunk :: reads) buffer) :
    Pending wire msgs reads (buffer ++ chunk.bytes) := by
  refine ⟨fun k t hmem => h.blocks k t (List.mem_cons_of_mem _ hmem), ?_⟩
  rw [h.frames, List.append_assoc]
  rfl

theorem streamDecode_pending (hgood : Decodable wire msgs) (h : Pending wire msgs reads buffer) :
    (∃ pdu serial rest remain, msgs = (pdu, serial) :: rest ∧
      Pdu.streamDecode wire buffer = (.ok (some ⟨serial, pdu⟩), remain) ∧
      Pending wire rest reads remain) ∨ (Pdu.streamDecode wire buffer = (.ok none, buffer) ∧
      (delivered reads ≠ [] ∨ msgs = [] ∧ buffer = [])) := by
  cases msgs with
  | nil =>
    have hbytes : [] = buffer ++ delivered reads := Except.ok.inj h.frames
    obtain ⟨rfl, -⟩ := List.append_eq_nil_iff.mp hbytes.symm
    exact .inr ⟨streamDecode_nil, .inr ⟨rfl, rfl⟩⟩
  | cons m rest =>
    obtain ⟨pdu, serial⟩ := m
    obtain ⟨hfits, hinv⟩ := hgood (pdu, serial) List.mem_cons_self
    obtain ⟨frame, frames, henc, hrest, hbytes⟩ := encodeAll_cons h.frames
    rcases cut_append hbytes.symm with ⟨q, hq, hframe⟩ | ⟨remain, rfl, hframes⟩
    · refine .inr ⟨streamDecode_of_short (decode_short henc hfits hframe hq), .inl ?_⟩
      rw [hframe, List.append_assoc, List.append_cancel_left_eq] at hbytes
      rw [hbytes]
      exact List.append_ne_nil_of_left_ne_nil hq frames
    · refine .inl ⟨pdu, serial, rest, remain, rfl, ?_, h.blocks, hframes ▸ hrest⟩
      simp only [Pdu.streamDecode, decode_encode henc hfits hinv remain]

def endOfFile : Error := ⟨.io .unexpectedEof "End Of File", []⟩

/-- **One call of `try_read_and_decode`** gives the next PDU, or nothing because the reader
has nothing yet, or the end of the file when no frame is left. -/
theorem tryReadAndDecode_pending (hgood : Decodable wire msgs) (h : Pending wire msgs reads buffer)
    : (∃ pdu serial rest reads' buffer', msgs = (pdu, serial) :: rest ∧
      Pdu.tryReadAndDecode wire reads buffer = (.ok (some ⟨serial, pdu⟩), reads', buffer') ∧
      Pending wire rest reads' buffer' ∧ reads'.length ≤ reads.length) ∨ (∃ reads' buffer',
      Pdu.tryReadAndDecode wire reads buffer = (.ok none, reads', buffer') ∧
      Pending wire msgs reads' buffer' ∧ reads'.length < reads.length) ∨
    (msgs = [] ∧ Pdu.tryReadAndDecode wire reads buffer = (.error endOfFile, [], [])) := by
  induction reads generalizing buffer with
  | nil =>
    unfold Pdu.tryReadAndDecode
    rcases streamDecode_pending hgood h with ⟨pdu, serial, rest, remain, hm, hd, hp⟩ | ⟨hd, hmore⟩
    · exact .inl ⟨pdu, serial, rest, [], remain, hm, by rw [hd], hp, le_rfl⟩
    · rcases hmore with hmore | ⟨rfl, rfl⟩
      · exact absurd rfl hmore
      · exact .inr (.inr ⟨rfl, by rw [hd]; rfl⟩)
  | cons read reads ih =>
    unfold Pdu.tryReadAndDecode
    rcases streamDecode_pending hgood h with ⟨pdu, serial, rest, remain, hm, hd, hp⟩ | ⟨hd, -⟩
    · exact .inl ⟨pdu, serial, rest, read :: reads, remain, hm, by rw [hd], hp, le_rfl⟩
    cases read with
    | error kind text =>
      obtain rfl := h.blocks kind text List.mem_cons_self
      exact .inr (.inl ⟨reads, buffer, by rw [hd], h.tail, Nat.lt_succ_self _⟩)
    | data chunk =>
      simp only [hd]
      rcases ih h.extend with ⟨pdu, serial, rest, r, b, hm, he, hp, hle⟩ | ⟨r, b, he, hp, hlt⟩ | hend
      · exact .inl ⟨pdu, serial, rest, r, b, hm, he, hp, Nat.le_succ_of_le hle⟩
      · exact .inr (.inl ⟨r, b, he, hp, Nat.lt_succ_of_lt hlt⟩)
      · exact .inr (.inr hend)

/-- **The whole stream**: all PDUs in order, then the end of the file with nothing left over. -/
theorem readAll_pending (fuel : Nat) (hgood : Decodable wire msgs)
    (h : Pending wire msgs reads buffer) (hfuel : msgs.length + reads.length < fuel) :
    Pdu.readAll wire fuel reads buffer = some (msgs.map fun m => ⟨m.2, m.1⟩, endOfFile, []) := by
  induction fuel generalizing msgs reads buffer with
  | zero => omega
  | succ fuel ih =>
    unfold Pdu.readAll
    rcases tryReadAndDecode_pending hgood h with
      ⟨pdu, serial, rest, r, b, rfl, he, hp, hle⟩ | ⟨r, b, he, hp, hlt⟩ | ⟨rfl, he⟩
    · have hrest : Decodable wire rest := fun m hm => hgood m (List.mem_cons_of_mem _ hm)
      have hmore : rest.length + r.length < fuel := by
        simp only [List.length_cons] at hfuel
        omega
      simp only [he, ih hrest hp hmore, Option.map_some, List.map_cons]
    · simp only [he]
      exact ih hgood hp (by omega)
    · simp only [he, List.map_nil]

/-- The three numbers of a frame. -/
def header (wire : Wire Payload) (kind : PduKind) (serial : UInt64) (data : List UInt8)
    (isCompressed : Bool) : List UInt8 :=
  wire.leb128.writeUnsigned (maskedLen wire.leb128 kind.vers serial data isCompressed) ++
    (wire.leb128.writeUnsigned serial ++ wire.leb128.writeUnsigned kind.vers)

theorem encodeRawAsVec_header (kind : PduKind) (serial : UInt64) (data : List UInt8)
    (isCompressed : Bool) : encodeRawAsVec wire.leb128 kind.vers serial data isCompressed =
      header wire kind serial data isCompressed ++ data := by
  simp only [encodeRawAsVec_eq, header, List.append_assoc]

theorem header_pos (kind : PduKind) (serial : UInt64) (data : List UInt8) (isCompressed : Bool) :
    0 < (header wire kind serial data isCompressed).length := by
  have hlen := wire.leb128.write_pos (maskedLen wire.leb128 kind.vers serial data isCompressed)
  rw [header, List.length_append]
  omega

theorem header_le (kind : PduKind) (serial : UInt64) (data : List UInt8) (isCompressed : Bool) :
    (header wire kind serial data isCompressed).length ≤ 30 := by
  have hlen := wire.leb128.write_le (maskedLen wire.leb128 kind.vers serial data isCompressed)
  have hserial := wire.leb128.write_le serial
  have hident := wire.leb128.write_le kind.vers
  simp only [header, List.length_append]
  omega

/-- **A frame over the maximum stops the stream**: its numbers alone make the reader fail. -/
theorem streamDecode_oversized {kind : PduKind} {serial : UInt64} {data : List UInt8}
    (isCompressed : Bool) (h : maxPduSize < data.length) (hlt : data.length < 2 ^ 63 - 20) :
    ∃ err, Pdu.streamDecode wire (header wire kind serial data isCompressed) =
      (.error err, header wire kind serial data isCompressed) := by
  obtain ⟨text, he⟩ := @decodeRaw_oversized wire.leb128 kind.vers serial data isCompressed h hlt []
  rw [List.append_nil] at he
  refine ⟨⟨.message text, ["decoding a PDU"]⟩, ?_⟩
  unfold Pdu.streamDecode Pdu.decode header
  rw [he]
  rfl

theorem readAll_oversized {kind : PduKind} {serial : UInt64} {data : List UInt8}
    (isCompressed : Bool) (h : maxPduSize < data.length) (hlt : data.length < 2 ^ 63 - 20)
    {chunk : Chunk} (hchunk : chunk.bytes = header wire kind serial data isCompressed)
    (reads : List ReadResult) (fuel : Nat) :
    ∃ err, Pdu.readAll wire (fuel + 1) (.data chunk :: reads) [] =
      some ([], err, header wire kind serial data isCompressed) := by
  obtain ⟨err, he⟩ := @streamDecode_oversized _ wire kind serial data isCompressed h hlt
  have hcall : Pdu.tryReadAndDecode wire (.data chunk :: reads) [] =
      (Result.context (.error err) "stream_decode of buffer for PDU", reads,
        header wire kind serial data isCompressed) := by
    unfold Pdu.tryReadAndDecode
    simp only [streamDecode_nil, List.nil_append, hchunk]
    unfold Pdu.tryReadAndDecode
    simp only [he]
  refine ⟨{ err with contexts := "stream_decode of buffer for PDU" :: err.contexts }, ?_⟩
  unfold Pdu.readAll
  rw [hcall]
  rfl

end Wakterm.Codec
