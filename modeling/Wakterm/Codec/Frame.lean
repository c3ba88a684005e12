import Wakterm.Machine.Leb128

/-!
# The frames of the mux protocol

A frame is the length of what follows, a serial number, the identifier of the PDU and its data.
-/

namespace Wakterm.Codec

open Wakterm.Machine

/-- The kinds of `std::io::Error` that the code tells apart. -/
inductive IoErrorKind where
  | unexpectedEof
  | wouldBlock
  | other
  deriving DecidableEq

/-- The error at the bottom of an `anyhow::Error`. -/
inductive RootCause where
  | io (kind : IoErrorKind) (text : String)
  | leb128Overflow
  | message (text : String)
  deriving DecidableEq

/-- `anyhow::Error`: the root cause under its contexts, the outermost first. -/
structure Error where
  rootCause : RootCause
  contexts : List String := []
  deriving DecidableEq

abbrev Result (α : Type) : Type := Except Error α

def Result.context {α : Type} (r : Result α) (text : String) : Result α :=
  match r with
  | .ok a => .ok a
  | .error e => .error { e with contexts := text :: e.contexts }

def bail {α : Type} (text : String) : Result α :=
  .error ⟨.message text, []⟩

@[simp] theorem Result.context_ok {α : Type} (a : α) (text : String) :
    Result.context (.ok a) text = .ok a := rfl

@[simp] theorem Result.context_error {α : Type} (e : Error) (text : String) :
    Result.context (.error e : Result α) text =
      .error { e with contexts := text :: e.contexts } := rfl

/-- `encoded_length`: how many bytes `leb128::write::unsigned` writes. -/
def encodedLength (leb : Leb128) (value : UInt64) : Nat :=
  (leb.writeUnsigned value).length

def compressedMask : UInt64 := (1 : UInt64) <<< 63

def encodeRawAsVec (leb : Leb128) (ident serial : UInt64) (data : List UInt8)
    (isCompressed : Bool) : List UInt8 :=
  let len := data.length + encodedLength leb ident + encodedLength leb serial
  let maskedLen := if isCompressed then UInt64.ofNat len ||| compressedMask else UInt64.ofNat len
  leb.writeUnsigned maskedLen ++ leb.writeUnsigned serial ++ leb.writeUnsigned ident ++ data

def maxPduSize : Nat := 64 * 1024 * 1024

def readU64 (leb : Leb128) (r : List UInt8) : Result (UInt64 × List UInt8) :=
  Result.context
    (match leb.readUnsigned r with
      | .ok a => .ok a
      | .error .unexpectedEof => .error ⟨.io .unexpectedEof "failed to fill whole buffer", []⟩
      | .error .overflow => .error ⟨.leb128Overflow, []⟩)
    "reading leb128"

def readExact (r : List UInt8) (n : Nat) : Result (List UInt8 × List UInt8) :=
  if n ≤ r.length then .ok (r.take n, r.drop n)
  else .error ⟨.io .unexpectedEof "failed to fill whole buffer", []⟩

structure Decoded where
  ident : UInt64
  serial : UInt64
  data : List UInt8
  isCompressed : Bool
  deriving DecidableEq

/-- The length field, without its top bit and with it. -/
def splitLen (len : UInt64) : UInt64 × Bool :=
  if len &&& compressedMask ≠ 0 then (len &&& ~~~compressedMask, true) else (len, false)

/-- `decode_raw`, once its three numbers are read. -/
def decodeData (leb : Leb128) (len : UInt64) (isCompressed : Bool) (serial ident : UInt64)
    (r : List UInt8) : Result (Decoded × List UInt8) :=
  let encIdent := encodedLength leb ident
  let encSerial := encodedLength leb serial
  -- `overflowing_sub`: the length field is below the size of the two numbers it counts
  if len.toNat < encIdent + encSerial then
    bail (s!"sizes don't make sense: len:{len} serial:{serial} (enc={encSerial}) " ++
      s!"ident:{ident} (enc={encIdent})")
  else
    let dataLen := len.toNat - (encIdent + encSerial)
    if dataLen > maxPduSize then
      bail (s!"PDU data_len {dataLen} exceeds MAX_PDU_SIZE {maxPduSize} " ++
        s!"(len:{len} serial:{serial} ident:{ident})")
    else do
      let (data, r) ← (readExact r dataLen).context
        (s!"reading {dataLen} bytes of data for PDU of length {len} " ++
          s!"with serial={serial} ident={ident}")
      return (⟨ident, serial, data, isCompressed⟩, r)

def decodeRaw (leb : Leb128) (r : List UInt8) : Result (Decoded × List UInt8) := do
  let (len, r) ← (readU64 leb r).context "reading PDU length"
  let (len, isCompressed) := splitLen len
  let (serial, r) ← (readU64 leb r).context "reading PDU serial"
  let (ident, r) ← (readU64 leb r).context "reading PDU ident"
  decodeData leb len isCompressed serial ident r

/-- The loop of `read_u64_async`: `buf` grows by a byte a round and is read
again from its start. -/
def readU64Async.loop (leb : Leb128) (buf : List UInt8) :
    List UInt8 → Result (UInt64 × List UInt8)
  | [] => .error ⟨.io .unexpectedEof "EOF while reading leb128 encoded value", []⟩
  | byte :: r =>
    match leb.readUnsigned (buf ++ [byte]) with
    | .ok (n, _) => .ok (n, r)
    | .error .unexpectedEof => loop leb (buf ++ [byte]) r
    | .error .overflow => bail "leb128 is too large"

def readU64Async (leb : Leb128) (r : List UInt8) : Result (UInt64 × List UInt8) :=
  readU64Async.loop leb [] r

def corruptResponse {α : Type} (text : String) : Result α :=
  bail s!"Corrupt Response: {text}"

/-- `decode_raw_async`, once its three numbers are read. -/
def decodeDataAsync (leb : Leb128) (len : UInt64) (isCompressed : Bool) (serial ident : UInt64)
    (r : List UInt8) : Result (Decoded × List UInt8) :=
  let encIdent := encodedLength leb ident
  let encSerial := encodedLength leb serial
  if len.toNat < encIdent + encSerial then
    corruptResponse ("decode_raw_async: sizes don't make sense: " ++
      s!"len:{len} serial:{serial} (enc={encSerial}) ident:{ident} (enc={encIdent})")
  else
    let dataLen := len.toNat - (encIdent + encSerial)
    if dataLen > maxPduSize then
      corruptResponse (s!"decode_raw_async: PDU data_len {dataLen} exceeds MAX_PDU_SIZE " ++
        s!"{maxPduSize} (len:{len} serial:{serial} ident:{ident})")
    else do
      let (data, r) ← (readExact r dataLen).context
        (s!"decode_raw_async failed to read {dataLen} bytes of data " ++
          s!"for PDU of length {len} with serial={serial} ident={ident}")
      return (⟨ident, serial, data, isCompressed⟩, r)

/-- `decode_raw_async`. A `max_serial` of zero is no bound. -/
def decodeRawAsync (leb : Leb128) (r : List UInt8) (maxSerial : Option UInt64) :
    Result (Decoded × List UInt8) := do
  let (len, r) ← (readU64Async leb r).context "decode_raw_async failed to read PDU length"
  let (len, isCompressed) := splitLen len
  let (serial, r) ← (readU64Async leb r).context "decode_raw_async failed to read PDU serial"
  match maxSerial.filter fun m => serial > m ∧ m > 0 with
  | some m =>
    corruptResponse
      s!"decode_raw_async: serial {serial} is implausibly large (bigger than {m})"
  | none => do
    let (ident, r) ← (readU64Async leb r).context "decode_raw_async failed to read PDU ident"
    decodeDataAsync leb len isCompressed serial ident r

end Wakterm.Codec
