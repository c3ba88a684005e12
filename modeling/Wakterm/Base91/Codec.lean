import Mathlib.Data.Nat.Bitwise

/-!
# basE91

The encoder and the decoder of `base91/src/lib.rs`.
-/

namespace Wakterm.Base91

/-- `ENCTAB`: the letters, the digits and most of the punctuation. -/
def enctab : List UInt8 :=
  [65, 66, 67, 68, 69, 70, 71, 72, 73, 74, 75, 76, 77, 78, 79, 80, 81, 82, 83, 84, 85, 86, 87,
   88, 89, 90, 97, 98, 99, 100, 101, 102, 103, 104, 105, 106, 107, 108, 109, 110, 111, 112, 113,
   114, 115, 116, 117, 118, 119, 120, 121, 122, 48, 49, 50, 51, 52, 53, 54, 55, 56, 57, 33, 35,
   36, 37, 38, 40, 41, 42, 43, 44, 46, 47, 58, 59, 60, 61, 62, 63, 64, 91, 93, 94, 95, 96, 123,
   124, 125, 126, 34]

def inv : Nat := 91

def dectab : List Nat :=
  [inv, inv, inv, inv, inv, inv, inv, inv, inv, inv, inv, inv, inv, inv, inv, inv, inv, inv,
   inv, inv, inv, inv, inv, inv, inv, inv, inv, inv, inv, inv, inv, inv, inv, 62, 90, 63, 64,
   65, 66, inv, 67, 68, 69, 70, 71, inv, 72, 73, 52, 53, 54, 55, 56, 57, 58, 59, 60, 61, 74, 75,
   76, 77, 78, 79, 80, 0, 1, 2, 3, 4, 5, 6, 7, 8, 9, 10, 11, 12, 13, 14, 15, 16, 17, 18, 19, 20,
   21, 22, 23, 24, 25, 81, inv, 82, 83, 84, 85, 26, 27, 28, 29, 30, 31, 32, 33, 34, 35, 36, 37,
   38, 39, 40, 41, 42, 43, 44, 45, 46, 47, 48, 49, 50, 51, 86, 87, 88, 89, inv, inv, inv, inv,
   inv, inv, inv, inv, inv, inv, inv, inv, inv, inv, inv, inv, inv, inv, inv, inv, inv, inv,
   inv, inv, inv, inv, inv, inv, inv, inv, inv, inv, inv, inv, inv, inv, inv, inv, inv, inv,
   inv, inv, inv, inv, inv, inv, inv, inv, inv, inv, inv, inv, inv, inv, inv, inv, inv, inv,
   inv, inv, inv, inv, inv, inv, inv, inv, inv, inv, inv, inv, inv, inv, inv, inv, inv, inv,
   inv, inv, inv, inv, inv, inv, inv, inv, inv, inv, inv, inv, inv, inv, inv, inv, inv, inv,
   inv, inv, inv, inv, inv, inv, inv, inv, inv, inv, inv, inv, inv, inv, inv, inv, inv, inv,
   inv, inv, inv, inv, inv, inv, inv, inv, inv, inv, inv, inv, inv, inv, inv, inv, inv]

/-- `bits -= n`. -/
def sub (bits n : Nat) : Option Nat :=
  if n ≤ bits then some (bits - n) else none

/-- `u64 << bits`. -/
def shl64 (value bits : Nat) : Option Nat :=
  if bits < 64 then some ((value <<< bits) % 2 ^ 64) else none

/-- `u8 << bits`. -/
def shl8 (value bits : Nat) : Option Nat :=
  if bits < 8 then some ((value <<< bits) % 2 ^ 8) else none

/-- `Base91Encoder`. -/
structure Encoder where
  accumulator : Nat
  bits : Nat
  written : List UInt8

namespace Encoder

def new : Encoder := ⟨0, 0, []⟩

/-- The two characters of a value. -/
def pair (val : Nat) : Option (List UInt8) := do
  let low ← enctab[val % 91]?
  let high ← enctab[val / 91]?
  return [low, high]

/-- `write`, for one byte of the buffer. -/
def writeByte (e : Encoder) (b : UInt8) : Option Encoder := do
  let shifted ← shl64 b.toNat e.bits
  let accumulator := e.accumulator ||| shifted
  let bits := e.bits + 8
  if bits > 13 then
    let val := accumulator &&& 8191
    if val > 88 then
      let bits ← sub bits 13
      let out ← pair val
      return ⟨accumulator >>> 13, bits, e.written ++ out⟩
    else
      -- there is room for a fourteenth bit
      let val := accumulator &&& 16383
      let bits ← sub bits 14
      let out ← pair val
      return ⟨accumulator >>> 14, bits, e.written ++ out⟩
  else
    return ⟨accumulator, bits, e.written⟩

def write (e : Encoder) (buf : List UInt8) : Option Encoder :=
  buf.foldlM writeByte e

def flush (e : Encoder) : Option Encoder :=
  if e.bits > 0 then do
    let val := e.accumulator
    let out ←
      if e.bits > 7 ∨ e.accumulator > 90 then pair val
      else (enctab[val % 91]?).map fun low => [low]
    return ⟨0, 0, e.written ++ out⟩
  else
    some ⟨0, 0, e.written⟩

end Encoder

/-- What an encoder has written after some `write`s and a `flush`. -/
def encodeWrites (writes : List (List UInt8)) : Option (List UInt8) := do
  let e ← writes.foldlM Encoder.write Encoder.new
  let e ← e.flush
  return e.written

/-- `Base91Decoder`. -/
structure Decoder where
  accumulator : Nat
  bits : Nat
  value : Option Nat
  written : List UInt8

namespace Decoder

def new : Decoder := ⟨0, 0, none, []⟩

/-- The loop that writes out whole bytes. Every turn takes eight bits, so `bits` turns are
enough. -/
def drain : Nat → Decoder → Option Decoder
  | 0, _ => none
  | fuel + 1, d => do
    let out := (d.accumulator &&& 0xff).toUInt8
    let bits ← sub d.bits 8
    let d : Decoder := ⟨d.accumulator >>> 8, bits, d.value, d.written ++ [out]⟩
    if d.bits < 8 then return d else drain fuel d

/-- `write`, for one byte of the buffer. -/
def writeByte (d : Decoder) (b : UInt8) : Option Decoder := do
  let digit ← dectab[b.toNat]?
  if digit = inv then return d
  else
    match d.value with
    | some value =>
      let value := value + digit * 91
      let shifted ← shl64 value d.bits
      let bits := d.bits + if value &&& 8191 > 88 then 13 else 14
      drain bits ⟨d.accumulator ||| shifted, bits, none, d.written⟩
    | none => return { d with value := some digit }

def write (d : Decoder) (buf : List UInt8) : Option Decoder :=
  buf.foldlM writeByte d

def flush (d : Decoder) : Option Decoder :=
  match d.value with
  | some value => do
    let shifted ← shl8 value d.bits
    let out := ((d.accumulator &&& 0xff) ||| shifted).toUInt8
    return ⟨0, 0, none, d.written ++ [out]⟩
  | none => some ⟨0, 0, none, d.written⟩

end Decoder

/-- What a decoder has written after some `write`s and a `flush`. -/
def decodeWrites (writes : List (List UInt8)) : Option (List UInt8) := do
  let d ← writes.foldlM Decoder.write Decoder.new
  let d ← d.flush
  return d.written

def encode (buf : List UInt8) : Option (List UInt8) := encodeWrites [buf]

def decode (buf : List UInt8) : Option (List UInt8) := decodeWrites [buf]

end Wakterm.Base91
