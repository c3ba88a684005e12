import Wakterm.Machine.Utf8

/-!
# Base64

The bytes of paths, selections and files travel as text. The functions that do it are in another
package; what is used of them is that they are inverse.
-/

namespace Wakterm.Escape

open Wakterm.Machine

/-- `base64_encode` and `base64_decode`. -/
structure Base64 where
  encode : List UInt8 → List Char
  decode : List UInt8 → Option (List UInt8)

/-- What was encoded is decoded. -/
structure Base64.Inverse (base64 : Base64) : Prop where
  decode_encode (bytes : List UInt8) :
    base64.decode (encodeText (base64.encode bytes)) = some bytes

namespace Base64

/-- The symbol of six bits. -/
def symbol (n : Nat) : Char :=
  if n < 26 then Char.ofNat (65 + n)
  else if n < 52 then Char.ofNat (71 + n)
  else if n < 62 then Char.ofNat (n - 4)
  else if n = 62 then '+' else '/'

/-- The six bits of a symbol. -/
def value (byte : UInt8) : Option Nat :=
  let n := byte.toNat
  if 65 ≤ n ∧ n ≤ 90 then some (n - 65)
  else if 97 ≤ n ∧ n ≤ 122 then some (n - 71)
  else if 48 ≤ n ∧ n ≤ 57 then some (n + 4)
  else if n = 43 then some 62
  else if n = 47 then some 63
  else none

/-- Three bytes are four symbols, and what is missing of the last three is padded. -/
def encodeStandard : List UInt8 → List Char
  | [] => []
  | [a] => [symbol (a.toNat / 4), symbol (a.toNat % 4 * 16), '=', '=']
  | [a, b] =>
    [symbol (a.toNat / 4), symbol (a.toNat % 4 * 16 + b.toNat / 16),
      symbol (b.toNat % 16 * 4), '=']
  | a :: b :: c :: bytes =>
    symbol (a.toNat / 4) :: symbol (a.toNat % 4 * 16 + b.toNat / 16) ::
      symbol (b.toNat % 16 * 4 + c.toNat / 64) :: symbol (c.toNat % 64) :: encodeStandard bytes

/-- Four symbols are three bytes; the last four may be padded. Bits that are left over do not
matter. -/
def decodeStandard : List UInt8 → Option (List UInt8)
  | [] => some []
  | a :: b :: c :: d :: symbols => do
      let x ← value a
      let y ← value b
      let first := UInt8.ofNat (x * 4 + y / 16)
      if c = 0x3d ∧ d = 0x3d ∧ symbols = [] then return [first]
      let z ← value c
      let second := UInt8.ofNat (y % 16 * 16 + z / 4)
      if d = 0x3d ∧ symbols = [] then return [first, second]
      let w ← value d
      let rest ← decodeStandard symbols
      return first :: second :: UInt8.ofNat (z % 4 * 64 + w) :: rest
  | _ => none

/-- The codec with the standard alphabet. -/
def standard : Base64 := ⟨encodeStandard, decodeStandard⟩

theorem symbol_ascii {n : Nat} (h : n < 64) : (symbol n).toNat < 0x80 := by
  revert n
  decide

theorem value_symbol {n : Nat} (h : n < 64) :
    value (UInt8.ofNat (symbol n).toNat) = some n ∧ UInt8.ofNat (symbol n).toNat ≠ 0x3d := by
  revert n
  decide

theorem encodeText_symbol {n : Nat} (h : n < 64) (text : List Char) :
    encodeText (symbol n :: text) = UInt8.ofNat (symbol n).toNat :: encodeText text := by
  rw [encodeText_cons, encode_ascii (symbol_ascii h)]
  rfl

theorem byte_back (a : UInt8) {n : Nat} (h : n = a.toNat) : UInt8.ofNat n = a := by
  rw [h]
  exact UInt8.ofNat_toNat

theorem decode_encodeStandard (bytes : List UInt8) :
    decodeStandard (encodeText (encodeStandard bytes)) = some bytes := by
  fun_induction encodeStandard bytes with
  | case1 => rfl
  | case2 a =>
    have ha := a.toNat_lt
    obtain ⟨h1, -⟩ := value_symbol (n := a.toNat / 4) (by omega)
    obtain ⟨h2, -⟩ := value_symbol (n := a.toNat % 4 * 16) (by omega)
    rw [encodeText_symbol (by omega), encodeText_symbol (by omega)]
    show decodeStandard (_ :: _ :: 0x3d :: 0x3d :: []) = _
    rw [decodeStandard, h1, h2]
    exact congrArg (fun x => some [x]) (byte_back a (by omega))
  | case3 a b =>
    have ha := a.toNat_lt
    have hb := b.toNat_lt
    obtain ⟨h1, -⟩ := value_symbol (n := a.toNat / 4) (by omega)
    obtain ⟨h2, -⟩ := value_symbol (n := a.toNat % 4 * 16 + b.toNat / 16) (by omega)
    obtain ⟨h3, hpad⟩ := value_symbol (n := b.toNat % 16 * 4) (by omega)
    rw [encodeText_symbol (by omega), encodeText_symbol (by omega), encodeText_symbol (by omega)]
    show decodeStandard (_ :: _ :: _ :: 0x3d :: []) = _
    rw [decodeStandard, h1, h2, h3]
    show (if _ then _ else _) = _
    rw [if_neg fun h => hpad h.1]
    exact congrArg some (congrArg₂ (fun x y => [x, y]) (byte_back a (by omega))
      (byte_back b (by omega)))
  | case4 a b c bytes ih =>
    have ha := a.toNat_lt
    have hb := b.toNat_lt
    have hc := c.toNat_lt
    obtain ⟨h1, -⟩ := value_symbol (n := a.toNat / 4) (by omega)
    obtain ⟨h2, -⟩ := value_symbol (n := a.toNat % 4 * 16 + b.toNat / 16) (by omega)
    obtain ⟨h3, hpad⟩ := value_symbol (n := b.toNat % 16 * 4 + c.toNat / 64) (by omega)
    obtain ⟨h4, hpad'⟩ := value_symbol (n := c.toNat % 64) (by omega)
    rw [encodeText_symbol (by omega), encodeText_symbol (by omega), encodeText_symbol (by omega),
      encodeText_symbol (by omega), decodeStandard, h1, h2, h3, h4, ih]
    show (if _ then _ else _) = _
    rw [if_neg fun h => hpad h.1]
    show (if _ then _ else _) = _
    rw [if_neg fun h => hpad' h.1]
    show some (_ :: _ :: _ :: bytes) = _
    rw [byte_back a (by omega), byte_back b (by omega), byte_back c (by omega)]

theorem inverse_standard : standard.Inverse := ⟨decode_encodeStandard⟩

end Base64

end Wakterm.Escape
