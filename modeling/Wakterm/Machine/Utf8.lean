import Mathlib.Algebra.GroupWithZero.Nat
import Mathlib.Data.List.Basic

/-!
# Texts in UTF-8

A text is its characters. `encodeText` and `fromUtf8` go between texts and their bytes; a byte of
ASCII in the bytes is a character of the text.
-/

namespace Wakterm.Machine

def encodeText (text : List Char) : List UInt8 := text.flatMap String.utf8EncodeChar

/-- `from_utf8`: the text of the bytes, if they are one. -/
def fromUtf8 (bytes : List UInt8) : Option (List Char) :=
  bytes.toByteArray.utf8Decode?.map Array.toList

/-- The byte goes on with a character. -/
def continues (byte : UInt8) : Bool := 0x80 ≤ byte && byte ≤ 0xbf

/-- The bytes begin a character of three or four bytes. -/
def begins (first second : UInt8) : Bool :=
  (first == 0xe0 && 0xa0 ≤ second && second ≤ 0xbf) ||
  (first == 0xed && 0x80 ≤ second && second ≤ 0x9f) ||
  (0xe1 ≤ first && first ≤ 0xef && first != 0xed && continues second) ||
  (first == 0xf0 && 0x90 ≤ second && second ≤ 0xbf) ||
  (0xf1 ≤ first && first ≤ 0xf3 && continues second) ||
  (first == 0xf4 && 0x80 ≤ second && second ≤ 0x8f)

/-- How many bytes are replaced where there is no character. -/
def replacedLength : List UInt8 → Nat
  | first :: second :: third :: _ =>
    if begins first second then if 0xf0 ≤ first && continues third then 3 else 2 else 1
  | [first, second] => if begins first second then 2 else 1
  | _ => 1

/-- The characters of the bytes, at most so many. -/
def lossyFrom : Nat → List UInt8 → List Char
  | 0, _ => []
  | _, [] => []
  | fuel + 1, bytes =>
    match bytes.toByteArray.utf8DecodeChar? 0 with
    | some c => c :: lossyFrom fuel (bytes.drop c.utf8Size)
    | none => '\uFFFD' :: lossyFrom fuel (bytes.drop (replacedLength bytes))

/-- `from_utf8_lossy`: what is no character is replaced. -/
def fromUtf8Lossy (bytes : List UInt8) : List Char := lossyFrom bytes.length bytes

theorem encodeText_cons (c : Char) (text : List Char) :
    encodeText (c :: text) = String.utf8EncodeChar c ++ encodeText text := List.flatMap_cons

theorem encodeText_append (a b : List Char) : encodeText (a ++ b) = encodeText a ++ encodeText b :=
  List.flatMap_append

theorem fromUtf8_encodeText (text : List Char) : fromUtf8 (encodeText text) = some text := by
  have h : (encodeText text).toByteArray = text.utf8Encode := rfl
  unfold fromUtf8
  rw [h, List.utf8Decode?_utf8Encode]
  rfl

theorem encodeText_injective : Function.Injective encodeText := by
  intro a b h
  have hread : fromUtf8 (encodeText a) = fromUtf8 (encodeText b) := by rw [h]
  rw [fromUtf8_encodeText, fromUtf8_encodeText] at hread
  exact Option.some.inj hread

theorem toList_loop (bytes : ByteArray) (i : Nat) (read : List UInt8) :
    ByteArray.toList.loop bytes i read = read.reverse ++ bytes.data.toList.drop i := by
  fun_induction ByteArray.toList.loop bytes i read with
  | case1 i read h ih =>
    have hi : i < bytes.data.toList.length := by simpa using h
    rw [ih, List.reverse_cons, List.append_assoc, List.drop_eq_getElem_cons hi]
    congr 2
    simp [ByteArray.get!, h]
  | case2 i read h =>
    have hi : bytes.data.toList.length ≤ i := by simpa using h
    simp [List.drop_eq_nil_of_le hi]

theorem toList_eq_data (bytes : ByteArray) : bytes.toList = bytes.data.toList :=
  toList_loop bytes 0 []

theorem toList_toUTF8 (text : String) : text.toUTF8.toList = encodeText text.toList := by
  have hbytes : text.toUTF8 = text.toList.utf8Encode := by
    rw [String.toUTF8_eq_toByteArray, ← String.toByteArray_ofList, String.ofList_toList]
  rw [toList_eq_data, hbytes]
  simp [List.utf8Encode, encodeText]

theorem byte_toNat {n : Nat} (h : n < 256) : (UInt8.ofNat n).toNat = n := by
  rw [UInt8.toNat_ofNat']
  exact Nat.mod_eq_of_lt h

theorem encode_ascii {c : Char} (h : c.toNat < 0x80) :
    String.utf8EncodeChar c = [UInt8.ofNat c.toNat] := by
  unfold String.utf8EncodeChar
  exact if_pos (Nat.le_of_lt_succ h)

theorem encode_above {c : Char} (h : 0x80 ≤ c.toNat) {byte : UInt8}
    (hbyte : byte ∈ String.utf8EncodeChar c) : 0x80 ≤ byte.toNat := by
  have hhigh : ∀ n, 0x80 ≤ n → n < 256 → 0x80 ≤ (UInt8.ofNat n).toNat := by
    intro n hlow hlt
    rw [byte_toNat hlt]
    exact hlow
  unfold String.utf8EncodeChar at hbyte
  have hval : c.val.toNat = c.toNat := rfl
  have hmax : c.toNat < 0x110000 := by
    rcases c.valid with hlow | ⟨-, hhigh⟩
    · exact Nat.lt_trans hlow (by decide)
    · exact hhigh
  generalize c.val.toNat = v at hval hbyte
  dsimp only at hbyte
  rw [if_neg (by omega)] at hbyte
  split at hbyte
  · simp only [List.mem_cons, List.not_mem_nil, or_false] at hbyte
    rcases hbyte with rfl | rfl <;> exact hhigh _ (by omega) (by omega)
  · split at hbyte
    · simp only [List.mem_cons, List.not_mem_nil, or_false] at hbyte
      rcases hbyte with rfl | rfl | rfl <;> exact hhigh _ (by omega) (by omega)
    · simp only [List.mem_cons, List.not_mem_nil, or_false] at hbyte
      rcases hbyte with rfl | rfl | rfl | rfl <;> exact hhigh _ (by omega) (by omega)

theorem length_le_length_encodeText (text : List Char) : text.length ≤ (encodeText text).length := by
  induction text with
  | nil => exact Nat.le_refl 0
  | cons c text ih =>
    have hpos : 0 < (String.utf8EncodeChar c).length := by
      rw [String.length_utf8EncodeChar]
      exact c.utf8Size_pos
    rw [encodeText_cons, List.length_append, List.length_cons]
    omega

theorem mem_of_mem_encodeText {a : Char} (ha : a.toNat < 0x80) {text : List Char}
    (h : UInt8.ofNat a.toNat ∈ encodeText text) : a ∈ text := by
  obtain ⟨c, hc, hbyte⟩ := List.mem_flatMap.mp h
  by_cases hascii : c.toNat < 0x80
  · rw [encode_ascii hascii, List.mem_singleton] at hbyte
    have hn := congrArg UInt8.toNat hbyte
    rw [byte_toNat (by omega), byte_toNat (by omega)] at hn
    obtain rfl : a = c := Char.toNat_inj.mp hn
    exact hc
  · have hhigh := encode_above (Nat.le_of_not_lt hascii) hbyte
    rw [byte_toNat (by omega)] at hhigh
    omega

/-- How long the parts are that are replaced. -/
def replacedIn : Nat → List UInt8 → List Nat
  | 0, _ => []
  | _, [] => []
  | fuel + 1, bytes =>
    match bytes.toByteArray.utf8DecodeChar? 0 with
    | some c => replacedIn fuel (bytes.drop c.utf8Size)
    | none => replacedLength bytes :: replacedIn fuel (bytes.drop (replacedLength bytes))

theorem replacedLength_bounds {bytes : List UInt8} (h : bytes ≠ []) :
    0 < replacedLength bytes ∧ replacedLength bytes ≤ 3 ∧ replacedLength bytes ≤ bytes.length := by
  fun_cases replacedLength bytes with
  | case1 first second third more hbegins hthird => simp
  | case2 first second third more hbegins hthird => simp
  | case3 first second third more hbegins => simp
  | case4 first second hbegins => simp
  | case5 first second hbegins => simp
  | case6 bytes hthree htwo =>
    have := List.length_pos_iff.mpr h
    omega

theorem length_encodeText_lossyFrom : ∀ (fuel : Nat) (bytes : List UInt8), bytes.length ≤ fuel →
    (encodeText (lossyFrom fuel bytes)).length =
      bytes.length + ((replacedIn fuel bytes).map (3 - ·)).sum := by
  intro fuel
  induction fuel with
  | zero =>
    intro bytes h
    rw [List.eq_nil_of_length_eq_zero (Nat.le_zero.mp h)]
    rfl
  | succ fuel ih =>
    intro bytes h
    cases bytes with
    | nil => rfl
    | cons b bytes =>
      have hne := List.cons_ne_nil b bytes
      rw [lossyFrom.eq_3 _ _ hne, replacedIn.eq_3 _ _ hne]
      cases hc : (b :: bytes).toByteArray.utf8DecodeChar? 0 with
      | some c =>
        have hsize := ByteArray.le_size_of_utf8DecodeChar?_eq_some hc
        rw [List.size_toByteArray, Nat.zero_add] at hsize
        have hpos := c.utf8Size_pos
        show (encodeText (c :: lossyFrom fuel _)).length = _ + ((replacedIn fuel _).map _).sum
        rw [encodeText_cons, List.length_append, String.length_utf8EncodeChar, ih _ (by
          rw [List.length_drop]
          omega), List.length_drop]
        omega
      | none =>
        obtain ⟨hpos, hle, hsize⟩ := replacedLength_bounds hne
        show (encodeText ('\uFFFD' :: lossyFrom fuel _)).length =
          _ + ((_ :: replacedIn fuel _).map _).sum
        rw [encodeText_cons, List.length_append, List.map_cons, List.sum_cons, ih _ (by
          rw [List.length_drop]
          omega), List.length_drop]
        have hchar : (String.utf8EncodeChar '\uFFFD').length = 3 := by decide
        omega

theorem replacedIn_le (fuel : Nat) : ∀ bytes, ∀ n ∈ replacedIn fuel bytes, n ≤ 3 := by
  induction fuel with
  | zero =>
    intro bytes n hn
    cases hn
  | succ fuel ih =>
    intro bytes n hn
    cases bytes with
    | nil => cases hn
    | cons b bytes =>
      rw [replacedIn.eq_3 _ _ (List.cons_ne_nil b bytes)] at hn
      split at hn
      · exact ih _ n hn
      · rcases List.mem_cons.mp hn with rfl | hn
        · exact (replacedLength_bounds (List.cons_ne_nil b bytes)).2.1
        · exact ih _ n hn

theorem length_fromUtf8Lossy (bytes : List UInt8) :
    bytes.length ≤ (encodeText (fromUtf8Lossy bytes)).length ∧
      ((encodeText (fromUtf8Lossy bytes)).length = bytes.length ↔
        ∀ n ∈ replacedIn bytes.length bytes, n = 3) := by
  have hlength := length_encodeText_lossyFrom bytes.length bytes (Nat.le_refl _)
  rw [fromUtf8Lossy, hlength]
  refine ⟨Nat.le_add_right _ _, ?_⟩
  have hle := replacedIn_le bytes.length bytes
  generalize replacedIn bytes.length bytes = lengths at hle
  rw [Nat.add_eq_left, List.sum_eq_zero_iff_forall_eq_nat, List.forall_mem_map]
  refine forall₂_congr fun n hn => ?_
  have := hle n hn
  omega
end Wakterm.Machine
