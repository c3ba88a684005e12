import Mathlib.Algebra.Group.Nat.Defs
import Mathlib.Data.List.Basic

/-!
# Numbers as texts

`to_string` and `from_str` of the integers: a number is printed in decimal, and a text is a number
if it is made of digits, with a sign in front if need be, and within the range of its type.
-/

namespace Wakterm.Machine

/-- The number that the text is, if it is made of digits. -/
def digits (text : List Char) : Option Nat :=
  if text ≠ [] ∧ text.all Char.isDigit then some (Nat.ofDigitChars 10 text 0) else none

/-- A sign that says nothing. -/
def dropPlus : List Char → List Char
  | '+' :: text => text
  | text => text

/-- `u32::from_str`. -/
def parseU32 (text : List Char) : Option UInt32 :=
  match digits (dropPlus text) with
  | some n => if n < 2 ^ 32 then some (UInt32.ofNat n) else none
  | none => none

/-- `i32::from_str`. -/
def parseI32 (text : List Char) : Option Int32 :=
  match text with
  | '-' :: text =>
    match digits text with
    | some n => if n ≤ 2 ^ 31 then some (Int32.ofInt (-n)) else none
    | none => none
  | text =>
    match digits (dropPlus text) with
    | some n => if n < 2 ^ 31 then some (Int32.ofInt n) else none
    | none => none

/-- A natural number in decimal. -/
def printNat (n : Nat) : List Char := Nat.toDigits 10 n

/-- A number in decimal, with its sign. -/
def printInt : Int → List Char
  | .ofNat n => printNat n
  | .negSucc n => '-' :: printNat (n + 1)

/-- `u32::to_string`. -/
def printU32 (n : UInt32) : List Char := printNat n.toNat

/-- `i32::to_string`. -/
def printI32 (n : Int32) : List Char := printInt n.toInt

theorem isDigit_of_mem_printNat {n : Nat} {c : Char} (h : c ∈ printNat n) : c.isDigit = true :=
  Nat.isDigit_of_mem_toDigits (by decide) (by decide) h

theorem digits_printNat (n : Nat) : digits (printNat n) = some n := by
  unfold digits
  rw [if_pos ⟨Nat.toDigits_ne_nil, List.all_eq_true.mpr fun c hc => isDigit_of_mem_printNat hc⟩]
  exact congrArg some Nat.ofDigitChars_ten_toDigits

theorem printNat_head (n : Nat) : ∃ c text, printNat n = c :: text ∧ c ≠ '+' ∧ c ≠ '-' := by
  obtain ⟨c, text, htext⟩ := List.exists_cons_of_ne_nil (Nat.toDigits_ne_nil (n := n) (b := 10))
  have hdigit : c.isDigit = true := isDigit_of_mem_printNat (n := n) (by
    unfold printNat
    rw [htext]
    exact List.mem_cons_self)
  refine ⟨c, text, htext, ?_, ?_⟩
  · rintro rfl
    exact absurd hdigit (by decide)
  · rintro rfl
    exact absurd hdigit (by decide)

theorem dropPlus_printNat (n : Nat) : dropPlus (printNat n) = printNat n := by
  obtain ⟨c, text, htext, hplus, -⟩ := printNat_head n
  rw [htext]
  unfold dropPlus
  split
  · next h =>
    rw [List.cons.injEq] at h
    exact absurd h.1 hplus
  · rfl

theorem parseU32_printU32 (n : UInt32) : parseU32 (printU32 n) = some n := by
  have hlt : n.toNat < 2 ^ 32 := n.toNat_lt
  unfold parseU32 printU32
  rw [dropPlus_printNat, digits_printNat]
  dsimp only
  rw [if_pos hlt, UInt32.ofNat_toNat]

theorem parseI32_printI32 (n : Int32) : parseI32 (printI32 n) = some n := by
  have hlow : -2 ^ 31 ≤ n.toInt := n.le_toInt
  have hhigh : n.toInt < 2 ^ 31 := n.toInt_lt
  have hback : Int32.ofInt n.toInt = n := Int32.ofInt_toInt n
  unfold printI32
  cases hn : n.toInt with
  | ofNat k =>
    obtain ⟨c, text, htext, -, hminus⟩ := printNat_head k
    have hplus := dropPlus_printNat k
    have hdigits := digits_printNat k
    rw [hn] at hhigh hback
    show parseI32 (printNat k) = some n
    rw [htext] at hplus hdigits ⊢
    unfold parseI32
    split
    · next h =>
      rw [List.cons.injEq] at h
      exact absurd h.1 hminus
    · rw [hplus, hdigits]
      dsimp only
      rw [if_pos (Int.ofNat_lt.mp hhigh)]
      exact congrArg some hback
  | negSucc k =>
    rw [hn] at hlow hback
    show parseI32 ('-' :: printNat (k + 1)) = some n
    rw [parseI32, digits_printNat]
    show (if k + 1 ≤ 2 ^ 31 then some (Int32.ofInt (-↑(k + 1))) else none) = some n
    rw [if_pos (by omega)]
    exact congrArg some hback

end Wakterm.Machine

/-!
## Fields that are separated

A text is cut into fields at each separator, and each symbol of a field is encoded.
-/

namespace Wakterm.Machine

variable {α β : Type} [DecidableEq α]

/-- One more symbol: a separator begins a field, and what is none goes to the last one. -/
def pushField (sep : α) (encode : α → List β) (fields : List (List β)) (a : α) : List (List β) :=
  if a = sep then fields ++ [[]] else fields.dropLast ++ [fields.getLastD [] ++ encode a]

theorem pushField_sep (sep : α) (encode : α → List β) (fields : List (List β)) :
    pushField sep encode fields sep = fields ++ [[]] := if_pos rfl

theorem pushField_of_ne {sep a : α} (h : a ≠ sep) (encode : α → List β) (front : List (List β))
    (last : List β) : pushField sep encode (front ++ [last]) a = front ++ [last ++ encode a] := by
  unfold pushField
  rw [if_neg h, List.dropLast_concat, List.getLastD_concat]

theorem foldl_pushField (sep : α) (encode : α → List β) (front : List (List β)) (last : List β)
    (text : List α) : text.foldl (pushField sep encode) (front ++ [last]) =
      front ++ ((text.splitOn sep).map (List.flatMap encode)).modifyHead (last ++ ·) := by
  induction text generalizing front last with
  | nil => simp [List.splitOn_eq_splitOnP]
  | cons a text ih =>
    obtain ⟨field, fields, hfields⟩ := List.exists_cons_of_ne_nil (List.splitOn_ne_nil sep text)
    rw [List.foldl_cons, List.splitOn_cons_eq_if_modifyHead, hfields]
    by_cases ha : a = sep
    · rw [ha, pushField_sep, ih, hfields, if_pos (BEq.refl sep)]
      simp
    · rw [pushField_of_ne ha, ih, hfields, if_neg (by simpa using ha)]
      simp

theorem foldl_pushField_nil (sep : α) (encode : α → List β) (text : List α) :
    text.foldl (pushField sep encode) [[]] = (text.splitOn sep).map (List.flatMap encode) := by
  obtain ⟨field, fields, hfields⟩ := List.exists_cons_of_ne_nil (List.splitOn_ne_nil sep text)
  have h := foldl_pushField sep encode [] [] text
  rw [List.nil_append, hfields] at h
  rw [h, hfields]
  simp

/-- What is before the first separator, and what is after it if there is one. -/
def splitOnce (sep : α) : List α → List α × Option (List α)
  | [] => ([], none)
  | a :: text =>
    if a = sep then ([], some text)
    else ((a :: (splitOnce sep text).1), (splitOnce sep text).2)

theorem splitOnce_of_not_mem {sep : α} {text : List α} (h : sep ∉ text) :
    splitOnce sep text = (text, none) := by
  induction text with
  | nil => rfl
  | cons a text ih =>
    rw [splitOnce, if_neg (Ne.symm (List.ne_of_not_mem_cons h)),
      ih (List.not_mem_of_not_mem_cons h)]

theorem splitOnce_append {sep : α} {front : List α} (h : sep ∉ front) (text : List α) :
    splitOnce sep (front ++ sep :: text) = (front, some text) := by
  induction front with
  | nil => exact if_pos rfl
  | cons a front ih =>
    rw [List.cons_append, splitOnce, if_neg (Ne.symm (List.ne_of_not_mem_cons h)),
      ih (List.not_mem_of_not_mem_cons h)]

/-- Where each of the fields ends, if the first begins at `offset`. -/
def offsets (offset : Nat) : List (List β) → List Nat
  | [] => []
  | field :: fields => (offset + field.length) :: offsets (offset + field.length) fields

theorem offsets_append (offset : Nat) (fields : List (List β)) (field : List β) :
    offsets offset (fields ++ [field]) =
      offsets offset fields ++ [offset + (fields.flatten ++ field).length] := by
  induction fields generalizing offset with
  | nil => rfl
  | cons f fields ih =>
    rw [List.cons_append, offsets, ih, offsets, List.cons_append, List.flatten_cons]
    simp only [List.length_append]
    rw [show offset + f.length + (fields.flatten.length + field.length) =
      offset + (f.length + fields.flatten.length + field.length) by omega]

end Wakterm.Machine
