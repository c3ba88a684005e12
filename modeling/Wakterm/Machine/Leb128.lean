import Mathlib.Tactic.IntervalCases
import Mathlib.Tactic.Ring

/-!
# LEB128

Unsigned 64-bit numbers as groups of seven bits, lowest first, every byte but the last with its high
bit set.
-/

namespace Wakterm.Machine

/-- Why a number could not be read. -/
inductive Leb128.ReadError where
  | unexpectedEof
  | overflow
  deriving DecidableEq

/-- A reader and a writer of LEB128 numbers, and what they promise. -/
structure Leb128 where
  writeUnsigned : UInt64 → List UInt8
  readUnsigned : List UInt8 → Except Leb128.ReadError (UInt64 × List UInt8)
  write_pos : ∀ v, 0 < (writeUnsigned v).length
  write_le : ∀ v, (writeUnsigned v).length ≤ 10
  read_write : ∀ v rest, readUnsigned (writeUnsigned v ++ rest) = .ok (v, rest)
  read_short : ∀ v p q, writeUnsigned v = p ++ q → q ≠ [] →
    readUnsigned p = .error .unexpectedEof

namespace Leb128

/-! ## The format -/

/-- The bytes of `v`, at most `fuel` of them. -/
def bytesOf : Nat → Nat → List UInt8
  | 0, _ => []
  | fuel + 1, v =>
    if v < 128 then [v.toUInt8] else (v % 128 + 128).toUInt8 :: bytesOf fuel (v / 128)

/-- Past the tenth byte: the rest of the number is skipped and refused. -/
def skipOverflow : UInt8 → List UInt8 → ReadError
  | b, rest =>
    if b.toNat < 128 then .overflow
    else match rest with
      | [] => .unexpectedEof
      | b' :: rest' => skipOverflow b' rest'

/-- One byte at a time, with the groups read so far in `result`. -/
def readFrom (shift result : Nat) : List UInt8 → Except ReadError (Nat × List UInt8)
  | [] => .error .unexpectedEof
  | b :: rest =>
    if shift = 63 ∧ b ≠ 0 ∧ b ≠ 1 then .error (skipOverflow b rest)
    else
      let result := result + b.toNat % 128 * 2 ^ shift
      if b.toNat < 128 then .ok (result, rest) else readFrom (shift + 7) result rest

theorem toNat_byte {n : Nat} (h : n < 256) : n.toUInt8.toNat = n := by
  simp [Nat.mod_eq_of_lt h]

theorem bytesOf_pos (fuel v : Nat) : 0 < (bytesOf (fuel + 1) v).length := by
  unfold bytesOf
  split <;> simp

theorem bytesOf_le (fuel v : Nat) : (bytesOf fuel v).length ≤ fuel := by
  induction fuel generalizing v with
  | zero => simp [bytesOf]
  | succ fuel ih =>
    unfold bytesOf
    split
    · simp
    · simpa using ih (v / 128)

variable {shift v : Nat}

theorem not_refused {b : Nat} (hv : v * 2 ^ shift < 2 ^ 64) (hb : b = v) (h : b < 128) :
    ¬ (shift = 63 ∧ b.toUInt8 ≠ 0 ∧ b.toUInt8 ≠ 1) := by
  rintro ⟨rfl, h0, h1⟩
  subst hb
  have hb : b < 2 := by omega
  interval_cases b
  · exact h0 rfl
  · exact h1 rfl

theorem shift_ne (hv : v * 2 ^ shift < 2 ^ 64) (h : ¬ v < 128) : shift ≠ 63 := by
  rintro rfl
  omega

theorem group_lt (hv : v * 2 ^ shift < 2 ^ 64) : v / 128 * 2 ^ (shift + 7) < 2 ^ 64 := by
  calc v / 128 * 2 ^ (shift + 7) = v / 128 * 128 * 2 ^ shift := by ring
    _ ≤ v * 2 ^ shift := Nat.mul_le_mul_right _ (Nat.div_mul_le_self v 128)
    _ < 2 ^ 64 := hv

theorem group_sum (shift result v : Nat) :
    result + v % 128 * 2 ^ shift + v / 128 * 2 ^ (shift + 7) = result + v * 2 ^ shift := by
  have hsplit : v * 2 ^ shift = (128 * (v / 128) + v % 128) * 2 ^ shift := by
    rw [Nat.div_add_mod]
  rw [hsplit]
  ring

theorem readFrom_bytesOf (fuel shift result v : Nat) (rest : List UInt8)
    (hf : v < 128 ^ fuel) (hv : v * 2 ^ shift < 2 ^ 64) (hpos : 0 < fuel) :
    readFrom shift result (bytesOf fuel v ++ rest) = .ok (result + v * 2 ^ shift, rest) := by
  induction fuel generalizing shift result v with
  | zero => omega
  | succ fuel ih =>
    unfold bytesOf
    by_cases h : v < 128
    · have hbyte : v.toUInt8.toNat = v := toNat_byte (by omega)
      have hmod : v % 128 = v := Nat.mod_eq_of_lt h
      simp only [h, if_true, List.cons_append, List.nil_append, readFrom, hbyte, hmod,
        if_neg (not_refused hv rfl h)]
    · have hbyte : (v % 128 + 128).toUInt8.toNat = v % 128 + 128 := toNat_byte (by omega)
      have hmod : (v % 128 + 128) % 128 = v % 128 := by omega
      have hcont : ¬ v % 128 + 128 < 128 := by omega
      have hdiv : v / 128 < 128 ^ fuel := by
        rw [Nat.div_lt_iff_lt_mul (by omega), ← pow_succ]
        exact hf
      have hfuel : 0 < fuel := by
        rcases Nat.eq_zero_or_pos fuel with h0 | h0
        · subst h0
          simp only [zero_add, pow_one] at hf
          exact absurd hf h
        · exact h0
      simp only [h, if_false, List.cons_append, readFrom, shift_ne hv h, false_and, hbyte,
        hmod, hcont]
      rw [ih (shift + 7) _ (v / 128) hdiv (group_lt hv) hfuel, group_sum]

theorem readFrom_short (fuel shift result v : Nat) (p q : List UInt8)
    (hv : v * 2 ^ shift < 2 ^ 64) (hsplit : bytesOf fuel v = p ++ q) (hq : q ≠ []) :
    readFrom shift result p = .error .unexpectedEof := by
  induction fuel generalizing shift result v p with
  | zero =>
    simp only [bytesOf, List.nil_eq, List.append_eq_nil_iff] at hsplit
    exact absurd hsplit.2 hq
  | succ fuel ih =>
    cases p with
    | nil => rfl
    | cons b p =>
      unfold bytesOf at hsplit
      by_cases h : v < 128
      · -- the only byte is in `p`, so nothing is left for `q`
        simp only [h, if_true, List.cons_append, List.cons.injEq, List.nil_eq,
          List.append_eq_nil_iff] at hsplit
        exact absurd hsplit.2.2 hq
      · simp only [h, if_false, List.cons_append, List.cons.injEq] at hsplit
        obtain ⟨rfl, hsplit⟩ := hsplit
        have hbyte : (v % 128 + 128).toUInt8.toNat = v % 128 + 128 := toNat_byte (by omega)
        have hcont : ¬ v % 128 + 128 < 128 := by omega
        simp only [readFrom, shift_ne hv h, false_and, if_false, hbyte, hcont]
        exact ih (shift + 7) _ (v / 128) p (group_lt hv) hsplit

/-- `leb128::write::unsigned`. -/
def reference.write (v : UInt64) : List UInt8 :=
  bytesOf 10 v.toNat

/-- `leb128::read::unsigned`. -/
def reference.read (bytes : List UInt8) : Except ReadError (UInt64 × List UInt8) :=
  match readFrom 0 0 bytes with
  | .ok (v, rest) => .ok (UInt64.ofNat v, rest)
  | .error e => .error e

/-- **The format keeps the promises of `Leb128`.** -/
def reference : Leb128 where
  writeUnsigned := reference.write
  readUnsigned := reference.read
  write_pos v := bytesOf_pos 9 v.toNat
  write_le v := bytesOf_le 10 v.toNat
  read_write v rest := by
    have hlt : v.toNat < 2 ^ 64 := v.toNat_lt
    have hread := readFrom_bytesOf 10 0 0 v.toNat rest (by omega) (by omega) (by omega)
    simp only [zero_add, pow_zero, mul_one] at hread
    simp only [reference.write, reference.read, hread, UInt64.ofNat_toNat]
  read_short v p q hsplit hq := by
    have hlt : v.toNat < 2 ^ 64 := v.toNat_lt
    simp only [reference.read, readFrom_short 10 0 0 v.toNat p q (by omega) hsplit hq]

example : reference.writeUnsigned 300 = [0xAC, 0x02] := by decide

/-! ## Reading one byte at a time -/

/-- The reader looks at no byte after the ones it takes: more input changes
neither an answer nor a refusal, and an answer depends on the bytes taken. -/
structure Sequential (leb : Leb128) : Prop where
  ok_append : ∀ p q v r, leb.readUnsigned p = .ok (v, r) →
    leb.readUnsigned (p ++ q) = .ok (v, r ++ q)
  overflow_append : ∀ p q, leb.readUnsigned p = .error .overflow →
    leb.readUnsigned (p ++ q) = .error .overflow
  ok_used : ∀ xs v rest, leb.readUnsigned xs = .ok (v, rest) →
    ∃ used, xs = used ++ rest ∧ leb.readUnsigned used = .ok (v, [])

/-- The last of several bytes is zero: it adds nothing to the number. -/
def Padded (bytes : List UInt8) : Prop := 1 < bytes.length ∧ bytes.getLast? = some 0

instance (bytes : List UInt8) : Decidable (Padded bytes) :=
  inferInstanceAs (Decidable (_ ∧ _))

/-- The writer's spelling of a number is the only one that is not padded; the
reader takes the others too, and they are longer. -/
structure Shortest (leb : Leb128) : Prop where
  write_unpadded : ∀ v, ¬ Padded (leb.writeUnsigned v)
  read_padded : ∀ used v, leb.readUnsigned used = .ok (v, []) → used ≠ leb.writeUnsigned v →
    Padded used ∧ (leb.writeUnsigned v).length < used.length

theorem Shortest.length_eq {leb : Leb128} (h : leb.Shortest) {used : List UInt8} {v : UInt64}
    (hread : leb.readUnsigned used = .ok (v, [])) : (leb.writeUnsigned v).length ≤ used.length ∧
      ((leb.writeUnsigned v).length = used.length ↔ ¬ Padded used) := by
  by_cases heq : used = leb.writeUnsigned v
  · subst heq
    exact ⟨Nat.le_refl _, iff_of_true rfl (h.write_unpadded v)⟩
  · obtain ⟨hpadded, hlong⟩ := h.read_padded used v hread heq
    exact ⟨Nat.le_of_lt hlong, iff_of_false (Nat.ne_of_lt hlong) (not_not_intro hpadded)⟩

theorem skipOverflow_append (b : UInt8) (p q : List UInt8)
    (h : skipOverflow b p = .overflow) : skipOverflow b (p ++ q) = .overflow := by
  induction p generalizing b with
  | nil =>
    unfold skipOverflow at h ⊢
    split at h
    · rename_i hb
      rw [if_pos hb]
    · cases h
  | cons b' p ih =>
    unfold skipOverflow at h ⊢
    split at h
    · rename_i hb
      rw [if_pos hb]
    · rename_i hb
      rw [if_neg hb]
      exact ih b' h

theorem readFrom_append (shift result : Nat) (p q : List UInt8) {r : List UInt8}
    (h : readFrom shift result p = .ok (v, r)) :
    readFrom shift result (p ++ q) = .ok (v, r ++ q) := by
  induction p generalizing shift result with
  | nil => cases h
  | cons b p ih =>
    simp only [readFrom, List.cons_append] at h ⊢
    split at h
    · cases h
    · rename_i hshift
      rw [if_neg hshift]
      split at h
      · rename_i hb
        cases h
        rw [if_pos hb]
      · rename_i hb
        rw [if_neg hb]
        exact ih _ _ h

theorem readFrom_overflow_append (shift result : Nat) (p q : List UInt8)
    (h : readFrom shift result p = .error .overflow) :
    readFrom shift result (p ++ q) = .error .overflow := by
  induction p generalizing shift result with
  | nil => cases h
  | cons b p ih =>
    simp only [readFrom, List.cons_append] at h ⊢
    split at h
    · rename_i hshift
      rw [if_pos hshift, skipOverflow_append b p q (Except.error.inj h)]
    · rename_i hshift
      rw [if_neg hshift]
      split at h
      · cases h
      · rename_i hb
        rw [if_neg hb]
        exact ih _ _ h

theorem readFrom_used (shift result : Nat) (xs : List UInt8) {rest : List UInt8}
    (h : readFrom shift result xs = .ok (v, rest)) :
    ∃ used, xs = used ++ rest ∧ readFrom shift result used = .ok (v, []) := by
  induction xs generalizing shift result with
  | nil => cases h
  | cons b xs ih =>
    simp only [readFrom] at h
    split at h
    · cases h
    · rename_i hshift
      split at h
      · rename_i hb
        cases h
        refine ⟨[b], rfl, ?_⟩
        simp only [readFrom, if_neg hshift, if_pos hb]
      · rename_i hb
        obtain ⟨used, hxs, hread⟩ := ih _ _ h
        refine ⟨b :: used, by rw [hxs, List.cons_append], ?_⟩
        simp only [readFrom, if_neg hshift, if_neg hb]
        exact hread

theorem reference_sequential : reference.Sequential where
  ok_append p q v r h := by
    show reference.read (p ++ q) = _
    change reference.read p = _ at h
    unfold reference.read at h ⊢
    cases hread : readFrom 0 0 p with
    | error e =>
      rw [hread] at h
      cases h
    | ok out =>
      rw [hread] at h
      cases h
      rw [readFrom_append 0 0 p q hread]
  overflow_append p q h := by
    show reference.read (p ++ q) = _
    change reference.read p = _ at h
    unfold reference.read at h ⊢
    cases hread : readFrom 0 0 p with
    | error e =>
      rw [hread] at h
      rw [Except.error.inj h] at hread
      rw [readFrom_overflow_append 0 0 p q hread]
    | ok out =>
      rw [hread] at h
      cases h
  ok_used xs v rest h := by
    change reference.read xs = _ at h
    unfold reference.read at h
    cases hread : readFrom 0 0 xs with
    | error e =>
      rw [hread] at h
      cases h
    | ok out =>
      rw [hread] at h
      cases h
      obtain ⟨used, hxs, hused⟩ := readFrom_used 0 0 xs hread
      refine ⟨used, hxs, ?_⟩
      show reference.read used = _
      rw [reference.read, hused]

theorem getLast_bytesOf (fuel v : Nat) (hv : 0 < v) (hf : v < 128 ^ fuel) :
    (bytesOf fuel v).getLast? ≠ some 0 := by
  induction fuel generalizing v with
  | zero =>
    simp only [pow_zero] at hf
    omega
  | succ fuel ih =>
    unfold bytesOf
    by_cases h : v < 128
    · rw [if_pos h]
      intro hz
      have hzero : v.toUInt8 = 0 := by simpa using hz
      have hnat : v.toUInt8.toNat = v := toNat_byte (by omega)
      rw [hzero] at hnat
      exact absurd hnat (Nat.ne_of_lt hv)
    · rw [if_neg h]
      have hdiv : v / 128 < 128 ^ fuel := by
        rw [Nat.div_lt_iff_lt_mul (by omega), ← pow_succ]
        exact hf
      have hrest := ih (v / 128) (by omega) hdiv
      cases hb : bytesOf fuel (v / 128) with
      | nil =>
        rw [List.getLast?_singleton]
        intro hz
        have hbyte : (v % 128 + 128).toUInt8.toNat = v % 128 + 128 := toNat_byte (by omega)
        rw [Option.some.inj hz] at hbyte
        exact absurd hbyte (by simp)
      | cons b bs =>
        rw [hb] at hrest
        rwa [List.getLast?_cons_cons]

theorem Padded.cons {bytes : List UInt8} (b : UInt8) (h : Padded bytes) : Padded (b :: bytes) := by
  obtain ⟨hlen, hlast⟩ := h
  cases bytes with
  | nil => cases hlast
  | cons b' bytes =>
    refine ⟨Nat.lt_succ_of_lt hlen, ?_⟩
    rwa [List.getLast?_cons_cons]

/-- What a whole list of bytes, the `k`-th byte of a number on, is read as. It is
the writer's spelling of that much of the number, or padded and longer. -/
theorem readFrom_spelling (k fuel result : Nat) (used : List UInt8) (hk : k + fuel = 9)
    (h : readFrom (7 * k) result used = .ok (v, [])) :
    ∃ u, v = result + u * 2 ^ (7 * k) ∧ u < 2 * 128 ^ fuel ∧ (used = bytesOf (fuel + 1) u ∨
        Padded used ∧ (bytesOf (fuel + 1) u).length < used.length) := by
  induction fuel generalizing k result used with
  | zero =>
    cases used with
    | nil => cases h
    | cons b used =>
      -- the tenth byte: only 0 and 1 are taken, and both end the number
      have hk9 : k = 9 := by omega
      subst hk9
      simp only [readFrom] at h
      split at h
      · cases h
      · rename_i hbyte
        have hb : b = 0 ∨ b = 1 := by
          by_contra hc
          exact hbyte ⟨trivial, fun h0 => hc (.inl h0), fun h1 => hc (.inr h1)⟩
        have hlt : b.toNat < 2 := by
          rcases hb with rfl | rfl <;> decide
        rw [if_pos (by omega)] at h
        cases h
        refine ⟨b.toNat, ?_, by simpa using hlt, .inl ?_⟩
        · rw [Nat.mod_eq_of_lt (by omega)]
        · simp only [bytesOf, if_pos (show b.toNat < 128 by omega), Nat.toUInt8_eq,
            UInt8.ofNat_toNat]
  | succ fuel ih =>
    cases used with
    | nil => cases h
    | cons b used =>
      have hk9 : ¬ 7 * k = 63 := by omega
      have hpow : 128 ^ (fuel + 1) = 128 * 128 ^ fuel := by rw [pow_succ, Nat.mul_comm]
      have hpos : 0 < 128 ^ fuel := Nat.pow_pos (by omega)
      simp only [readFrom, hk9, false_and, if_false] at h
      split at h
      · rename_i hb
        cases h
        refine ⟨b.toNat, ?_, by omega, .inl ?_⟩
        · rw [Nat.mod_eq_of_lt hb]
        · simp only [bytesOf, if_pos hb, Nat.toUInt8_eq, UInt8.ofNat_toNat]
      · rename_i hb
        have hshift : 7 * k + 7 = 7 * (k + 1) := by ring
        rw [hshift] at h
        obtain ⟨u, rfl, hu, hspell⟩ := ih (k + 1) _ used (by omega) h
        have hblt : b.toNat < 256 := b.toNat_lt
        refine ⟨b.toNat % 128 + 128 * u, ?_, by omega, ?_⟩
        · rw [← hshift, pow_add]
          ring
        have hmod : (b.toNat % 128 + 128 * u) % 128 = b.toNat % 128 := by omega
        have hdiv : (b.toNat % 128 + 128 * u) / 128 = u := by omega
        have hbyte : (b.toNat % 128 + 128).toUInt8 = b := by
          rw [show b.toNat % 128 + 128 = b.toNat by omega, Nat.toUInt8_eq, UInt8.ofNat_toNat]
        rcases Nat.eq_zero_or_pos u with rfl | hupos
        · -- the rest adds nothing: one byte would have done
          have hone : (bytesOf (fuel + 1 + 1) (b.toNat % 128 + 128 * 0)).length = 1 := by
            rw [bytesOf, if_pos (by omega)]
            rfl
          have hzero : bytesOf (fuel + 1) 0 = [0] := rfl
          rw [hone]
          rcases hspell with rfl | ⟨hpadded, hlong⟩
          · exact .inr ⟨⟨by simp [hzero], by simp [hzero]⟩, by simp [hzero]⟩
          · have hlen := hpadded.1
            exact .inr ⟨hpadded.cons b, by simp only [List.length_cons]; omega⟩
        · have hwrite : bytesOf (fuel + 1 + 1) (b.toNat % 128 + 128 * u) =
              b :: bytesOf (fuel + 1) u := by
            rw [bytesOf, if_neg (by omega), hmod, hdiv, hbyte]
          rw [hwrite]
          rcases hspell with rfl | ⟨hpadded, hlong⟩
          · exact .inl rfl
          · exact .inr ⟨hpadded.cons b, Nat.succ_lt_succ hlong⟩

theorem reference_shortest : reference.Shortest where
  write_unpadded v := by
    rintro ⟨hlen, hlast⟩
    have hlt : v.toNat < 2 ^ 64 := v.toNat_lt
    rcases Nat.eq_zero_or_pos v.toNat with h0 | hpos
    · change 1 < (bytesOf 10 v.toNat).length at hlen
      rw [h0] at hlen
      exact absurd hlen (by decide)
    · exact getLast_bytesOf 10 v.toNat hpos (by omega) hlast
  read_padded used v h hne := by
    change reference.read used = _ at h
    unfold reference.read at h
    cases hread : readFrom 0 0 used with
    | error e =>
      rw [hread] at h
      cases h
    | ok out =>
      rw [hread] at h
      simp only [Except.ok.injEq, Prod.mk.injEq] at h
      obtain ⟨rfl, hout⟩ := h
      obtain ⟨n, rest⟩ := out
      subst hout
      obtain ⟨u, hn, hu, hspell⟩ := readFrom_spelling 0 9 0 used rfl hread
      have hnu : n = u := by simpa using hn
      have hback : (UInt64.ofNat n).toNat = n := by
        rw [UInt64.toNat_ofNat', Nat.mod_eq_of_lt (by omega)]
      have hwrite : reference.writeUnsigned (UInt64.ofNat n) = bytesOf 10 u := by
        show bytesOf 10 (UInt64.ofNat n).toNat = _
        rw [hback, hnu]
      rw [hwrite] at hne ⊢
      exact hspell.resolve_left hne

end Leb128

end Wakterm.Machine
