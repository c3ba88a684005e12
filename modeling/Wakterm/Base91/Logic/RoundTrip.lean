import Wakterm.Base91.Codec
import Wakterm.Machine.Word

/-!
# The decoder undoes the encoder

Both sides are shift registers.
-/

namespace Wakterm.Base91

open Wakterm.Machine

variable {i n val bits value acc w : Nat} {d : Decoder} {bytes : List UInt8} {e : Encoder}

theorem dectab_of_enctab {c : UInt8} (h : enctab[i]? = some c) : dectab[c.toNat]? = some i := by
  have hall : (enctab.zipIdx.all fun p => dectab[p.1.toNat]? == some p.2) = true := by
    decide +kernel
  have hmem : (c, i) ∈ enctab.zipIdx := List.mk_mem_zipIdx_iff_getElem?.mpr h
  exact eq_of_beq (List.all_eq_true.mp hall _ hmem)

/-- What the decoder's table has for a byte is `inv`, or the byte is a character of the
encoder's. -/
theorem enctab_of_dectab {digit : Nat} (h : dectab[n]? = some digit) :
    digit = inv ∨ enctab[digit]? = some n.toUInt8 := by
  have hall : (dectab.zipIdx.all fun p =>
      p.1 == inv || enctab[p.1]? == some p.2.toUInt8) = true := by decide +kernel
  have hmem : (digit, n) ∈ dectab.zipIdx := List.mk_mem_zipIdx_iff_getElem?.mpr h
  have hor := List.all_eq_true.mp hall _ hmem
  rw [Bool.or_eq_true] at hor
  exact hor.imp eq_of_beq eq_of_beq

theorem enctab_get (h : i < 91) : ∃ c, enctab[i]? = some c ∧ dectab[c.toNat]? = some i := by
  have hlen : i < enctab.length := h
  have hget := List.getElem?_eq_getElem hlen
  exact ⟨_, hget, dectab_of_enctab hget⟩

theorem dectab_of_not_mem {b : UInt8} (h : b ∉ enctab) : dectab[b.toNat]? = some inv := by
  have hlen : dectab.length = 256 := by decide +kernel
  have hget := List.getElem?_eq_getElem (show b.toNat < dectab.length by
    rw [hlen]
    exact b.toNat_lt)
  rcases enctab_of_dectab hget with hinv | hchar
  · rw [hget, hinv]
  · rw [show b.toNat.toUInt8 = b from UInt8.ofNat_toNat] at hchar
    exact absurd (List.mem_of_getElem? hchar) h

theorem pair_eq (h : val < 8281) : ∃ low high, Encoder.pair val = some [low, high] ∧
      dectab[low.toNat]? = some (val % 91) ∧ dectab[high.toNat]? = some (val / 91) := by
  obtain ⟨low, hlow, hlow'⟩ := enctab_get (show val % 91 < 91 by omega)
  obtain ⟨high, hhigh, hhigh'⟩ := enctab_get (show val / 91 < 91 by omega)
  refine ⟨low, high, ?_, hlow', hhigh'⟩
  simp only [Encoder.pair, hlow, hhigh, Option.bind_eq_bind, Option.bind_some, Option.pure_def]

theorem and_8191 (x : Nat) : x &&& 8191 = x % 2 ^ 13 := Nat.and_two_pow_sub_one_eq_mod x 13

theorem and_16383 (x : Nat) : x &&& 16383 = x % 2 ^ 14 := Nat.and_two_pow_sub_one_eq_mod x 14

theorem and_255 (x : Nat) : x &&& 0xff = x % 2 ^ 8 := Nat.and_two_pow_sub_one_eq_mod x 8

theorem shl64_eq (hv : value < 2 ^ 14) (hb : bits < 22) :
    shl64 value bits = some (value <<< bits) := by
  have hpow : 2 ^ bits ≤ 2 ^ 21 := Nat.pow_le_pow_right (by omega) (by omega)
  have hlt : value <<< bits < 2 ^ 64 := by
    rw [Nat.shiftLeft_eq]
    calc value * 2 ^ bits ≤ 2 ^ 14 * 2 ^ 21 := Nat.mul_le_mul (by omega) hpow
      _ < 2 ^ 64 := by omega
  unfold shl64
  rw [if_pos (by omega), Nat.mod_eq_of_lt hlt]

theorem sub_eq (h : n ≤ bits) : sub bits n = some (bits - n) := if_pos h

theorem register_lt (ha : acc < 2 ^ bits) (hv : value < 2 ^ w) :
    acc + value * 2 ^ bits < 2 ^ (bits + w) := by
  rw [pow_add]
  calc acc + value * 2 ^ bits < 2 ^ bits + value * 2 ^ bits := by omega
    _ = (value + 1) * 2 ^ bits := by ring
    _ ≤ 2 ^ w * 2 ^ bits := Nat.mul_le_mul_right _ hv
    _ = 2 ^ bits * 2 ^ w := Nat.mul_comm _ _

theorem shiftRight_lt {k : Nat} (h : acc < 2 ^ (k + n)) : acc >>> k < 2 ^ n := by
  rw [Nat.shiftRight_eq_div_pow, Nat.div_lt_iff_lt_mul (Nat.two_pow_pos k), Nat.mul_comm,
    ← pow_add]
  exact h

/-- A register between two pairs of characters. -/
structure Decoder.Between (d : Decoder) : Prop where
  value : d.value = none
  bits : d.bits < 8
  accumulator : d.accumulator < 2 ^ d.bits

theorem drain_eq (fuel : Nat) (d : Decoder) (hbits : 8 ≤ d.bits) (hfuel : d.bits ≤ fuel)
    (hacc : d.accumulator < 2 ^ d.bits) (hvalue : d.value = none) :
    ∃ d' out, Decoder.drain fuel d = some d' ∧ d'.Between ∧ d'.written = d.written ++ out ∧
      bitsOf d.bits d.accumulator = bytesBits out ++ bitsOf d'.bits d'.accumulator := by
  induction fuel generalizing d with
  | zero => omega
  | succ fuel ih =>
    have hwidth : d.bits = 8 + (d.bits - 8) := by omega
    have hbyte : (d.accumulator % 2 ^ 8).toUInt8.toNat = d.accumulator % 2 ^ 8 := by
      simp
    have hrest : d.accumulator >>> 8 < 2 ^ (d.bits - 8) := by
      apply shiftRight_lt
      rw [← hwidth]
      exact hacc
    have hsplit : bitsOf d.bits d.accumulator =
        bytesBits [(d.accumulator % 2 ^ 8).toUInt8] ++
          bitsOf (d.bits - 8) (d.accumulator >>> 8) := by
      rw [bytesBits_cons, hbyte, bitsOf_mod, bytesBits_nil, List.append_nil,
        Nat.shiftRight_eq_div_pow, ← bitsOf_add, ← hwidth]
    unfold Decoder.drain
    simp only [sub_eq hbits, and_255, Option.bind_eq_bind, Option.bind_some]
    by_cases hdone : d.bits - 8 < 8
    · rw [if_pos hdone]
      exact ⟨_, _, rfl, ⟨hvalue, hdone, hrest⟩, rfl, hsplit⟩
    · rw [if_neg hdone]
      obtain ⟨d', out, he, hb, hw, hbits'⟩ := ih
        ⟨d.accumulator >>> 8, d.bits - 8, d.value,
          d.written ++ [(d.accumulator % 2 ^ 8).toUInt8]⟩
        (by simp only; omega) (by simp only; omega) hrest hvalue
      refine ⟨d', (d.accumulator % 2 ^ 8).toUInt8 :: out, he, hb, ?_, ?_⟩
      · rw [hw, List.append_assoc]
        rfl
      · rw [hsplit, hbits', bytesBits_cons, bytesBits_cons, bytesBits_nil, List.append_nil,
          List.append_assoc]

/-- How many bits the decoder takes for a value. -/
def width (val : Nat) : Nat := if val % 2 ^ 13 > 88 then 13 else 14

theorem lt_width (h : val < 8281) : val < 2 ^ width val := by
  unfold width
  split <;> omega

theorem write_pair (hd : d.Between) (hval : val < 8281) {low high : UInt8}
    (hlow : dectab[low.toNat]? = some (val % 91)) (hhigh : dectab[high.toNat]? = some (val / 91)) :
    ∃ d' out, d.write [low, high] = some d' ∧ d'.Between ∧ d'.written = d.written ++ out ∧
      bitsOf d.bits d.accumulator ++ bitsOf (width val) val =
        bytesBits out ++ bitsOf d'.bits d'.accumulator := by
  have hd8 := hd.bits
  have hvalue : val % 91 + val / 91 * 91 = val := Nat.mod_add_div' val 91
  have hlow' : ¬ val % 91 = inv := by
    unfold inv
    omega
  have hhigh' : ¬ val / 91 = inv := by
    unfold inv
    omega
  have hw : (if val &&& 8191 > 88 then 13 else 14) = width val := by rw [and_8191, width]
  have hw13 : 13 ≤ width val := by unfold width; split <;> omega
  have hacc : d.accumulator + val * 2 ^ d.bits < 2 ^ (d.bits + width val) :=
    register_lt hd.accumulator (lt_width hval)
  obtain ⟨d', out, he, hb, hwritten, hbits⟩ := drain_eq (d.bits + width val)
    ⟨d.accumulator + val * 2 ^ d.bits, d.bits + width val, none, d.written⟩
    (by simp only; omega) (by simp only; omega) hacc rfl
  refine ⟨d', out, ?_, hb, hwritten, ?_⟩
  · simp only [Decoder.write, List.foldlM_cons, List.foldlM_nil, Decoder.writeByte, hlow, hhigh,
      hlow', hhigh', hd.value, if_false, Option.bind_eq_bind, Option.bind_some, Option.pure_def,
      hvalue, hw, shl64_eq (show val < 2 ^ 14 by omega) (show d.bits < 22 by omega),
      or_shiftLeft val hd.accumulator, he]
  · rw [← hbits, bitsOf_or _ _ hd.accumulator]

theorem writeByte_skip (d : Decoder) {b : UInt8} (h : b ∉ enctab) : d.writeByte b = some d := by
  simp only [Decoder.writeByte, dectab_of_not_mem h, Option.bind_eq_bind, Option.bind_some,
    if_true, Option.pure_def]

/-- `noisy` is `text` with bytes outside the alphabet put in. -/
inductive Padded : List UInt8 → List UInt8 → Prop
  | nil : Padded [] []
  | keep {text noisy} (c : UInt8) : Padded text noisy → Padded (c :: text) (c :: noisy)
  | skip {text noisy} {b : UInt8} : b ∉ enctab → Padded text noisy → Padded text (b :: noisy)

theorem write_padded {text noisy : List UInt8} (h : Padded text noisy) (d : Decoder) :
    d.write noisy = d.write text := by
  induction h generalizing d with
  | nil => rfl
  | keep c h ih =>
    rename_i text noisy
    show d.writeByte c >>= (·.write noisy) = d.writeByte c >>= (·.write text)
    cases d.writeByte c with
    | none => rfl
    | some d' => exact ih d'
  | skip hb h ih =>
    rename_i text noisy b
    show d.writeByte b >>= (·.write noisy) = d.write text
    rw [writeByte_skip d hb]
    exact ih d

theorem Decoder.write_append (d : Decoder) (xs ys : List UInt8) :
    d.write (xs ++ ys) = d.write xs >>= (·.write ys) := List.foldlM_append

/-- The encoder was given `bytes`, and the decoder what the encoder has written. -/
structure Sim (bytes : List UInt8) (e : Encoder) (d : Decoder) : Prop where
  decoded : Decoder.new.write e.written = some d
  between : d.Between
  bits : e.bits ≤ 13
  accumulator : e.accumulator < 2 ^ e.bits
  stream : bytesBits bytes =
    bytesBits d.written ++ (bitsOf d.bits d.accumulator ++ bitsOf e.bits e.accumulator)

theorem sim_new : Sim [] Encoder.new Decoder.new :=
  ⟨rfl, ⟨rfl, by decide, by decide⟩, by decide, by decide, rfl⟩

theorem Sim.take (h : Sim bytes e d) (b : UInt8) (hw : w ≤ e.bits + 8) (hleft : e.bits + 8 - w ≤ 13)
    (hwidth : width ((e.accumulator + b.toNat * 2 ^ e.bits) % 2 ^ w) = w)
    (hval : (e.accumulator + b.toNat * 2 ^ e.bits) % 2 ^ w < 8281) :
    ∃ out d', Encoder.pair ((e.accumulator + b.toNat * 2 ^ e.bits) % 2 ^ w) = some out ∧
      Sim (bytes ++ [b])
        ⟨(e.accumulator + b.toNat * 2 ^ e.bits) >>> w, e.bits + 8 - w, e.written ++ out⟩ d' := by
  obtain ⟨low, high, hpair, hlow, hhigh⟩ := pair_eq hval
  obtain ⟨d', out, hwrite, hbetween, hwritten, hbits⟩ := write_pair h.between hval hlow hhigh
  have hsplit : e.bits + 8 = w + (e.bits + 8 - w) := by omega
  have hreg : e.accumulator + b.toNat * 2 ^ e.bits < 2 ^ (e.bits + 8) :=
    register_lt h.accumulator b.toNat_lt
  refine ⟨[low, high], d', hpair, ?_, hbetween, hleft, ?_, ?_⟩
  · rw [Decoder.write_append, h.decoded]
    exact hwrite
  · apply shiftRight_lt
    rw [← hsplit]
    exact hreg
  · -- the byte joins the encoder's register; its low bits then move to the decoder
    have henc : bitsOf e.bits e.accumulator ++ bitsOf 8 b.toNat =
        bitsOf w ((e.accumulator + b.toNat * 2 ^ e.bits) % 2 ^ w) ++
          bitsOf (e.bits + 8 - w) ((e.accumulator + b.toNat * 2 ^ e.bits) >>> w) := by
      rw [bitsOf_mod, Nat.shiftRight_eq_div_pow, ← bitsOf_add, ← hsplit,
        bitsOf_or 8 b.toNat h.accumulator]
    rw [hwidth] at hbits
    calc bytesBits (bytes ++ [b])
        = bytesBits d.written ++ (bitsOf d.bits d.accumulator ++
            (bitsOf e.bits e.accumulator ++ bitsOf 8 b.toNat)) := by
          rw [bytesBits_append, h.stream, bytesBits_cons, bytesBits_nil, List.append_nil,
            List.append_assoc, List.append_assoc]
      _ = bytesBits d.written ++ ((bitsOf d.bits d.accumulator ++
            bitsOf w ((e.accumulator + b.toNat * 2 ^ e.bits) % 2 ^ w)) ++
            bitsOf (e.bits + 8 - w) ((e.accumulator + b.toNat * 2 ^ e.bits) >>> w)) := by
          rw [henc, List.append_assoc]
      _ = _ := by
          rw [hbits, hwritten, bytesBits_append, List.append_assoc, List.append_assoc]

/-- **A byte keeps the two sides together**, and nothing goes out of range on the way. -/
theorem sim_writeByte (h : Sim bytes e d) (b : UInt8) :
    ∃ e' d', e.writeByte b = some e' ∧ Sim (bytes ++ [b]) e' d' := by
  have hbits := h.bits
  have hb : b.toNat < 2 ^ 8 := b.toNat_lt
  have hshift : shl64 b.toNat e.bits = some (b.toNat <<< e.bits) := shl64_eq (by omega) (by omega)
  unfold Encoder.writeByte
  simp only [hshift, Option.bind_eq_bind, Option.bind_some, or_shiftLeft b.toNat h.accumulator,
    and_8191, and_16383]
  by_cases hfull : e.bits + 8 > 13
  · rw [if_pos hfull]
    by_cases hbig : (e.accumulator + b.toNat * 2 ^ e.bits) % 2 ^ 13 > 88
    · obtain ⟨out, d', hpair, hsim⟩ := h.take b (w := 13) (by omega) (by omega)
        (by unfold width; rw [Nat.mod_mod, if_pos hbig]) (by omega)
      rw [if_pos hbig, sub_eq (by omega), hpair]
      exact ⟨_, d', rfl, hsim⟩
    · obtain ⟨out, d', hpair, hsim⟩ := h.take b (w := 14) (by omega) (by omega)
        (by unfold width; rw [if_neg]; omega) (by omega)
      rw [if_neg hbig, sub_eq (by omega), hpair]
      exact ⟨_, d', rfl, hsim⟩
  · rw [if_neg hfull]
    refine ⟨_, d, rfl, h.decoded, h.between, by simp only; omega, ?_, ?_⟩
    · exact register_lt h.accumulator b.toNat_lt
    · simp only [bytesBits_append, h.stream, bytesBits_cons, bytesBits_nil, List.append_nil,
        bitsOf_or 8 b.toNat h.accumulator, List.append_assoc]

theorem sim_write (h : Sim bytes e d) (buf : List UInt8) :
    ∃ e' d', e.write buf = some e' ∧ Sim (bytes ++ buf) e' d' := by
  induction buf generalizing bytes e d with
  | nil => exact ⟨e, d, rfl, by rwa [List.append_nil]⟩
  | cons b buf ih =>
    obtain ⟨e₁, d₁, hb, h₁⟩ := sim_writeByte h b
    obtain ⟨e₂, d₂, hrest, h₂⟩ := ih h₁
    refine ⟨e₂, d₂, ?_, ?_⟩
    · show e.writeByte b >>= (·.write buf) = some e₂
      rw [hb]
      exact hrest
    · rwa [List.append_assoc] at h₂

theorem sim_writes (h : Sim bytes e d) (writes : List (List UInt8)) :
    ∃ e' d', writes.foldlM Encoder.write e = some e' ∧ Sim (bytes ++ writes.flatten) e' d' := by
  induction writes generalizing bytes e d with
  | nil => exact ⟨e, d, rfl, by rwa [List.flatten_nil, List.append_nil]⟩
  | cons buf writes ih =>
    obtain ⟨e₁, d₁, hb, h₁⟩ := sim_write h buf
    obtain ⟨e₂, d₂, hrest, h₂⟩ := ih h₁
    refine ⟨e₂, d₂, ?_, ?_⟩
    · rw [List.foldlM_cons, hb]
      exact hrest
    · rwa [List.append_assoc] at h₂

theorem Sim.whole (h : Sim bytes e d) :
    8 * bytes.length = 8 * d.written.length + (d.bits + e.bits) := by
  have hlen := congrArg List.length h.stream
  simpa using hlen

theorem Sim.tail_pair (h : Sim bytes e d) (hlong : e.bits > 7 ∨ e.accumulator > 90) :
    ∃ out d', Encoder.pair e.accumulator = some out ∧ d.write out = some d' ∧
      d'.value = none ∧ d'.written = bytes := by
  have hbits := h.bits
  have hwhole := h.whole
  have hacc : e.accumulator < 2 ^ 13 :=
    lt_of_lt_of_le h.accumulator (Nat.pow_le_pow_right (by omega) hbits)
  obtain ⟨low, high, hpair, hlow, hhigh⟩ := pair_eq (show e.accumulator < 8281 by omega)
  obtain ⟨d', out, hwrite, hbetween, hwritten, hstream⟩ :=
    write_pair h.between (by omega) hlow hhigh
  refine ⟨[low, high], d', hpair, hwrite, hbetween.value, ?_⟩
  -- the tail has seven bits or more, so at most seven of the decoder's are surplus
  have hseven : 7 ≤ e.bits := by
    rcases hlong with hlong | hlong
    · omega
    · by_contra hfew
      have hsmall : e.accumulator < 2 ^ 6 :=
        lt_of_lt_of_le h.accumulator (Nat.pow_le_pow_right (by omega) (by omega))
      omega
  have hwle : e.bits ≤ width e.accumulator ∧ width e.accumulator - e.bits < 8 := by
    unfold width
    split
    · omega
    · rename_i hsmall
      rw [Nat.mod_eq_of_lt hacc] at hsmall
      omega
  have hsurplus : width e.accumulator = e.bits + (width e.accumulator - e.bits) := by omega
  rw [hsurplus, bitsOf_add, ← List.append_assoc] at hstream
  have hcount := congrArg List.length hstream
  simp only [List.length_append, length_bitsOf, length_bytesBits] at hcount
  have hd' := hbetween.bits
  have hlen : (bitsOf d.bits d.accumulator ++ bitsOf e.bits e.accumulator).length =
      (bytesBits out).length := by
    simp only [List.length_append, length_bitsOf, length_bytesBits]
    omega
  obtain ⟨hout, -⟩ := List.append_inj hstream hlen
  apply bytesBits_inj
  rw [hwritten, bytesBits_append, ← hout, h.stream]

theorem Sim.tail_single (h : Sim bytes e d) (hpos : e.bits > 0)
    (hshort : ¬ (e.bits > 7 ∨ e.accumulator > 90)) :
    ∃ c d' d'', enctab[e.accumulator % 91]? = some c ∧ d.write [c] = some d' ∧
      d'.flush = some d'' ∧ d''.written = bytes := by
  obtain ⟨hle, hsmall⟩ := not_or.mp hshort
  have hd := h.between.bits
  have hwhole := h.whole
  have height : d.bits + e.bits = 8 := by omega
  have hmod : e.accumulator % 91 = e.accumulator := Nat.mod_eq_of_lt (by omega)
  obtain ⟨c, hc, hdec⟩ := enctab_get (show e.accumulator < 91 by omega)
  have hinv : ¬ e.accumulator = inv := by
    unfold inv
    omega
  have hbyte : d.accumulator + e.accumulator * 2 ^ d.bits < 2 ^ 8 := by
    rw [← height]
    exact register_lt h.between.accumulator h.accumulator
  have hlow : d.accumulator &&& 0xff = d.accumulator := by
    rw [and_255, Nat.mod_eq_of_lt (by omega)]
  have hshift : shl8 e.accumulator d.bits = some (e.accumulator <<< d.bits) := by
    unfold shl8
    rw [if_pos hd, Nat.shiftLeft_eq, Nat.mod_eq_of_lt (by omega)]
  refine ⟨c, { d with value := some e.accumulator },
    ⟨0, 0, none, d.written ++ [(d.accumulator + e.accumulator * 2 ^ d.bits).toUInt8]⟩,
    by rw [hmod]; exact hc, ?_, ?_, ?_⟩
  · simp only [Decoder.write, List.foldlM_cons, List.foldlM_nil, Decoder.writeByte, hdec, hinv,
      h.between.value, if_false, Option.bind_eq_bind, Option.bind_some, Option.pure_def]
  · simp only [Decoder.flush, hshift, hlow, or_shiftLeft e.accumulator h.between.accumulator,
      Option.bind_eq_bind, Option.bind_some, Option.pure_def]
  · have hto : (d.accumulator + e.accumulator * 2 ^ d.bits).toUInt8.toNat =
        d.accumulator + e.accumulator * 2 ^ d.bits := by
      simp only [Nat.toUInt8_eq, UInt8.toNat_ofNat']
      exact Nat.mod_eq_of_lt hbyte
    apply bytesBits_inj
    simp only [bytesBits_append, bytesBits_cons, bytesBits_nil, List.append_nil, hto, h.stream]
    rw [← height, bitsOf_or _ _ h.between.accumulator]

/-- **The end of the data**: the decoder has written all bytes once both sides are flushed. -/
theorem sim_flush (h : Sim bytes e d) :
    ∃ e' d' d'', e.flush = some e' ∧ Decoder.new.write e'.written = some d' ∧
      d'.flush = some d'' ∧ d''.written = bytes := by
  unfold Encoder.flush
  by_cases hpos : e.bits > 0
  · rw [if_pos hpos]
    by_cases hlong : e.bits > 7 ∨ e.accumulator > 90
    · obtain ⟨out, d', hpair, hwrite, hvalue, hbytes⟩ := h.tail_pair hlong
      refine ⟨⟨0, 0, e.written ++ out⟩, d', ⟨0, 0, none, d'.written⟩, ?_, ?_, ?_, hbytes⟩
      · simp only [if_pos hlong, hpair, Option.bind_eq_bind, Option.bind_some, Option.pure_def]
      · rw [Decoder.write_append, h.decoded]
        exact hwrite
      · simp only [Decoder.flush, hvalue]
    · obtain ⟨c, d', d'', hc, hwrite, hflush, hbytes⟩ := h.tail_single hpos hlong
      refine ⟨⟨0, 0, e.written ++ [c]⟩, d', d'', ?_, ?_, hflush, hbytes⟩
      · simp only [if_neg hlong, hc, Option.map_some, Option.bind_eq_bind, Option.bind_some,
          Option.pure_def]
      · rw [Decoder.write_append, h.decoded]
        exact hwrite
  · rw [if_neg hpos]
    have hzero : e.bits = 0 := by omega
    have hd := h.between.bits
    have hwhole := h.whole
    have hd0 : d.bits = 0 := by omega
    refine ⟨⟨0, 0, e.written⟩, d, ⟨0, 0, none, d.written⟩, rfl, h.decoded, ?_, ?_⟩
    · simp only [Decoder.flush, h.between.value]
    · apply bytesBits_inj
      rw [h.stream, hd0, hzero]
      simp

theorem foldlM_decoder_write (d : Decoder) (writes : List (List UInt8)) :
    writes.foldlM Decoder.write d = d.write writes.flatten := by
  induction writes generalizing d with
  | nil => rfl
  | cons buf writes ih =>
    rw [List.foldlM_cons, List.flatten_cons, Decoder.write_append]
    cases d.write buf with
    | none => rfl
    | some d' => exact ih d'

end Wakterm.Base91
