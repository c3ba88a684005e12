import Wakterm.Machine.Decimal
import Wakterm.Machine.Utf8
import Wakterm.Vtparse.Logic.Safety

/-!
# The fields of an OSC string

The characters of an OSC string are put into the buffer one by one, bytes and decoded characters
alike.
-/

namespace Wakterm.Vtparse

open Wakterm.Machine

namespace OscState

variable {osc osc' : OscState}

/-- The fields that the buffer and its offsets stand for: of the first ones, that is all. -/
structure Holds (osc : OscState) (fields : List (List UInt8)) : Prop where
  size : osc.paramIndices.length = maxOsc
  begun : fields ≠ []
  count : osc.numParams = min fields.length maxOsc ∨ (osc.numParams = 0 ∧ fields = [[]])
  full : osc.full = decide (maxOsc < fields.length)
  buffer : osc.buffer = (fields.take maxOsc).flatten
  indices : osc.paramIndices.take (osc.numParams - 1) = offsets 0 (fields.take (osc.numParams - 1))

theorem holds_start (h : osc.paramIndices.length = maxOsc) : osc.start.Holds [[]] where
  size := h
  begun := List.cons_ne_nil _ _
  count := .inr ⟨rfl, rfl⟩
  full := rfl
  buffer := rfl
  indices := rfl

theorem Holds.length (h : osc.Holds fields) (hn : osc.numParams ≠ 0) :
    osc.numParams = min fields.length maxOsc :=
  h.count.resolve_right fun hzero => hn hzero.1

variable {fields : List (List UInt8)} {c : Char} {text : List Char}

theorem Holds.counted (h : osc.Holds fields) (n : Nat) :
    Holds { osc with inputBytes := n } fields :=
  ⟨h.size, h.begun, h.count, h.full, h.buffer, h.indices⟩

theorem Holds.separate (h : osc.Holds fields) (hn : osc.numParams ≠ 0)
    (hroom : osc.numParams ≠ maxOsc) :
    Holds { osc with
      paramIndices := osc.paramIndices.set (osc.numParams - 1) osc.buffer.length
      numParams := osc.numParams + 1 } (fields ++ [[]]) := by
  have hcount := h.length hn
  have hlen : osc.numParams = fields.length := by omega
  have hfew : fields.length < maxOsc := by omega
  obtain ⟨front, last, rfl⟩ := (List.eq_nil_or_concat fields).resolve_left h.begun
  rw [List.concat_eq_append] at h hlen hfew ⊢
  have hfront : osc.numParams - 1 = front.length := by
    rw [List.length_append, List.length_singleton] at hlen
    omega
  have hbuffer := h.buffer
  rw [List.take_of_length_le (by omega)] at hbuffer
  have hmore : (front ++ [last] ++ [[]]).length = osc.numParams + 1 := by
    rw [hlen, List.length_append]
    rfl
  have hflat : (front ++ [last] ++ [[]]).flatten = (front ++ [last]).flatten := by simp
  refine ⟨?_, by simp, ?_, ?_, ?_, ?_⟩
  · show (osc.paramIndices.set _ _).length = maxOsc
    rw [List.length_set, h.size]
  · left
    show osc.numParams + 1 = _
    omega
  · show osc.full = _
    rw [h.full, decide_eq_false (by omega), decide_eq_false (by omega)]
  · show osc.buffer = _
    rw [List.take_of_length_le (by omega), hflat, hbuffer]
  · show (osc.paramIndices.set (osc.numParams - 1) osc.buffer.length).take (osc.numParams + 1 - 1) =
      offsets 0 ((front ++ [last] ++ [[]]).take (osc.numParams + 1 - 1))
    have hindices := h.indices
    rw [hfront, List.take_left] at hindices
    rw [Nat.add_sub_cancel, hlen, List.take_left, hlen.symm, hfront,
      show osc.numParams = front.length + 1 by omega,
      take_set_last (by rw [h.size]; omega), hindices, offsets_append, hbuffer]
    simp

theorem Holds.extend (h : osc.Holds fields) (hfull : osc.full = false) (hc : c ≠ ';') :
    Holds { osc with
      buffer := osc.buffer ++ String.utf8EncodeChar c
      numParams := if osc.numParams = 0 then 1 else osc.numParams }
      (pushField ';' String.utf8EncodeChar fields c) := by
  have hfew : ¬ maxOsc < fields.length := by
    have hdecide := h.full
    rw [hfull] at hdecide
    exact of_decide_eq_false hdecide.symm
  obtain ⟨front, last, rfl⟩ := (List.eq_nil_or_concat fields).resolve_left h.begun
  rw [List.concat_eq_append] at h hfew ⊢
  rw [pushField_of_ne hc]
  have hlen : ∀ l : List UInt8, (front ++ [l]).length = front.length + 1 := fun l => by simp
  have hbuffer := h.buffer
  rw [List.take_of_length_le (by omega)] at hbuffer
  have hnum : (if osc.numParams = 0 then 1 else osc.numParams) = front.length + 1 := by
    split
    · next hzero =>
      rcases h.count with hcount | ⟨-, hnil⟩
      · have hpos : 0 < maxOsc := by decide
        have hl := hlen last
        omega
      · have hl := hlen last
        rw [hnil] at hl
        exact hl
    · next hn =>
      have hcount := h.length hn
      have hl := hlen last
      omega
  have hone : (if osc.numParams = 0 then 1 else osc.numParams) - 1 = osc.numParams - 1 := by
    split <;> omega
  have hl := hlen last
  have hl' := hlen (last ++ String.utf8EncodeChar c)
  refine ⟨h.size, by simp, ?_, ?_, ?_, ?_⟩
  · left
    show (if osc.numParams = 0 then 1 else osc.numParams) = _
    omega
  · show osc.full = _
    rw [h.full, decide_eq_false hfew, decide_eq_false (by omega)]
  · show osc.buffer ++ String.utf8EncodeChar c = _
    rw [List.take_of_length_le (by omega), hbuffer]
    simp
  · show osc.paramIndices.take ((if osc.numParams = 0 then 1 else osc.numParams) - 1) =
      offsets 0 (List.take ((if osc.numParams = 0 then 1 else osc.numParams) - 1) _)
    have hindices := h.indices
    rw [← hone, hnum, Nat.add_sub_cancel, List.take_left] at hindices
    rw [hnum, Nat.add_sub_cancel, List.take_left]
    exact hindices

theorem Holds.overflow (h : osc.Holds fields) (fields' : List (List UInt8))
    (hn : osc.numParams = maxOsc) (hmore : maxOsc < fields'.length)
    (htake : fields'.take maxOsc = fields.take maxOsc) :
    Holds { osc with full := true } fields' := by
  refine ⟨h.size, ?_, ?_, ?_, ?_, ?_⟩
  · rintro rfl
    exact absurd hmore (Nat.not_lt_zero _)
  · left
    show osc.numParams = _
    omega
  · show true = _
    rw [decide_eq_true hmore]
  · show osc.buffer = _
    rw [htake]
    exact h.buffer
  · show osc.paramIndices.take (osc.numParams - 1) = _
    rw [h.indices]
    have hle : osc.numParams - 1 ≤ maxOsc := by omega
    have hfront := congrArg (List.take (osc.numParams - 1)) htake
    rw [List.take_take, List.take_take, Nat.min_eq_left hle] at hfront
    rw [hfront]

/-- **One character**: it goes to the fields as `pushField` says, unless it is a separator in front
of everything. -/
theorem Holds.put (h : osc.Holds fields)
    (hfit : osc.inputBytes + (String.utf8EncodeChar c).length ≤ maxOscBytes)
    (hc : c = ';' → osc.numParams ≠ 0) (h' : osc.put c = .ok osc') :
    osc'.Holds (pushField ';' String.utf8EncodeChar fields c) ∧ osc'.numParams ≠ 0 := by
  unfold OscState.put at h'
  dsimp only at h'
  rw [if_neg (Nat.not_lt.mpr hfit)] at h'
  have hcounted := h.counted (osc.inputBytes + (String.utf8EncodeChar c).length)
  by_cases hsep : c = ';'
  · have hn := hc hsep
    rw [if_pos hsep] at h'
    rw [hsep, pushField_sep]
    split at h'
    · next hmax =>
      cases h'
      have hlen := h.length hn
      refine ⟨hcounted.overflow _ hmax ?_ ?_, hn⟩
      · rw [List.length_append, List.length_singleton]
        omega
      · exact List.take_append_of_le_length (by omega)
    · next hroom =>
      have hlen := h.length hn
      rw [store_ok (by rw [h.size]; omega), ok_bind] at h'
      cases h'
      exact ⟨hcounted.separate hn hroom, Nat.succ_ne_zero _⟩
  · rw [if_neg hsep] at h'
    split at h'
    · next hfull =>
      cases h'
      refine ⟨hcounted.extend (by simpa using hfull) hsep, ?_⟩
      show (if osc.numParams = 0 then 1 else osc.numParams) ≠ 0
      split
      · exact Nat.one_ne_zero
      · next hn => exact hn
    · next hfull =>
      cases h'
      have hfull : osc.full = true := by simpa using hfull
      have hmany : maxOsc < fields.length := by
        have hdecide := h.full
        rw [hfull] at hdecide
        exact of_decide_eq_true hdecide.symm
      have hn : osc.numParams = maxOsc := by
        rcases h.count with hcount | ⟨-, hnil⟩
        · omega
        · rw [hnil] at hmany
          exact absurd hmany (by decide)
      obtain ⟨front, last, rfl⟩ := (List.eq_nil_or_concat fields).resolve_left h.begun
      rw [List.concat_eq_append] at hcounted hmany ⊢
      have hlen : ∀ l : List UInt8, (front ++ [l]).length = front.length + 1 := fun l => by simp
      have hl := hlen last
      have hl' := hlen (last ++ String.utf8EncodeChar c)
      rw [pushField_of_ne hsep]
      have hkept := hcounted.overflow (front ++ [last ++ String.utf8EncodeChar c]) hn
        (by omega) (by
          rw [List.take_append_of_le_length (by omega), List.take_append_of_le_length (by omega)])
      rw [hfull] at *
      exact ⟨hkept, by rw [hn]; decide⟩

theorem holds_put_separator (hsize : osc.paramIndices.length = maxOsc)
    (h' : osc.start.put ';' = .ok osc') : osc'.Holds [[]] ∧ osc'.numParams ≠ 0 := by
  unfold OscState.put at h'
  dsimp only at h'
  have hbytes : ¬ maxOscBytes < osc.start.inputBytes + (String.utf8EncodeChar ';').length := by
    show ¬ maxOscBytes < 0 + (String.utf8EncodeChar ';').length
    decide
  have hroom : ¬ osc.start.numParams = maxOsc := by
    show ¬ 0 = maxOsc
    decide
  have hindex : osc.start.numParams - 1 < osc.start.paramIndices.length := by
    show 0 - 1 < osc.paramIndices.length
    rw [hsize]
    decide
  rw [if_neg hbytes, if_pos rfl, if_neg hroom, store_ok hindex, ok_bind] at h'
  cases h'
  refine ⟨⟨?_, List.cons_ne_nil _ _, .inl rfl, rfl, rfl, rfl⟩, Nat.one_ne_zero⟩
  show (osc.paramIndices.set _ _).length = maxOsc
  rw [List.length_set, hsize]

theorem splitParams_offsets (offset : Nat) (front : List (List UInt8)) (last : List UInt8) :
    splitParams (offsets offset front) offset (front.flatten ++ last) = .ok (front ++ [last]) := by
  induction front generalizing offset with
  | nil => rfl
  | cons field front ih =>
    rw [offsets, splitParams, if_neg (by omega), Nat.add_sub_cancel_left, List.flatten_cons,
      List.append_assoc, if_neg (by rw [List.length_append]; omega), List.drop_left,
      List.take_left, ih]
    rfl

theorem Holds.finish (h : osc.Holds fields) (hn : osc.numParams ≠ 0) :
    (do
      let limit := min osc.numParams maxOsc
      let indices ← slice osc.paramIndices (limit - 1)
      let params ← splitParams indices 0 osc.buffer
      .ok [VTAction.oscDispatch params]) = .ok [.oscDispatch (fields.take maxOsc)] := by
  have hlen := h.length hn
  have hcount : (fields.take maxOsc).length = osc.numParams := by
    rw [List.length_take]
    omega
  obtain ⟨front, last, hfields⟩ := (List.eq_nil_or_concat (fields.take maxOsc)).resolve_left (by
    intro hnil
    rw [hnil] at hcount
    exact hn hcount.symm)
  rw [List.concat_eq_append] at hfields
  have hfront : osc.numParams - 1 = front.length := by
    rw [hfields, List.length_append, List.length_singleton] at hcount
    omega
  have hindices := h.indices
  have htake : fields.take (osc.numParams - 1) = front := by
    have hkept := congrArg (List.take (osc.numParams - 1)) hfields
    rw [List.take_take, Nat.min_eq_left (by omega), hfront, List.take_left] at hkept
    rw [hfront]
    exact hkept
  rw [htake] at hindices
  dsimp only
  rw [Nat.min_eq_left (by omega), slice_ok (by rw [h.size]; omega), ok_bind, hindices, h.buffer,
    hfields, List.flatten_append, List.flatten_singleton, splitParams_offsets, ok_bind]

/-! ## Whole strings -/

theorem put_counts (h : osc.put c = .ok osc') :
    (osc.inputBytes + (String.utf8EncodeChar c).length ≤ maxOscBytes ∧
      osc'.inputBytes = osc.inputBytes + (String.utf8EncodeChar c).length ∧
      osc'.dataTruncated = osc.dataTruncated) ∨
    (maxOscBytes < osc.inputBytes + (String.utf8EncodeChar c).length ∧
      osc'.inputBytes = osc.inputBytes ∧ osc'.dataTruncated = true) := by
  unfold OscState.put at h
  dsimp only at h
  split at h
  · next htoo =>
    cases h
    exact .inr ⟨htoo, rfl, rfl⟩
  · next hfit =>
    refine .inl ⟨Nat.le_of_not_lt hfit, ?_⟩
    split at h
    · split at h
      · cases h
        exact ⟨rfl, rfl⟩
      · unfold store at h
        split at h
        · rw [ok_bind] at h
          cases h
          exact ⟨rfl, rfl⟩
        · cases h
    · split at h
      · cases h
        exact ⟨rfl, rfl⟩
      · cases h
        exact ⟨rfl, rfl⟩

/-- The characters of a string, one after the other. -/
def putText (osc : OscState) (text : List Char) : Except Fault OscState :=
  text.foldlM OscState.put osc

theorem putText_cons (h : osc.putText (c :: text) = .ok osc') :
    ∃ osc1, osc.put c = .ok osc1 ∧ osc1.putText text = .ok osc' := by
  unfold putText at h
  rw [List.foldlM_cons] at h
  cases hput : osc.put c with
  | error fault =>
    rw [hput] at h
    cases h
  | ok osc1 =>
    rw [hput] at h
    exact ⟨osc1, rfl, h⟩

theorem putText_truncated (h : osc.putText text = .ok osc') (hlimit : osc.inputBytes ≤ maxOscBytes)
    :
    osc'.dataTruncated =
      (osc.dataTruncated || decide (maxOscBytes < osc.inputBytes + (encodeText text).length)) := by
  induction text generalizing osc with
  | nil =>
    obtain rfl := Except.ok.inj h
    show _ = (osc.dataTruncated || decide (maxOscBytes < osc.inputBytes + 0))
    rw [decide_eq_false (by omega), Bool.or_false]
  | cons c text ih =>
    obtain ⟨osc1, hput, hrest⟩ := putText_cons h
    rw [encodeText_cons, List.length_append, ← Nat.add_assoc]
    rcases put_counts hput with ⟨hfit, hbytes, hsame⟩ | ⟨htoo, hbytes, htrue⟩
    · rw [ih hrest (by omega), hbytes, hsame]
    · rw [ih hrest (by omega), htrue, decide_eq_true (show maxOscBytes < osc.inputBytes +
        (String.utf8EncodeChar c).length + (encodeText text).length by omega)]
      simp

theorem Holds.putText (h : osc.Holds fields) (hn : osc.numParams ≠ 0)
    (hfit : osc.inputBytes + (encodeText text).length ≤ maxOscBytes)
    (h' : osc.putText text = .ok osc') :
    osc'.Holds (text.foldl (pushField ';' String.utf8EncodeChar) fields) ∧ osc'.numParams ≠ 0 := by
  induction text generalizing osc fields with
  | nil =>
    cases h'
    exact ⟨h, hn⟩
  | cons c text ih =>
    obtain ⟨osc1, hput, hrest⟩ := putText_cons h'
    rw [encodeText_cons, List.length_append] at hfit
    obtain ⟨hholds, hn1⟩ := h.put (by omega) (fun _ => hn) hput
    rcases put_counts hput with ⟨-, hbytes, -⟩ | ⟨htoo, -, -⟩
    · exact ih hholds hn1 (by omega) hrest
    · omega

/-- What the fields are of a string that is not empty: the first separator is lost if nothing is
before it. -/
def fieldsOf : List Char → List (List UInt8)
  | [] => []
  | c :: text => ((if c = ';' then text else c :: text).splitOn ';').map encodeText

/-- What a string is told as. -/
def dispatched (text : List Char) : List VTAction :=
  if maxOscBytes < (encodeText text).length then []
  else [.oscDispatch ((fieldsOf text).take maxOsc)]

/-- **What a string comes to.** -/
theorem finish_putText (hsize : osc.paramIndices.length = maxOsc)
    (h : osc.start.putText text = .ok osc') : osc'.finish = .ok (dispatched text) := by
  have htruncated := putText_truncated h (Nat.zero_le _)
  rw [show osc.start.inputBytes = 0 from rfl, Nat.zero_add,
    show osc.start.dataTruncated = false from rfl, Bool.false_or] at htruncated
  unfold OscState.finish dispatched
  rw [htruncated]
  by_cases hlong : maxOscBytes < (encodeText text).length
  · rw [if_pos (decide_eq_true hlong), if_pos hlong]
  · rw [if_neg (by simpa using hlong), if_neg hlong]
    cases text with
    | nil =>
      cases h
      rfl
    | cons c text =>
      -- the fields that are held at the end
      have hholds : osc'.Holds (fieldsOf (c :: text)) ∧ osc'.numParams ≠ 0 := by
        obtain ⟨osc1, hput, hrest⟩ := putText_cons h
        rw [encodeText_cons, List.length_append] at hlong
        have hbytes : osc1.inputBytes = (String.utf8EncodeChar c).length := by
          rcases put_counts hput with ⟨-, hbytes, -⟩ | ⟨htoo, -, -⟩
          · rw [hbytes]
            exact Nat.zero_add _
          · exact absurd htoo (by show ¬ maxOscBytes < 0 + _; omega)
        have hfit : osc1.inputBytes + (encodeText text).length ≤ maxOscBytes := by omega
        show osc'.Holds (((if c = ';' then text else c :: text).splitOn ';').map encodeText) ∧ _
        unfold encodeText
        rw [← foldl_pushField_nil]
        by_cases hc : c = ';'
        · subst hc
          obtain ⟨hone, hn⟩ := holds_put_separator hsize hput
          rw [if_pos rfl]
          exact hone.putText hn hfit hrest
        · obtain ⟨hone, hn⟩ := (holds_start hsize).put
            (by show 0 + _ ≤ maxOscBytes; omega) (fun h => absurd h hc) hput
          rw [if_neg hc, List.foldl_cons]
          exact hone.putText hn hfit hrest
      obtain ⟨hholds, hn⟩ := hholds
      rw [if_neg hn]
      exact hholds.finish hn

end OscState

end Wakterm.Vtparse
