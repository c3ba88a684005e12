import Wakterm.Machine.Decimal
import Wakterm.Vtparse.Logic.OscText

/-!
# The parameters of a device control string

The digits of a field add up to its number.
-/

namespace Wakterm.Vtparse

open Wakterm.Machine

/-! ## Fields -/

/-- A number in decimal, or nothing. -/
def fieldText : Option Nat → List UInt8
  | none => []
  | some n => (printNat n).map fun c => UInt8.ofNat c.toNat

/-- Fields with `;` between them. -/
def fieldsText : List (Option Nat) → List UInt8
  | [] => []
  | [v] => fieldText v
  | v :: w :: rest => fieldText v ++ 0x3b :: fieldsText (w :: rest)

def number : Option Nat → List CsiParam
  | none => []
  | some n => [.integer n]

def stored : List (Option Nat) → List CsiParam
  | [] => []
  | [v] => number v
  | v :: w :: rest => number v ++ .p 0x3b :: stored (w :: rest)

/-- The numbers of the fields, 0 for one that is omitted. -/
def numbers (fields : List (Option Nat)) : List Int := fields.map fun v => ((v.getD 0 : Nat) : Int)

theorem length_stored (fields : List (Option Nat)) :
    (stored fields).length = (fields.filter Option.isSome).length + (fields.length - 1) := by
  induction fields with
  | nil => rfl
  | cons v rest ih =>
    cases rest with
    | nil => cases v <;> rfl
    | cons w rest =>
      have hnumber : (number v).length = if v.isSome then 1 else 0 := by cases v <;> rfl
      rw [stored, List.length_append, List.length_cons, ih, hnumber, List.filter_cons (x := v)]
      cases v <;> simp <;> omega

theorem integerParams_number (v : Option Nat) (params : List CsiParam) (front back : List Int) :
    integerParams (number v ++ params) front.length (front ++ 0 :: back) =
      integerParams params front.length (front ++ ((v.getD 0 : Nat) : Int) :: back) := by
  cases v with
  | none => rfl
  | some n =>
    have hstore : store (front ++ 0 :: back) front.length (n : Int) =
        .ok (front ++ (n : Int) :: back) := by
      rw [store_ok (by simp), List.set_append_right _ _ (Nat.le_refl _), Nat.sub_self, List.set_cons_zero]
    show (store (front ++ 0 :: back) front.length (n : Int) >>= _) = _
    rw [hstore]
    rfl

theorem integerParams_stored {fields : List (Option Nat)} {front : List Int} {room : Nat}
    (hroom : fields.length ≤ room) :
    integerParams (stored fields) front.length (front ++ List.replicate room 0) =
      .ok (front ++ numbers fields ++ List.replicate (room - fields.length) 0) := by
  induction fields generalizing front room with
  | nil => simp [stored, integerParams, numbers]
  | cons v rest ih =>
    obtain ⟨room, rfl⟩ : ∃ n, room = n + 1 := ⟨room - 1, by
      rw [List.length_cons] at hroom
      omega⟩
    have hrest : rest.length ≤ room := Nat.le_of_succ_le_succ hroom
    rw [List.replicate_succ]
    cases rest with
    | nil =>
      have hnumber := integerParams_number v [] front (List.replicate room 0)
      rw [List.append_nil] at hnumber
      rw [stored, hnumber]
      simp [integerParams, numbers]
    | cons w rest =>
      have hmore := @ih (front ++ [((v.getD 0 : Nat) : Int)]) room hrest
      rw [List.length_append, List.length_singleton, List.append_assoc,
        List.singleton_append] at hmore
      rw [stored, integerParams_number, integerParams, if_pos rfl, hmore]
      simp [numbers]

/-! ## Parsing -/

namespace VTParser

variable {σ : Type} {utf8 : Utf8Parser σ} {p : VTParser σ}

/-- A device control string of which the parameters are read: what is stored, and the number that
is not over yet. -/
structure Holds (done : List CsiParam) (current : Option Nat) (p : VTParser σ) : Prop where
  state : p.state = .dcsEntry ∨ p.state = .dcsParam
  size : p.params.length = maxParams
  count : p.numParams = done.length
  params : p.params.take done.length = done
  current : p.currentParam = current.map fun n => .integer n
  room : p.paramsFull = false
  intermediates : p.numIntermediates = 0
  ignored : p.ignoredExcessIntermediates = false

theorem dcs_param : ∀ i, i < 256 → (within 0x30 0x39 i || i == 0x3b) = true →
    Vtparse.dcsEntry i = (.param, .dcsParam) ∧ Vtparse.dcsParam i = (.param, .dcsParam) := by
  decide +kernel

theorem Holds.step {done done' : List CsiParam} {current current' : Option Nat}
    (h : p.Holds done current) {byte : UInt8}
    (hbyte : (within 0x30 0x39 byte.toNat || byte.toNat == 0x3b) = true) {p' : VTParser σ}
    (hparam : p.param byte = .ok p') (h' : p'.Holds done' current') :
    ∃ q, p.parseByte utf8 byte = .ok (q, []) ∧ q.Holds done' current' := by
  obtain ⟨hentry, hstays⟩ := dcs_param byte.toNat byte.toNat_lt hbyte
  have haction : p.action .param byte = .ok (p', []) := by
    show (p.param byte >>= _) = _
    rw [hparam, ok_bind]
  rcases h.state with hstate | hstate
  · have hlookup : lookup .dcsEntry byte = .ok (.param, .dcsParam) := congrArg Except.ok hentry
    exact ⟨_, parseByte_moves utf8 byte .dcsEntry .dcsParam hstate hlookup (by decide) rfl haction
      rfl, Or.inr rfl, h'.size, h'.count, h'.params, h'.current, h'.room, h'.intermediates,
      h'.ignored⟩
  · have hlookup : lookup p.state byte = .ok (.param, p.state) := by
      rw [hstate]
      exact congrArg Except.ok hstays
    have hnot : p.state ≠ .utf8Sequence := by
      rw [hstate]
      decide
    exact ⟨p', (parseByte_stays hnot hlookup (by decide)).trans haction, h'⟩

variable {done : List CsiParam} {current v : Option Nat}

theorem Holds.promoted (h : p.Holds done current) : p.promoteIntermediatesToParams = .ok p := by
  unfold VTParser.promoteIntermediatesToParams
  rw [h.intermediates, if_neg (Nat.lt_irrefl 0)]

theorem toNat_digit {c : Char} (hc : c.isDigit = true) : 0x30 ≤ c.toNat ∧ c.toNat ≤ 0x39 := by
  rw [Char.isDigit, Bool.and_eq_true, decide_eq_true_eq, decide_eq_true_eq] at hc
  exact hc

theorem saturate_of_lt {i : Int} (hlow : 0 ≤ i) (hhigh : i < 2 ^ 63) : saturate i = i := by
  unfold saturate
  omega

theorem Holds.digit (h : p.Holds done current) {c : Char} (hc : c.isDigit = true) {n : Nat}
    (hn : 10 * current.getD 0 + (c.toNat - '0'.toNat) = n) (hsize : n < 2 ^ 63) :
    ∃ q, p.parseByte utf8 (UInt8.ofNat c.toNat) = .ok (q, []) ∧ q.Holds done (some n) := by
  obtain ⟨hlow, hhigh⟩ := toNat_digit hc
  have hbyte : (UInt8.ofNat c.toNat).toNat = c.toNat := byte_toNat (by omega)
  have hdigit : 0x30 ≤ UInt8.ofNat c.toNat ∧ UInt8.ofNat c.toNat ≤ 0x39 := by
    rw [UInt8.le_iff_toNat_le, UInt8.le_iff_toNat_le, hbyte]
    exact ⟨hlow, hhigh⟩
  have hvalue : (UInt8.ofNat c.toNat - 0x30).toNat = c.toNat - 0x30 := by
    rw [UInt8.toNat_sub_of_le _ _ hdigit.1, hbyte]
    rfl
  have hzero : '0'.toNat = 0x30 := rfl
  have hparam : p.param (UInt8.ofNat c.toNat) =
      .ok { p with currentParam := some (.integer n) } := by
    unfold VTParser.param
    rw [if_neg (by rw [h.room]; decide), h.promoted, ok_bind, if_pos hdigit]
    dsimp only
    rw [hvalue, h.current]
    cases current with
    | none =>
      simp only [Option.map_none, Option.getD_none] at hn ⊢
      rw [show c.toNat - 0x30 = n by omega]
    | some m =>
      simp only [Option.map_some, Option.getD_some] at hn ⊢
      have hshift : saturate ((m : Int) * 10) = (m : Int) * 10 :=
        saturate_of_lt (by omega) (by omega)
      rw [hshift, saturate_of_lt (by omega) (by omega),
        show (m : Int) * 10 + ((c.toNat - 0x30 : Nat) : Int) = (n : Int) by omega]
  refine h.step ?_ hparam
    ⟨h.state, h.size, h.count, h.params, rfl, h.room, h.intermediates, h.ignored⟩
  simp only [within, hbyte, Bool.or_eq_true, Bool.and_eq_true, decide_eq_true_eq]
  exact Or.inl ⟨hlow, hhigh⟩

theorem le_ofDigitChars (text : List Char) (n : Nat) : n ≤ Nat.ofDigitChars 10 text n := by
  induction text generalizing n with
  | nil => exact Nat.le_refl _
  | cons c text ih =>
    rw [Nat.ofDigitChars_cons]
    exact Nat.le_trans (by omega) (ih _)

theorem Holds.digits (h : p.Holds done current) {text : List Char} (hne : text ≠ [])
    (htext : ∀ c ∈ text, c.isDigit = true)
    (hsize : Nat.ofDigitChars 10 text (current.getD 0) < 2 ^ 63) :
    ∃ q, p.parse utf8 (text.map fun c => UInt8.ofNat c.toNat) = .ok (q, []) ∧
      q.Holds done (some (Nat.ofDigitChars 10 text (current.getD 0))) := by
  induction text generalizing p current with
  | nil => exact absurd rfl hne
  | cons c text ih =>
    rw [Nat.ofDigitChars_cons] at hsize ⊢
    have hgrows := le_ofDigitChars text (10 * current.getD 0 + (c.toNat - '0'.toNat))
    obtain ⟨q, hbyte, hq⟩ : ∃ q, p.parseByte utf8 (UInt8.ofNat c.toNat) = .ok (q, []) ∧
        q.Holds done (some (10 * current.getD 0 + (c.toNat - '0'.toNat))) :=
      h.digit (htext c List.mem_cons_self) rfl (Nat.lt_of_le_of_lt hgrows hsize)
    cases text with
    | nil => exact ⟨q, parse_one hbyte, hq⟩
    | cons d text =>
      obtain ⟨q', hrest, hq'⟩ := ih hq (List.cons_ne_nil d text)
        (fun e he => htext e (List.mem_cons_of_mem c he)) hsize
      exact ⟨q', andThen_eq_ok hbyte hrest, hq'⟩

theorem Holds.field (h : p.Holds done none) (hsize : ∀ n, v = some n → n < 2 ^ 63) :
    ∃ q, p.parse utf8 (fieldText v) = .ok (q, []) ∧ q.Holds done v := by
  cases v with
  | none => exact ⟨p, rfl, h⟩
  | some n =>
    have hread : Nat.ofDigitChars 10 (printNat n) 0 = n := Nat.ofDigitChars_ten_toDigits
    obtain ⟨q, hparse, hq⟩ : ∃ q, p.parse utf8 (fieldText (some n)) = .ok (q, []) ∧
        q.Holds done (some (Nat.ofDigitChars 10 (printNat n) 0)) := by
      refine h.digits Nat.toDigits_ne_nil (fun c hc => isDigit_of_mem_printNat hc) ?_
      show Nat.ofDigitChars 10 (printNat n) 0 < _
      rw [hread]
      exact hsize n rfl
    rw [hread] at hq
    exact ⟨q, hparse, hq⟩

theorem Holds.push (h : p.Holds done none) (hroom : done.length < maxParams) (param : CsiParam) :
    ∃ q, p.pushParam param = .ok q ∧ q.Holds (done ++ [param]) none := by
  have hlast : p.numParams < p.params.length := by
    rw [h.count, h.size]
    exact hroom
  have htake := OscState.take_set_last hlast param
  refine ⟨{ p with
    params := p.params.set p.numParams param
    numParams := p.numParams + 1 }, ?_, h.state, ?_, ?_, ?_, h.current, h.room, h.intermediates,
    h.ignored⟩
  · unfold VTParser.pushParam
    rw [store_ok hlast]
    rfl
  · show (p.params.set _ _).length = _
    rw [List.length_set, h.size]
  · show p.numParams + 1 = _
    rw [h.count, List.length_append, List.length_singleton]
  · show (p.params.set p.numParams param).take _ = _
    rw [List.length_append, List.length_singleton, ← h.count, htake, h.count, h.params]

theorem Holds.finish (h : p.Holds done v) (hroom : done.length < maxParams) :
    ∃ q, p.finishParam = .ok q ∧ q.Holds (done ++ number v) none := by
  have hcurrent := h.current
  unfold VTParser.finishParam
  cases v with
  | none =>
    rw [hcurrent]
    refine ⟨p, rfl, ?_⟩
    rw [number, List.append_nil]
    exact h
  | some n =>
    rw [hcurrent]
    have hcleared : Holds done none { p with currentParam := none } :=
      ⟨h.state, h.size, h.count, h.params, rfl, h.room, h.intermediates, h.ignored⟩
    obtain ⟨q, hpush, hq⟩ := hcleared.push hroom (.integer n)
    refine ⟨q, ?_, hq⟩
    have hfits : p.numParams < maxParams := by
      rw [h.count]
      exact hroom
    exact (if_pos hfits).trans hpush

theorem Holds.separator (h : p.Holds done v) (hroom : done.length + 2 ≤ maxParams) :
    ∃ q, p.parseByte utf8 0x3b = .ok (q, []) ∧ q.Holds (done ++ number v ++ [.p 0x3b]) none := by
  obtain ⟨q, hfinish, hq⟩ := h.finish (by omega)
  have hlength : (done ++ number v).length < maxParams := by
    have hnumber : (number v).length ≤ 1 := by cases v <;> simp [number]
    rw [List.length_append]
    omega
  obtain ⟨q', hpush, hq'⟩ := hq.push hlength (.p 0x3b)
  have hparam : p.param 0x3b = .ok q' := by
    unfold VTParser.param
    rw [h.room, if_neg (by decide), h.promoted, ok_bind, if_neg (by decide), hfinish, ok_bind,
      if_neg (by rw [hq.count]; omega), hpush]
  exact h.step (by decide) hparam hq'

theorem Holds.fields (h : p.Holds done none) (hdone : done.length < maxParams)
    {fields : List (Option Nat)} (hsize : ∀ v ∈ fields, ∀ n, v = some n → n < 2 ^ 63)
    (hroom : done.length + 2 * fields.length ≤ maxParams) :
    ∃ q front v, p.parse utf8 (fieldsText fields) = .ok (q, []) ∧ q.Holds front v ∧
      front.length < maxParams ∧ front ++ number v = done ++ stored fields := by
  induction fields generalizing p done with
  | nil => exact ⟨p, done, none, rfl, h, hdone, rfl⟩
  | cons v rest ih =>
    rw [List.length_cons] at hroom
    obtain ⟨q, hfield, hq⟩ : ∃ q, p.parse utf8 (fieldText v) = .ok (q, []) ∧ q.Holds done v :=
      h.field (hsize v List.mem_cons_self)
    cases rest with
    | nil => exact ⟨q, done, v, hfield, hq, hdone, rfl⟩
    | cons w rest =>
      rw [List.length_cons] at hroom
      obtain ⟨q1, hseparator, hq1⟩ : ∃ q1, q.parseByte utf8 0x3b = .ok (q1, []) ∧
          q1.Holds (done ++ number v ++ [CsiParam.p 0x3b]) none := hq.separator (by omega)
      have hlength : (done ++ number v ++ [CsiParam.p 0x3b]).length ≤ done.length + 2 := by
        have hnumber : (number v).length ≤ 1 := by cases v <;> simp [number]
        simp only [List.length_append, List.length_singleton]
        omega
      obtain ⟨q2, front, v', hrest, hq2, hfront, hstored⟩ := ih hq1 (by omega)
        (fun u hu => hsize u (List.mem_cons_of_mem v hu)) (by rw [List.length_cons]; omega)
      refine ⟨q2, front, v', ?_, hq2, hfront, ?_⟩
      · rw [fieldsText, parse_append]
        exact andThen_eq_ok hfield (andThen_eq_ok hseparator hrest)
      · rw [hstored, stored]
        simp

theorem dcs_final : ∀ i, i < 256 → within 0x40 0x7e i = true →
    Vtparse.dcsEntry i = (.none, .dcsPassthrough) ∧
      Vtparse.dcsParam i = (.none, .dcsPassthrough) := by
  decide +kernel

theorem Holds.hook {front : List CsiParam} (h : p.Holds front v) (hroom : front.length < maxParams)
    {res : List Int}
    (hres : integerParams (front ++ number v) 0 (List.replicate maxParams 0) = .ok res)
    (hlength : (front ++ number v).length ≤ res.length) {byte : UInt8}
    (hbyte : within 0x40 0x7e byte.toNat = true) : ∃ q, p.parseByte utf8 byte =
      .ok (q, [.dcsHook (res.take (front ++ number v).length) [] false byte]) := by
  obtain ⟨q, hfinish, hq⟩ := h.finish hroom
  obtain ⟨hentry, hparam⟩ := dcs_final byte.toNat byte.toNat_lt hbyte
  have hcount : q.numParams ≤ q.params.length := by
    rw [hq.count, hq.size]
    have hnumber : (number v).length ≤ 1 := by cases v <;> simp [number]
    rw [List.length_append]
    omega
  have hparams : q.asIntegerParams = .ok (res.take (front ++ number v).length) := by
    unfold VTParser.asIntegerParams
    rw [slice_ok hcount, ok_bind, hq.count, hq.params, hres, ok_bind, slice_ok hlength]
  have haction : p.action .hook byte =
      .ok (q, [.dcsHook (res.take (front ++ number v).length) [] false byte]) := by
    unfold VTParser.action
    dsimp only
    rw [hfinish, ok_bind, hparams, ok_bind, hq.intermediates, slice_ok (Nat.zero_le _), ok_bind,
      List.take_zero, hq.ignored]
  rcases h.state with hstate | hstate
  · have hlookup : lookup .dcsEntry byte = .ok (.none, .dcsPassthrough) := congrArg Except.ok hentry
    exact ⟨_, parseByte_moves utf8 byte .dcsEntry .dcsPassthrough hstate hlookup (by decide) rfl rfl
      haction⟩
  · have hlookup : lookup .dcsParam byte = .ok (.none, .dcsPassthrough) := congrArg Except.ok hparam
    exact ⟨_, parseByte_moves utf8 byte .dcsParam .dcsPassthrough hstate hlookup (by decide) rfl rfl
      haction⟩

/-- What begins a device control string: ESC and P, or the C1 control. -/
def dcsIntroducers : List (List UInt8) := [[0x1b, 0x50], [0x90]]

theorem Ready.parse_dcs (h : p.Ready utf8) (hground : p.state = .ground) {bytes : List UInt8}
    (hbytes : bytes ∈ dcsIntroducers) :
    ∃ q, p.parse utf8 bytes = .ok (q, []) ∧ q.Holds [] none := by
  rcases List.mem_pair.mp hbytes with rfl | rfl
  · have hesc : p.parseByte utf8 0x1b =
        .ok ({ p.clear with utf8ReturnState := p.state, state := .escape }, []) :=
      parseByte_moves utf8 0x1b .ground .escape hground rfl (by decide) rfl rfl rfl
    let q : VTParser σ := { p.clear with utf8ReturnState := p.state, state := .escape }
    have hdcs : q.parseByte utf8 0x50 =
        .ok ({ q.clear with utf8ReturnState := .escape, state := .dcsEntry }, []) :=
      parseByte_moves utf8 0x50 .escape .dcsEntry rfl rfl (by decide) rfl rfl rfl
    exact ⟨_, andThen_eq_ok hesc (parse_one hdcs), Or.inl rfl, h.paramsSize, rfl, rfl, rfl, rfl, rfl,
      rfl⟩
  · have hdcs : p.parseByte utf8 0x90 =
        .ok ({ p.clear with utf8ReturnState := p.state, state := .dcsEntry }, []) :=
      parseByte_moves utf8 0x90 .ground .dcsEntry hground rfl (by decide) rfl rfl rfl
    exact ⟨_, parse_one hdcs, Or.inl rfl, h.paramsSize, rfl, rfl, rfl, rfl, rfl, rfl⟩

end VTParser

end Wakterm.Vtparse
