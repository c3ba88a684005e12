import Mathlib.Data.List.Flatten
import Wakterm.Escape.Sgr

/-!
# The fields of an SGR sequence

A sequence is written as fields with `;` between them.
-/

namespace Wakterm.Theorems.Sgr

open Wakterm.Vtparse Wakterm.Escape Wakterm.Escape.CSIParser

/-- What stands between the numbers of a colour. -/
inductive Separator where
  | semicolon | colon
  deriving DecidableEq

def Separator.param : Separator → CsiParam
  | .semicolon => Escape.semicolon
  | .colon => Escape.colon

/-- A component, as a parameter. -/
def byte (b : UInt8) : CsiParam := .integer b.toNat

/-- The spellings of a colour. A colour space may be given, or left empty, between colons only. -/
inductive Color where
  | rgb (separator : Separator) (red green blue : UInt8)
  | rgbSpace (space : Option Int) (red green blue : UInt8)
  | alpha (red green blue alpha : UInt8)
  | alphaSpace (space : Option Int) (red green blue alpha : UInt8)
  | indexed (separator : Separator) (idx : UInt8)
  deriving DecidableEq

namespace Color

/-- The colour space and the colon that follows it. -/
def spaceParams : Option Int → List CsiParam
  | none => [colon]
  | some space => [.integer space, colon]

/-- The parameters that follow the code. -/
def params : Color → List CsiParam
  | .rgb s r g b =>
    [s.param, .integer 2, s.param, byte r, s.param, byte g, s.param, byte b]
  | .rgbSpace space r g b =>
    [colon, .integer 2, colon] ++ spaceParams space ++ [byte r, colon, byte g, colon, byte b]
  | .alpha r g b a =>
    [colon, .integer 6, colon, byte r, colon, byte g, colon, byte b, colon, byte a]
  | .alphaSpace space r g b a =>
    [colon, .integer 6, colon] ++ spaceParams space ++
      [byte r, colon, byte g, colon, byte b, colon, byte a]
  | .indexed s idx => [s.param, .integer 5, s.param, byte idx]

def spec : Color → ColorSpec
  | .rgb _ r g b => .rgb r g b
  | .rgbSpace _ r g b => .rgb r g b
  | .alpha r g b a => .trueColor r g b a
  | .alphaSpace _ r g b a => .trueColor r g b a
  | .indexed _ idx => .paletteIndex idx

end Color

/-- What a colour is set for. -/
inductive Ground where
  | foreground | background | underline
  deriving DecidableEq

def Ground.code : Ground → Int
  | .foreground => 38
  | .background => 48
  | .underline => 58

def Ground.sgr : Ground → ColorSpec → Escape.Sgr
  | .foreground => .foreground
  | .background => .background
  | .underline => .underlineColor

/-- A field: a plain code, which is none of those that a colour follows, an empty one, an underline
form, or a colour. -/
inductive Field where
  | code (code : { n : Int // n ≠ 38 ∧ n ≠ 48 ∧ n ≠ 58 })
  | empty
  | underline (style : Int)
  | color (ground : Ground) (color : Color)
  deriving DecidableEq

namespace Field

@[grind =] def params : Field → List CsiParam
  | .code n => [.integer n.val]
  | .empty => []
  | .underline n => [.integer 4, colon, .integer n]
  | .color ground shade => .integer ground.code :: shade.params

/-- What is read from the field. An unknown code is read as nothing. -/
@[grind =] def values : Field → List Escape.Sgr
  | .code n => if n.val = 4 then [.underline .single] else (sgrCodes.lookup n.val).toList
  | .empty => [.reset]
  | .underline n => [.underline ((underlineStyles.lookup n).getD .single)]
  | .color ground shade => [ground.sgr shade.spec]

/-- Does the parser go on behind the field? -/
def Understood : Field → Prop
  | .code n => n.val = 4 ∨ (sgrCodes.lookup n.val).isSome
  | .underline n => (underlineStyles.lookup n).isSome
  | .empty => True
  | .color _ _ => True

/-- A code that the parser does not know. -/
def Unknown (f : Field) : Prop := ∃ n, f = .code n ∧ ¬ f.Understood

instance (f : Field) : Decidable f.Understood :=
  match f with
  | .code n => inferInstanceAs (Decidable (n.val = 4 ∨ (sgrCodes.lookup n.val).isSome))
  | .underline n => inferInstanceAs (Decidable ((underlineStyles.lookup n).isSome = true))
  | .empty => inferInstanceAs (Decidable True)
  | .color _ _ => inferInstanceAs (Decidable True)

end Field

/-- The fields with `;` between them. -/
@[grind =] def joined : List Field → List CsiParam
  | [] => []
  | [f] => f.params
  | f :: g :: rest => f.params ++ semicolon :: joined (g :: rest)

/-- The fields that the parser reads. -/
@[grind =] def taken : List Field → List Field
  | [] => []
  | [f] => [f]
  | f :: g :: rest =>
    if ¬ f.Understood then [f]
    else if f = .empty ∧ g = .empty then
      -- the `;` behind the second empty field goes with the first
      f :: if rest = [.empty] then [] else taken rest
    else f :: if g :: rest = [.empty] then [] else taken (g :: rest)

/-- The lists of which every field is read, or that lose only fields that are read as nothing. -/
def Separable : List Field → Prop
  | [] => False
  | [_] => True
  | f :: g :: rest =>
    if f.Understood then
      (f = .empty → g ≠ .empty) ∧ (g = .empty → rest ≠ []) ∧ Separable (g :: rest)
    else ∀ h ∈ g :: rest, h.Unknown

/-! ## One field -/

@[simp] theorem toU8_byte (b : UInt8) : toU8 (byte b) = some b := by
  have hb : b.toNat < 256 := b.toNat_lt
  have hmod : ((b.toNat : Int) % 256).toNat = b.toNat := by omega
  show (if (b.toNat : Int) ≤ 255 then some (UInt8.ofNat ((b.toNat : Int) % 256).toNat) else none) =
    some b
  rw [if_pos (by omega), hmod, UInt8.ofNat_toNat]

@[simp] theorem p_ne_byte (c b : UInt8) : CsiParam.p c ≠ byte b := by
  intro heq
  cases heq

/-- What can stand behind a field: nothing, or a `;` and more. -/
def Behind (after : List CsiParam) : Prop := after = [] ∨ ∃ rest, after = semicolon :: rest

/-- The parser when a field is read, and the `;` behind it passed. -/
def onTo (p : CSIParser) (after : List CsiParam) : CSIParser :=
  if after.isEmpty then p else { p with params := some after }

variable {after params : List CsiParam} {f : Field} {fs : List Field} {p : CSIParser}

theorem advanceBy_behind (hbehind : Behind after) (p : CSIParser) (field : List CsiParam) :
    p.advanceBy field.length (field ++ after) = onTo p after.tail := by
  rcases hbehind with rfl | ⟨rest, rfl⟩
  · simp [advanceBy, onTo]
  · have hdrop : (field ++ semicolon :: rest).drop (field.length + 1) = rest := by
      rw [List.drop_append, List.drop_of_length_le (Nat.le_succ _)]
      simp
    simp [advanceBy, onTo, hdrop]

theorem parseSgrColor_color (hbehind : Behind after) (p : CSIParser) (first : CsiParam)
    (color : Color) :
    p.parseSgrColor (first :: color.params ++ after) = (onTo p after.tail, some color.spec) := by
  have hadvance := advanceBy_behind hbehind p (first :: color.params)
  cases color with
  | rgb separator red green blue =>
    cases separator <;> rcases hbehind with rfl | ⟨rest, rfl⟩ <;>
      simp_all [parseSgrColor, fits, Slot.admits, Color.params, Separator.param, semicolon, colon,
        alphaSpace, alphaEmptySpace, alpha, rgbSpace, rgbEmptySpace, rgb, trueColor, components,
        Color.spec]
  | rgbSpace space red green blue =>
    cases space <;> rcases hbehind with rfl | ⟨rest, rfl⟩ <;>
      simp_all [parseSgrColor, fits, Slot.admits, Color.params, Color.spaceParams, semicolon,
        colon, alphaSpace, alphaEmptySpace, alpha, rgbSpace, rgbEmptySpace, trueColor,
        components, Color.spec]
  | alpha red green blue opacity =>
    rcases hbehind with rfl | ⟨rest, rfl⟩ <;>
      simp_all [parseSgrColor, fits, Slot.admits, Color.params, semicolon, colon, alphaSpace,
        alphaEmptySpace, alpha, trueColor, components, Color.spec]
  | alphaSpace space red green blue opacity =>
    cases space <;> rcases hbehind with rfl | ⟨rest, rfl⟩ <;>
      simp_all [parseSgrColor, fits, Slot.admits, Color.params, Color.spaceParams, semicolon,
        colon, alphaSpace, alphaEmptySpace, trueColor, components, Color.spec]
  | indexed separator idx =>
    cases separator <;> rcases hbehind with rfl | ⟨rest, rfl⟩ <;>
      simp_all [parseSgrColor, fits, Slot.admits, Color.params, Separator.param, semicolon, colon,
        alphaSpace, alphaEmptySpace, alpha, rgbSpace, rgbEmptySpace, rgb, indexed, components,
        Color.spec]

theorem sgr_integer (p : CSIParser) {code : Int} {rest : List CsiParam}
    (hallowed : (CsiParam.integer code :: rest).all allowed) :
    p.sgr (.integer code :: rest) =
      if code = 4 then p.underline (.integer code :: rest)
      else if code = 38 then
        (p.parseSgrColor (.integer code :: rest)).map id (·.map .foreground)
      else if code = 48 then
        (p.parseSgrColor (.integer code :: rest)).map id (·.map .background)
      else if code = 58 then
        (p.parseSgrColor (.integer code :: rest)).map id (·.map .underlineColor)
      else
        match sgrCodes.lookup code with
        | some sgr => (p.advanceBy 1 (.integer code :: rest), some sgr)
        | none => (p, none) :=
  if_pos hallowed

theorem sgr_field (hbehind : Behind after) (p : CSIParser) (hnonempty : f ≠ .empty)
    (hunderstood : f.Understood) (hallowed : (f.params ++ after).all allowed) :
    ∃ v, f.values = [v] ∧ p.sgr (f.params ++ after) = (onTo p after.tail, some v) := by
  have hadvance := advanceBy_behind hbehind p
  cases f with
  | empty => exact absurd rfl hnonempty
  | code n =>
    obtain ⟨n, h38, h48, h58⟩ := n
    have hread : p.sgr (.integer n :: after) = _ := sgr_integer p hallowed
    have hadvance : p.advanceBy 1 (.integer n :: after) = _ := hadvance [.integer n]
    by_cases h4 : n = 4
    · refine ⟨.underline .single, by simp [Field.values, h4], ?_⟩
      show p.sgr (.integer n :: after) = _
      rw [← hadvance]
      have hplain : (CsiParam.integer n :: after)[1]? ≠ some colon := by
        rcases hbehind with rfl | ⟨rest, rfl⟩ <;> simp [semicolon, colon]
      rw [if_pos h4] at hread
      simpa only [underline, if_neg hplain] using hread
    · obtain ⟨v, hv⟩ := Option.isSome_iff_exists.mp (hunderstood.resolve_left h4)
      refine ⟨v, by simp_all [Field.values], ?_⟩
      show p.sgr (.integer n :: after) = _
      rw [← hadvance]
      rw [if_neg h4, if_neg h38, if_neg h48, if_neg h58] at hread
      simpa only [hv] using hread
  | underline n =>
    obtain ⟨style, hstyle⟩ := Option.isSome_iff_exists.mp hunderstood
    refine ⟨.underline style, by simp [Field.values, hstyle], ?_⟩
    rw [← hadvance (Field.underline n).params]
    have hread := sgr_integer p hallowed
    simpa [underline, hstyle, Field.params] using hread
  | color ground shade =>
    refine ⟨ground.sgr shade.spec, rfl, ?_⟩
    have hcolor :
        p.parseSgrColor (.integer ground.code :: (shade.params ++ after)) = _ :=
      parseSgrColor_color hbehind p (.integer ground.code) shade
    have hread : p.sgr (.integer ground.code :: (shade.params ++ after)) = _ :=
      sgr_integer p hallowed
    show p.sgr (.integer ground.code :: (shade.params ++ after)) = _
    rw [hread, hcolor]
    cases ground <;> simp [Ground.code, Ground.sgr]

theorem sgr_unknown (p : CSIParser) {n : Int} (hcode : n ≠ 38 ∧ n ≠ 48 ∧ n ≠ 58)
    (hunknown : ¬ (Field.code ⟨n, hcode⟩).Understood)
    (hallowed : (CsiParam.integer n :: after).all allowed) :
    (Field.code ⟨n, hcode⟩).values = [] ∧ p.sgr (.integer n :: after) = (p, none) := by
  have hread := sgr_integer p hallowed
  simp only [Field.Understood, not_or, Option.not_isSome_iff_eq_none] at hunknown
  obtain ⟨h4, hnone⟩ := hunknown
  constructor
  · simp [Field.values, h4, hnone]
  · rw [if_neg h4, if_neg hcode.1, if_neg hcode.2.1, if_neg hcode.2.2] at hread
    simpa only [hnone] using hread

theorem sgr_unstyled (p : CSIParser) {n : Int} (hunknown : ¬ (Field.underline n).Understood)
    (hallowed : ((Field.underline n).params ++ after).all allowed) :
    p.sgr ((Field.underline n).params ++ after) =
        ({ p with params := some (colon :: .integer n :: after) }, some (.underline .single)) ∧
      ∀ q : CSIParser, q.sgr (colon :: .integer n :: after) = (q, none) := by
  have hread := sgr_integer p hallowed
  simp only [Field.Understood, Option.not_isSome_iff_eq_none] at hunknown
  constructor
  · simpa [underline, hunknown, Field.params, advanceBy, semicolon, colon] using hread
  · intro q
    have hrest : (colon :: CsiParam.integer n :: after).all allowed :=
      List.all_eq_true.mpr fun param hparam =>
        List.all_eq_true.mp hallowed param (List.mem_cons_of_mem _ hparam)
    exact if_pos hrest

/-! ## A whole sequence -/

theorem joined_cons (f g : Field) (rest : List Field) :
    joined (f :: g :: rest) = f.params ++ semicolon :: joined (g :: rest) := rfl

theorem params_eq_nil (hparams : f.params = []) : f = .empty := by
  cases f <;> simp_all [Field.params]

theorem joined_eq_nil (hne : fs ≠ []) (hjoined : joined fs = []) : fs = [.empty] := by
  cases fs with
  | nil => exact absurd rfl hne
  | cons f rest =>
    cases rest with
    | nil => rw [params_eq_nil hjoined]
    | cons g rest => simp [joined] at hjoined

theorem allowed_params (f : Field) : f.params.all allowed := by
  cases f with
  | code n => rfl
  | empty => rfl
  | underline n => rfl
  | color ground shade =>
    cases shade with
    | rgb separator => cases separator <;> rfl
    | rgbSpace space => cases space <;> rfl
    | alpha => rfl
    | alphaSpace space => cases space <;> rfl
    | indexed separator => cases separator <;> rfl

theorem allowed_joined (fs : List Field) : (joined fs).all allowed := by
  induction fs with
  | nil => rfl
  | cons f rest ih =>
    cases rest with
    | nil => exact allowed_params f
    | cons g rest =>
      rw [joined_cons, List.all_append, allowed_params, List.all_cons, ih]
      rfl

variable (special : CSIParser → List CsiParam → CSIParser × Option CSI)

/-- The values that the parser reads, with some fuel. -/
def readFrom (fuel : Nat) (p : CSIParser) : List Escape.Sgr := sgrs (items special fuel p)

/-- The sequence does not begin as a mouse report or a key modifier. -/
def Plain (p : CSIParser) : Prop :=
  ¬ (p.origParams.head? = some (.p 0x3c) ∨ p.origParams.head? = some (.p 0x3e))

theorem readFrom_none (fuel : Nat) (hnone : p.params = none) : readFrom special fuel p = [] := by
  cases fuel with
  | zero => rfl
  | succ fuel => simp [readFrom, items, next, hnone, sgrs]

theorem readFrom_value {q : CSIParser} (hplain : Plain p) (hnone : p.params = none) {v : Escape.Sgr}
    (hread : p.sgr params = (q, some v)) (fuel : Nat) :
    readFrom special (fuel + 1) { p with params := some params } =
      v :: readFrom special fuel q := by
  have hp : { p with params := none } = p := by rw [← hnone]
  have hnext : next special { p with params := some params } = some (.sgr v, q) := by
    simp [next, parseNext, hp, if_neg hplain, hread]
  rw [readFrom, items, hnext]
  rfl

theorem readFrom_failed (hplain : Plain p) (hnone : p.params = none)
    (hread : p.sgr params = (p, none)) (fuel : Nat) :
    readFrom special (fuel + 1) { p with params := some params } = [] := by
  have hp : { p with params := none } = p := by rw [← hnone]
  have hnext : next special { p with params := some params } =
      some (.unspecified params p.parametersTruncated p.control, p) := by
    simp [next, parseNext, hp, if_neg hplain, hread]
  rw [readFrom, items, hnext]
  exact readFrom_none special fuel hnone

theorem readFrom_field (hplain : Plain p) (hnone : p.params = none) (hunderstood : f.Understood)
    (hbehind : Behind after) (hallowed : (f.params ++ after).all allowed)
    (hempty : f = .empty → after.tail.head? ≠ some semicolon) (fuel : Nat) :
    readFrom special (fuel + 1) { p with params := some (f.params ++ after) } =
      f.values ++ readFrom special fuel (onTo p after.tail) := by
  by_cases hf : f = .empty
  · subst hf
    have hread : p.sgr after = (onTo p after.tail, some .reset) := by
      rcases hbehind with rfl | ⟨rest, rfl⟩
      · simp [sgr, onTo]
      · have hhead : (semicolon :: rest)[1]? ≠ some semicolon := by
          simpa [List.head?_eq_getElem?] using hempty rfl
        have hsgr : p.sgr (semicolon :: rest) =
            (p.advanceBy 1 (semicolon :: rest), some .reset) := if_pos hallowed
        rw [hsgr, advanceBy, if_neg hhead]
        rfl
    exact readFrom_value special hplain hnone hread fuel
  · obtain ⟨v, hvalues, hread⟩ := sgr_field hbehind p hf hunderstood hallowed
    rw [readFrom_value special hplain hnone hread, hvalues]
    rfl

theorem readFrom_stuck (hplain : Plain p) (hnone : p.params = none) (hunderstood : ¬ f.Understood)
    (hallowed : (f.params ++ after).all allowed) (fuel : Nat) :
    readFrom special (fuel + 2) { p with params := some (f.params ++ after) } = f.values := by
  cases f with
  | empty => exact absurd trivial hunderstood
  | color => exact absurd trivial hunderstood
  | code n =>
    obtain ⟨hvalues, hread⟩ := sgr_unknown p n.property hunderstood hallowed
    rw [hvalues]
    exact readFrom_failed special hplain hnone hread _
  | underline n =>
    obtain ⟨hread, hrest⟩ := sgr_unstyled p hunderstood hallowed
    have hvalues : (Field.underline n).values = [.underline .single] := by
      have hstyle : underlineStyles.lookup n = none := Option.not_isSome_iff_eq_none.mp hunderstood
      rw [Field.values, hstyle]
      rfl
    rw [readFrom_value special hplain hnone hread, hvalues,
      readFrom_failed special hplain hnone (hrest p)]

theorem readFrom_onTo (hnone : p.params = none) (hne : fs ≠ []) {values : List Escape.Sgr}
    {fuel : Nat} (hread : readFrom special fuel { p with params := some (joined fs) } = values) :
    readFrom special fuel (onTo p (joined fs)) = if fs = [.empty] then [] else values := by
  by_cases hlast : fs = [.empty]
  · rw [if_pos hlast, hlast]
    exact readFrom_none special fuel hnone
  · have hmore : (joined fs).isEmpty = false := by
      simpa using fun hjoined => hlast (joined_eq_nil hne hjoined)
    rw [if_neg hlast, onTo, hmore]
    exact hread

theorem length_params_pos (hunderstood : ¬ f.Understood) : 0 < f.params.length := by
  refine List.length_pos_iff.mpr fun hparams => hunderstood ?_
  rw [params_eq_nil hparams]
  trivial

theorem head_joined (hf : f ≠ .empty) (rest : List Field) :
    (joined (f :: rest)).head? ≠ some semicolon := by
  have hparams : ∃ n params, f.params = .integer n :: params := by
    cases f with
    | empty => exact absurd rfl hf
    | code n => exact ⟨_, _, rfl⟩
    | underline n => exact ⟨_, _, rfl⟩
    | color ground shade => exact ⟨_, _, rfl⟩
  obtain ⟨n, params, hparams⟩ := hparams
  cases rest with
  | nil => simp [joined, hparams, semicolon]
  | cons g rest => simp [joined, hparams, semicolon]

theorem sgr_empties (p : CSIParser) (rest : List Field) :
    p.sgr (joined (.empty :: .empty :: rest)) = (onTo p (joined rest), some .reset) := by
  have hallowed := allowed_joined (.empty :: .empty :: rest)
  have hsgr : p.sgr (joined (.empty :: .empty :: rest)) =
      (p.advanceBy 1 (joined (.empty :: .empty :: rest)), some .reset) := if_pos hallowed
  rw [hsgr]
  cases rest with
  | nil => simp [joined, Field.params, advanceBy, onTo]
  | cons h rest => simp [joined, Field.params, advanceBy, onTo]

theorem readFrom_joined (hplain : Plain p) (hnone : p.params = none) (fs : List Field)
    (hne : fs ≠ []) : ∀ fuel, (joined fs).length < fuel →
      readFrom special fuel { p with params := some (joined fs) } =
        (taken fs).flatMap Field.values := by
  induction fs using taken.induct with
  | case1 => exact absurd rfl hne
  | case2 f =>
    intro fuel hfuel
    have hallowed : (f.params ++ []).all allowed := by
      rw [List.append_nil]
      exact allowed_params f
    have hjoined : joined [f] = f.params ++ [] := (List.append_nil _).symm
    by_cases hunderstood : f.Understood
    · obtain ⟨fuel, rfl⟩ := Nat.exists_eq_succ_of_ne_zero (Nat.ne_zero_of_lt hfuel)
      rw [hjoined, readFrom_field special hplain hnone hunderstood (Or.inl rfl) hallowed
        (fun _ => by simp)]
      show f.values ++ readFrom special fuel p = _
      rw [readFrom_none special fuel hnone]
      rfl
    · have hlength := length_params_pos hunderstood
      obtain ⟨fuel, rfl⟩ : ∃ n, fuel = n + 2 := ⟨fuel - 2, by
        have : f.params.length < fuel := hfuel
        omega⟩
      rw [hjoined, readFrom_stuck special hplain hnone hunderstood hallowed]
      exact (List.append_nil _).symm
  | case3 f g rest hunderstood =>
    intro fuel hfuel
    have hallowed := allowed_joined (f :: g :: rest)
    have hlength := length_params_pos hunderstood
    rw [joined_cons] at hallowed hfuel ⊢
    rw [List.length_append] at hfuel
    obtain ⟨fuel, rfl⟩ : ∃ n, fuel = n + 2 := ⟨fuel - 2, by omega⟩
    rw [readFrom_stuck special hplain hnone hunderstood hallowed, taken, if_pos hunderstood]
    exact (List.append_nil _).symm
  | case4 f g rest hunderstood hempty ih =>
    intro fuel hfuel
    obtain ⟨rfl, rfl⟩ := hempty
    obtain ⟨fuel, rfl⟩ := Nat.exists_eq_succ_of_ne_zero (Nat.ne_zero_of_lt hfuel)
    rw [readFrom_value special hplain hnone (sgr_empties p rest), taken, if_neg hunderstood,
      if_pos ⟨rfl, rfl⟩, List.flatMap_cons]
    show Escape.Sgr.reset :: _ = Escape.Sgr.reset :: _
    by_cases hrest : rest = []
    · subst hrest
      exact congrArg _ (readFrom_none special fuel hnone)
    · have hlength : (joined rest).length < fuel := by
        obtain ⟨h, rest, rfl⟩ := List.exists_cons_of_ne_nil hrest
        simp only [joined_cons, List.length_append, List.length_cons] at hfuel
        omega
      rw [readFrom_onTo special hnone hrest (ih hrest fuel hlength)]
      by_cases hlast : rest = [.empty]
      · rw [if_pos hlast, if_pos hlast]
        rfl
      · rw [if_neg hlast, if_neg hlast]
        rfl
  | case5 f g rest hunderstood hempty ih =>
    intro fuel hfuel
    have hallowed := allowed_joined (f :: g :: rest)
    rw [joined_cons] at hallowed hfuel ⊢
    rw [List.length_append, List.length_cons] at hfuel
    obtain ⟨fuel, rfl⟩ := Nat.exists_eq_succ_of_ne_zero (Nat.ne_zero_of_lt hfuel)
    have hafter := readFrom_onTo special hnone (List.cons_ne_nil g rest)
      (ih (List.cons_ne_nil g rest) fuel (by omega))
    rw [readFrom_field special hplain hnone (not_not.mp hunderstood) (Or.inr ⟨_, rfl⟩) hallowed
      (fun hf => ?_), List.tail_cons, hafter, taken, if_neg hunderstood, if_neg hempty]
    · by_cases hlast : g :: rest = [.empty]
      · rw [if_pos hlast, if_pos hlast]
        rfl
      · rw [if_neg hlast, if_neg hlast]
        rfl
    · rw [List.tail_cons]
      exact head_joined (fun hg => hempty ⟨hf, hg⟩) rest

theorem plain_joined (tr : Bool) (fs : List Field) : Plain ⟨tr, 'm', none, joined fs⟩ := by
  have hall := List.all_eq_true.mp (allowed_joined fs)
  rintro (hhead | hhead)
  · exact absurd (hall _ (List.mem_of_mem_head? hhead)) (by decide)
  · exact absurd (hall _ (List.mem_of_mem_head? hhead)) (by decide)

/-- What is read from a sequence is what is read from each of the fields that are `taken`. -/
theorem sgrs_joined (tr : Bool) (hne : fs ≠ []) :
    sgrs (parse special (joined fs) tr) = (taken fs).flatMap Field.values :=
  readFrom_joined special (plain_joined tr fs) rfl fs hne _ (Nat.lt_succ_self _)

theorem sgrs_alone (tr : Bool) (f : Field) : sgrs (parse special f.params tr) = f.values := by
  have halone := sgrs_joined special tr (List.cons_ne_nil f [])
  rw [joined, taken] at halone
  rw [halone]
  exact List.append_nil _

/-! ## What is lost -/

theorem taken_sublist (fs : List Field) : (taken fs).Sublist fs := by
  induction fs using taken.induct with
  | case1 => exact List.Sublist.refl _
  | case2 f => exact List.Sublist.refl _
  | case3 f g rest hunderstood =>
    rw [taken, if_pos hunderstood]
    exact List.Sublist.cons_cons f (List.nil_sublist _)
  | case4 f g rest hunderstood hempty ih =>
    rw [taken, if_neg hunderstood, if_pos hempty]
    refine List.Sublist.cons_cons f (List.Sublist.cons g ?_)
    split
    · exact List.nil_sublist _
    · exact ih
  | case5 f g rest hunderstood hempty ih =>
    rw [taken, if_neg hunderstood, if_neg hempty]
    refine List.Sublist.cons_cons f ?_
    split
    · exact List.nil_sublist _
    · exact ih

theorem values_eq_nil : f.values = [] ↔ f.Unknown := by
  cases f with
  | empty => simp [Field.values, Field.Unknown]
  | underline n => simp [Field.values, Field.Unknown]
  | color ground shade => simp [Field.values, Field.Unknown]
  | code n =>
    by_cases h4 : n.val = 4
    · simp [Field.values, Field.Unknown, Field.Understood, h4]
    · rw [Field.values, if_neg h4, Option.toList_eq_nil_iff, ← Option.not_isSome_iff_eq_none]
      constructor
      · intro hnone
        exact ⟨n, rfl, fun hunderstood => hunderstood.elim h4 hnone⟩
      · rintro ⟨_, -, hunderstood⟩ hsome
        exact hunderstood (Or.inr hsome)

theorem values_taken (hne : fs ≠ []) :
    (taken fs).flatMap Field.values = fs.flatMap Field.values ↔ Separable fs := by
  induction fs using taken.induct with
  | case1 => exact absurd rfl hne
  | case2 f => exact iff_of_true rfl trivial
  | case3 f g rest hunderstood =>
    rw [taken, if_pos hunderstood, Separable, if_neg hunderstood, List.flatMap_cons,
      List.flatMap_cons, List.append_right_inj, eq_comm]
    show (g :: rest).flatMap Field.values = [] ↔ _
    rw [List.flatMap_eq_nil_iff]
    exact forall₂_congr fun h _ => values_eq_nil
  | case4 f g rest hunderstood hempty ih =>
    obtain ⟨rfl, rfl⟩ := hempty
    refine iff_of_false (fun hvalues => ?_) fun hseparable => ?_
    · -- both are read as a reset, and only one reset is there
      have hsub : (if rest = [.empty] then [] else taken rest).Sublist rest := by
        split
        · exact List.nil_sublist _
        · exact taken_sublist rest
      have hle := (hsub.flatMap Field.values).length_le
      rw [taken, if_neg hunderstood, if_pos ⟨rfl, rfl⟩] at hvalues
      have hlength := congrArg List.length hvalues
      have hreset : Field.empty.values.length = 1 := rfl
      simp only [List.flatMap_cons, List.length_append, hreset] at hlength
      omega
    · rw [Separable, if_pos (not_not.mp hunderstood)] at hseparable
      exact hseparable.1 rfl rfl
  | case5 f g rest hunderstood hempty ih =>
    rw [taken, if_neg hunderstood, if_neg hempty, Separable, if_pos (not_not.mp hunderstood),
      List.flatMap_cons, List.flatMap_cons, List.append_right_inj]
    by_cases hlast : g :: rest = [.empty]
    · obtain ⟨rfl, rfl⟩ := List.cons.inj hlast
      rw [if_pos hlast]
      exact iff_of_false (List.cons_ne_nil _ _).symm fun hseparable => hseparable.2.1 rfl rfl
    · rw [if_neg hlast, ih (List.cons_ne_nil g rest)]
      refine ⟨fun hseparable => ⟨fun hf hg => hempty ⟨hf, hg⟩, fun hg hrest => ?_, hseparable⟩,
        fun hseparable => hseparable.2.2⟩
      exact hlast (by rw [hg, hrest])

/-- No field changes how its neighbours are read, and each is read once, for these lists only. -/
theorem fields_apart_iff (tr : Bool) (fs : List Field) : sgrs (parse special (joined fs) tr) =
        fs.flatMap (fun f => sgrs (parse special f.params tr)) ↔ Separable fs := by
  rw [show (fun f => sgrs (parse special f.params tr)) = Field.values from
    funext (sgrs_alone special tr)]
  by_cases hne : fs = []
  · subst hne
    exact iff_of_false (List.cons_ne_nil _ _) id
  · rw [sgrs_joined special tr hne]
    exact values_taken hne

/-- An empty field behind the last `;` is no reset. -/
theorem empty_field_lost :
    sgrs (parse (fun p _ => (p, some .special)) (joined [.code ⟨1, by decide⟩, .empty]) false) =
        [.intensity .bold] ∧ [Field.code ⟨1, by decide⟩, .empty].flatMap
          (fun f => sgrs (parse (fun p _ => (p, some .special)) f.params false)) ≠
        [.intensity .bold] := by
  constructor
  · rfl
  · show [Escape.Sgr.intensity .bold, .reset] ≠ [.intensity .bold]
    decide

end Wakterm.Theorems.Sgr
