import Wakterm.Vtparse.Parser

/-!
# SGR sequences

`CSIParser` for the control `m`: each reading takes some parameters from the front, and one that
fails takes all that is left, as `Unspecified`.
-/

namespace Wakterm.Escape

open Wakterm.Vtparse

inductive Intensity where
  | normal | bold | half
  deriving DecidableEq

inductive Underline where
  | none | single | double | curly | dotted | dashed
  deriving DecidableEq

inductive Blink where
  | none | slow | rapid
  deriving DecidableEq

inductive VerticalAlign where
  | baseLine | superScript | subScript
  deriving DecidableEq

inductive Font where
  | default
  | alternate (n : Nat)
  deriving DecidableEq

inductive AnsiColor where
  | black | maroon | green | olive | navy | purple | teal | silver
  | grey | red | lime | yellow | blue | fuchsia | aqua | white

/-- `AnsiColor as u8`. -/
def AnsiColor.toByte (c : AnsiColor) : UInt8 := UInt8.ofNat c.ctorIdx

inductive ColorSpec where
  | default
  | paletteIndex (idx : UInt8)
  | trueColor (red green blue alpha : UInt8)
  deriving DecidableEq

/-- `ColorSpec::from`. -/
def AnsiColor.spec (c : AnsiColor) : ColorSpec := .paletteIndex c.toByte

/-- `RgbColor::new_8bpc`, which is opaque. -/
def ColorSpec.rgb (red green blue : UInt8) : ColorSpec := .trueColor red green blue 255

inductive Sgr where
  | reset
  | intensity (intensity : Intensity)
  | underline (underline : Underline)
  | underlineColor (color : ColorSpec)
  | blink (blink : Blink)
  | italic (on : Bool)
  | inverse (on : Bool)
  | invisible (on : Bool)
  | strikeThrough (on : Bool)
  | font (font : Font)
  | foreground (color : ColorSpec)
  | background (color : ColorSpec)
  | overline (on : Bool)
  | verticalAlign (align : VerticalAlign)
  deriving DecidableEq

/-- The members of `SgrCode` that take one parameter, and what they are read as. -/
def sgrCodes : List (Int × Sgr) :=
  [(0, .reset), (1, .intensity .bold), (2, .intensity .half), (3, .italic true),
   (5, .blink .slow), (6, .blink .rapid), (7, .inverse true), (8, .invisible true),
   (9, .strikeThrough true), (10, .font .default), (11, .font (.alternate 1)),
   (12, .font (.alternate 2)), (13, .font (.alternate 3)), (14, .font (.alternate 4)),
   (15, .font (.alternate 5)), (16, .font (.alternate 6)), (17, .font (.alternate 7)),
   (18, .font (.alternate 8)), (19, .font (.alternate 9)), (21, .underline .double),
   (22, .intensity .normal), (23, .italic false), (24, .underline .none), (25, .blink .none),
   (27, .inverse false), (28, .invisible false), (29, .strikeThrough false),
   (30, .foreground AnsiColor.black.spec), (31, .foreground AnsiColor.maroon.spec),
   (32, .foreground AnsiColor.green.spec), (33, .foreground AnsiColor.olive.spec),
   (34, .foreground AnsiColor.navy.spec), (35, .foreground AnsiColor.purple.spec),
   (36, .foreground AnsiColor.teal.spec), (37, .foreground AnsiColor.silver.spec),
   (39, .foreground .default),
   (40, .background AnsiColor.black.spec), (41, .background AnsiColor.maroon.spec),
   (42, .background AnsiColor.green.spec), (43, .background AnsiColor.olive.spec),
   (44, .background AnsiColor.navy.spec), (45, .background AnsiColor.purple.spec),
   (46, .background AnsiColor.teal.spec), (47, .background AnsiColor.silver.spec),
   (49, .background .default), (53, .overline true), (55, .overline false),
   (59, .underlineColor .default), (73, .verticalAlign .superScript),
   (74, .verticalAlign .subScript), (75, .verticalAlign .baseLine),
   (90, .foreground AnsiColor.grey.spec), (91, .foreground AnsiColor.red.spec),
   (92, .foreground AnsiColor.lime.spec), (93, .foreground AnsiColor.yellow.spec),
   (94, .foreground AnsiColor.blue.spec), (95, .foreground AnsiColor.fuchsia.spec),
   (96, .foreground AnsiColor.aqua.spec), (97, .foreground AnsiColor.white.spec),
   (100, .background AnsiColor.grey.spec), (101, .background AnsiColor.red.spec),
   (102, .background AnsiColor.lime.spec), (103, .background AnsiColor.yellow.spec),
   (104, .background AnsiColor.blue.spec), (105, .background AnsiColor.fuchsia.spec),
   (106, .background AnsiColor.aqua.spec), (107, .background AnsiColor.white.spec)]

/-- The styles of the form `4:n`. -/
def underlineStyles : List (Int × Underline) :=
  [(0, .none), (1, .single), (2, .double), (3, .curly), (4, .dotted), (5, .dashed)]

inductive CSI where
  | sgr (sgr : Sgr)
  | special
  | unspecified (params : List CsiParam) (parametersTruncated : Bool) (control : Char)

structure CSIParser where
  parametersTruncated : Bool
  control : Char
  params : Option (List CsiParam)
  origParams : List CsiParam

/-- `CsiParam::P(b';')`. -/
def semicolon : CsiParam := .p 0x3b

/-- `CsiParam::P(b':')`. -/
def colon : CsiParam := .p 0x3a

def toU8 : CsiParam → Option UInt8
  | .p _ => none
  | .integer v => if v ≤ 255 then some (UInt8.ofNat (v % 256).toNat) else none

/-- What a pattern asks of one parameter. -/
inductive Slot where
  | any | integer
  | exactly (param : CsiParam)

def Slot.admits : Slot → CsiParam → Bool
  | .any, _ => true
  | .integer, .integer _ => true
  | .integer, .p _ => false
  | .exactly param, other => param = other

/-- Do the parameters match a pattern that ends with `..`? -/
def fits : List Slot → List CsiParam → Bool
  | [], _ => true
  | _ :: _, [] => false
  | slot :: slots, param :: params => slot.admits param && fits slots params

namespace CSIParser

/-- `CSIParser::advance_by`. The rest is not kept if it is empty. -/
def advanceBy (p : CSIParser) (n : Nat) (params : List CsiParam) : CSIParser :=
  let n := if params[n]? = some semicolon then n + 1 else n
  let next := params.drop n
  if next.isEmpty then p else { p with params := some next }

/-- The components of a colour that stand in some places of the parameters. -/
def components (params : List CsiParam) (places : List Nat) : Option (List UInt8) :=
  places.mapM fun i => (params[i]?).bind toU8

/-- A colour of three components, or of four, and the step that it takes. -/
def trueColor (p : CSIParser) (params : List CsiParam) (places : List Nat) (n : Nat) :
    CSIParser × Option ColorSpec :=
  match components params places with
  | some [red, green, blue] => (p.advanceBy n params, some (.rgb red green blue))
  | some [red, green, blue, alpha] =>
    (p.advanceBy n params, some (.trueColor red green blue alpha))
  | _ => (p, none)

/-- The patterns of `parse_sgr_color`, one after the other. -/
def alphaSpace : List Slot :=
  [.any, .exactly colon, .exactly (.integer 6), .exactly colon, .integer, .exactly colon,
   .any, .exactly colon, .any, .exactly colon, .any, .exactly colon, .any]

def alphaEmptySpace : List Slot :=
  [.any, .exactly colon, .exactly (.integer 6), .exactly colon, .exactly colon,
   .any, .exactly colon, .any, .exactly colon, .any, .exactly colon, .any]

def alpha : List Slot :=
  [.any, .exactly colon, .exactly (.integer 6), .exactly colon,
   .any, .exactly colon, .any, .exactly colon, .any, .exactly colon, .any]

def rgbSpace : List Slot :=
  [.any, .exactly colon, .exactly (.integer 2), .exactly colon, .integer, .exactly colon,
   .any, .exactly colon, .any, .exactly colon, .any]

def rgbEmptySpace : List Slot :=
  [.any, .exactly colon, .exactly (.integer 2), .exactly colon, .exactly colon,
   .any, .exactly colon, .any, .exactly colon, .any]

def rgb (separator : CsiParam) : List Slot :=
  [.any, .exactly separator, .exactly (.integer 2), .exactly separator,
   .any, .exactly separator, .any, .exactly separator, .any]

def indexed (separator : CsiParam) : List Slot :=
  [.any, .exactly separator, .exactly (.integer 5), .exactly separator, .any]

def parseSgrColor (p : CSIParser) (params : List CsiParam) : CSIParser × Option ColorSpec :=
  -- an optional alpha channel, in the form with colons only
  if fits alphaSpace params then p.trueColor params [6, 8, 10, 12] 13
  else if fits alphaEmptySpace params then p.trueColor params [5, 7, 9, 11] 12
  else if fits alpha params then p.trueColor params [4, 6, 8, 10] 11
  else if fits rgbSpace params then p.trueColor params [6, 8, 10] 11
  else if fits rgbEmptySpace params then p.trueColor params [5, 7, 9] 10
  else if fits (rgb semicolon) params || fits (rgb colon) params then
    p.trueColor params [4, 6, 8] 9
  else if fits (indexed semicolon) params || fits (indexed colon) params then
    match components params [4] with
    | some [idx] => (p.advanceBy 5 params, some (.paletteIndex idx))
    | _ => (p, none)
  else (p, none)

def underline (p : CSIParser) (params : List CsiParam) : CSIParser × Option Sgr :=
  let style : Option Underline :=
    if params[1]? = some colon then
      match params[2]? with
      | some (CsiParam.integer n) => underlineStyles.lookup n
      | _ => none
    else none
  match style with
  | some style => (p.advanceBy 3 params, some (.underline style))
  | none => (p.advanceBy 1 params, some (.underline .single))

/-- The parameters that an SGR sequence can have. -/
def allowed : CsiParam → Bool
  | .p byte => byte = 0x3b || byte = 0x3a || byte = 0x3f
  | .integer _ => true

def sgr (p : CSIParser) (params : List CsiParam) : CSIParser × Option Sgr :=
  match params with
  | [] => (p, some .reset)
  | first :: _ =>
    if params.all allowed then
      match first with
      | .p byte =>
        -- beginning with an empty item is a reset
        if byte = 0x3b then (p.advanceBy 1 params, some .reset) else (p, none)
      | .integer code =>
        if code = 4 then p.underline params
        else if code = 38 then (p.parseSgrColor params).map id (·.map .foreground)
        else if code = 48 then (p.parseSgrColor params).map id (·.map .background)
        else if code = 58 then (p.parseSgrColor params).map id (·.map .underlineColor)
        else
          match sgrCodes.lookup code with
          | some sgr => (p.advanceBy 1 params, some sgr)
          | none => (p, none)
    else (p, none)

variable (special : CSIParser → List CsiParam → CSIParser × Option CSI)

def parseNext (p : CSIParser) (params : List CsiParam) : CSIParser × Option CSI :=
  if p.origParams.head? = some (.p 0x3c) ∨ p.origParams.head? = some (.p 0x3e) then
    special p params
  else (p.sgr params).map id (·.map .sgr)

def next (p : CSIParser) : Option (CSI × CSIParser) :=
  match p.params with
  | none => none
  | some params =>
    match { p with params := none }.parseNext special params with
    | (p, some csi) => some (csi, p)
    | (p, none) => some (.unspecified params p.parametersTruncated p.control, p)

/-- The items of the iterator, as many as there is fuel for. -/
def items : Nat → CSIParser → List CSI
  | 0, _ => []
  | fuel + 1, p =>
    match p.next special with
    | none => []
    | some (csi, p) => csi :: items fuel p

/-- `CSI::parse`, collected. An SGR item that others follow takes a parameter at least. -/
def parse (params : List CsiParam) (parametersTruncated : Bool) : List CSI :=
  items special (params.length + 1) ⟨parametersTruncated, 'm', some params, params⟩

end CSIParser

/-- The values among the items of a sequence. -/
def sgrs (items : List CSI) : List Sgr :=
  items.filterMap fun
    | .sgr sgr => some sgr
    | _ => none

end Wakterm.Escape
