

/-!
# The tables of the escape sequence parser

`State` and `Action` of `vtparse`, and what each state does on a byte: the action, and the state
that comes next.
-/

namespace Wakterm.Vtparse

inductive Action where
  | none | ignore | print | execute | clear | collect | param | escDispatch | csiDispatch | hook
  | put | unhook | oscStart | oscPut | oscEnd | utf8 | apcStart | apcPut | apcEnd
  deriving DecidableEq

/-- `State`. The last two are special states without a table. -/
inductive State where
  | ground | escape | escapeIntermediate | csiEntry | csiParam | csiIntermediate | csiIgnore
  | dcsEntry | dcsParam | dcsIntermediate | dcsPassthrough | dcsIgnore | oscString | sosPmString
  | apcString | anywhere | utf8Sequence
  deriving DecidableEq

/-- A range of bytes, with both its ends. -/
def within (first last i : Nat) : Bool := first ≤ i && i ≤ last

/-- The C0 controls that are no matter of `anywhere_or`. -/
def control (i : Nat) : Bool := within 0x00 0x17 i || i == 0x19 || within 0x1c 0x1f i

/-- The bytes that a sequence of several bytes begins with in UTF-8. -/
def lead (i : Nat) : Bool := within 0xc2 0xdf i || within 0xe0 0xef i || within 0xf0 0xf4 i

def anywhereOr (i : Nat) (state : State) : Action × State :=
  if i == 0x18 || i == 0x1a then (.execute, .ground)
  else if within 0x80 0x8f i || within 0x91 0x97 i || i == 0x99 || i == 0x9a then (.execute, .ground)
  else if i == 0x9c then (.none, .ground)
  else if i == 0x1b then (.none, .escape)
  else if i == 0x98 || i == 0x9e || i == 0x9f then (.none, .sosPmString)
  else if i == 0x90 then (.none, .dcsEntry)
  else if i == 0x9d then (.none, .oscString)
  else if i == 0x9b then (.none, .csiEntry)
  else (.none, state)

def ground (i : Nat) : Action × State :=
  if control i then (.execute, .ground)
  else if within 0x20 0x7f i then (.print, .ground)
  else if lead i then (.utf8, .utf8Sequence)
  else anywhereOr i .ground

def escape (i : Nat) : Action × State :=
  if control i then (.execute, .escape)
  else if i == 0x7f then (.ignore, .escape)
  else if within 0x20 0x2f i then (.collect, .escapeIntermediate)
  else if within 0x30 0x4f i || within 0x51 0x57 i || i == 0x59 || i == 0x5a || i == 0x5c ||
    within 0x60 0x7e i then (.escDispatch, .ground)
  else if i == 0x5b then (.none, .csiEntry)
  else if i == 0x5d then (.none, .oscString)
  else if i == 0x50 then (.none, .dcsEntry)
  else if i == 0x58 || i == 0x5e then (.none, .sosPmString)
  else if i == 0x5f then (.none, .apcString)
  else anywhereOr i .escape

def escapeIntermediate (i : Nat) : Action × State :=
  if control i then (.execute, .escapeIntermediate)
  else if within 0x20 0x2f i then (.collect, .escapeIntermediate)
  else if i == 0x7f then (.ignore, .escapeIntermediate)
  else if within 0x30 0x7e i then (.escDispatch, .ground)
  else anywhereOr i .escapeIntermediate

def csiEntry (i : Nat) : Action × State :=
  if control i then (.execute, .csiEntry)
  else if i == 0x7f then (.ignore, .csiEntry)
  else if within 0x20 0x2f i then (.collect, .csiIntermediate)
  else if i == 0x3a then (.none, .csiIgnore)
  else if within 0x30 0x39 i || i == 0x3b then (.param, .csiParam)
  else if within 0x3c 0x3f i then (.collect, .csiParam)
  else if within 0x40 0x7e i then (.csiDispatch, .ground)
  else anywhereOr i .csiEntry

def csiParam (i : Nat) : Action × State :=
  if control i then (.execute, .csiParam)
  else if within 0x30 0x3b i then (.param, .csiParam)
  else if i == 0x7f then (.ignore, .csiParam)
  else if within 0x3c 0x3f i then (.none, .csiIgnore)
  else if within 0x20 0x2f i then (.collect, .csiIntermediate)
  else if within 0x40 0x7e i then (.csiDispatch, .ground)
  else anywhereOr i .csiParam

def csiIntermediate (i : Nat) : Action × State :=
  if control i then (.execute, .csiIntermediate)
  else if within 0x20 0x2f i then (.collect, .csiIntermediate)
  else if i == 0x7f then (.ignore, .csiIntermediate)
  else if within 0x30 0x3f i then (.none, .csiIgnore)
  else if within 0x40 0x7e i then (.csiDispatch, .ground)
  else anywhereOr i .csiIntermediate

def csiIgnore (i : Nat) : Action × State :=
  if control i then (.execute, .csiIgnore)
  else if within 0x20 0x3f i || i == 0x7f then (.ignore, .csiIgnore)
  else if within 0x40 0x7e i then (.none, .ground)
  else anywhereOr i .csiIgnore

def dcsEntry (i : Nat) : Action × State :=
  if control i || i == 0x7f then (.ignore, .dcsEntry)
  else if i == 0x3a then (.none, .dcsIgnore)
  else if within 0x20 0x2f i then (.collect, .dcsIntermediate)
  else if within 0x30 0x39 i || i == 0x3b then (.param, .dcsParam)
  else if within 0x3c 0x3f i then (.collect, .dcsParam)
  else if within 0x40 0x7e i then (.none, .dcsPassthrough)
  else anywhereOr i .dcsEntry

def dcsParam (i : Nat) : Action × State :=
  if control i then (.ignore, .dcsParam)
  else if within 0x30 0x39 i || i == 0x3b then (.param, .dcsParam)
  else if i == 0x7f then (.ignore, .dcsParam)
  else if i == 0x3a || within 0x3c 0x3f i then (.none, .dcsIgnore)
  else if within 0x20 0x2f i then (.collect, .dcsIntermediate)
  else if within 0x40 0x7e i then (.none, .dcsPassthrough)
  else anywhereOr i .dcsParam

def dcsIntermediate (i : Nat) : Action × State :=
  if control i then (.ignore, .dcsIntermediate)
  else if within 0x20 0x2f i then (.collect, .dcsIntermediate)
  else if i == 0x7f then (.ignore, .dcsIntermediate)
  else if within 0x30 0x3f i then (.none, .dcsIgnore)
  else if within 0x40 0x7e i then (.none, .dcsPassthrough)
  else anywhereOr i .dcsIntermediate

def dcsPassthrough (i : Nat) : Action × State :=
  if control i || within 0x20 0x7e i then (.put, .dcsPassthrough)
  else if i == 0x7f then (.ignore, .dcsPassthrough)
  else anywhereOr i .dcsPassthrough

def dcsIgnore (i : Nat) : Action × State :=
  if control i || within 0x20 0x7f i then (.ignore, .dcsIgnore)
  else anywhereOr i .dcsIgnore

/-- A BEL ends the string as well as ST does. -/
def oscString (i : Nat) : Action × State :=
  if i == 0x07 then (.ignore, .ground)
  else if control i then (.ignore, .oscString)
  else if within 0x20 0x7f i then (.oscPut, .oscString)
  else if lead i then (.utf8, .utf8Sequence)
  else anywhereOr i .oscString

def sosPmString (i : Nat) : Action × State :=
  if control i || within 0x20 0x7f i then (.ignore, .sosPmString)
  else anywhereOr i .sosPmString

def apcString (i : Nat) : Action × State :=
  if control i || within 0x20 0x7f i then (.apcPut, .apcString)
  else anywhereOr i .apcString

/-- `TRANSITIONS`, with the table of a state, if it has one. -/
def transitions : State → Option (Nat → Action × State)
  | .ground => some ground
  | .escape => some escape
  | .escapeIntermediate => some escapeIntermediate
  | .csiEntry => some csiEntry
  | .csiParam => some csiParam
  | .csiIntermediate => some csiIntermediate
  | .csiIgnore => some csiIgnore
  | .dcsEntry => some dcsEntry
  | .dcsParam => some dcsParam
  | .dcsIntermediate => some dcsIntermediate
  | .dcsPassthrough => some dcsPassthrough
  | .dcsIgnore => some dcsIgnore
  | .oscString => some oscString
  | .sosPmString => some sosPmString
  | .apcString => some apcString
  | .anywhere | .utf8Sequence => Option.none

/-- `ENTRY`. -/
def lookupEntry : State → Action
  | .escape | .csiEntry | .dcsEntry => .clear
  | .dcsPassthrough => .hook
  | .oscString => .oscStart
  | .apcString => .apcStart
  | _ => .none

/-- `EXIT`. -/
def lookupExit : State → Action
  | .dcsPassthrough => .unhook
  | .oscString => .oscEnd
  | .apcString => .apcEnd
  | _ => .none

end Wakterm.Vtparse
