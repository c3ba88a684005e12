import Wakterm.Escape.Apc
import Wakterm.Escape.Sixel
import Wakterm.Escape.TmuxCc
import Wakterm.Vtparse.Parser

/-!
# The parser of escape sequences

`Parser` feeds the bytes to the state machine and makes the actions of a terminal of what this tells
the `Performer`.
-/

namespace Wakterm.Escape

open Wakterm.Machine Wakterm.Vtparse

/-- The bytes of `ControlCode`. -/
def isControlCode (byte : UInt8) : Bool :=
  byte ≤ 0x1f || (0x82 ≤ byte && byte ≤ 0x98) || (0x9a ≤ byte && byte ≤ 0x9f)

structure ControlCode where
  code : UInt8
  known : isControlCode code = true
deriving DecidableEq

def ControlCode.fromU8 (byte : UInt8) : Option ControlCode :=
  if h : isControlCode byte = true then some ⟨byte, h⟩ else none

structure ShortDeviceControl where
  params : List Int
  intermediates : List UInt8
  byte : UInt8
  data : List UInt8
deriving DecidableEq

structure EnterDeviceControlMode where
  byte : UInt8
  params : List Int
  intermediates : List UInt8
  ignoredExtraIntermediates : Bool
deriving DecidableEq

inductive DeviceControlMode (τ : Type)
  | enter (mode : EnterDeviceControlMode)
  | exit
  | data (byte : UInt8)
  | shortDeviceControl (control : ShortDeviceControl)
  | tmuxEvents (events : List (TmuxEvent τ))
deriving DecidableEq

/-- `Action`, with the commands of the types that the decoders give. -/
inductive Action (γ ω ε τ : Type)
  | print (c : Char)
  | control (code : ControlCode)
  | deviceControl (mode : DeviceControlMode τ)
  | operatingSystemCommand (osc : ω)
  | csi (csi : γ)
  | esc (esc : ε)
  | sixel (sixel : Sixel)
  | xtGetTcap (names : List Text)
  | kittyImage (image : KittyImage)
deriving DecidableEq

/-- What reads single sequences: `CSI::parse`, `OperatingSystemCommand::parse`, `Esc::parse`,
`tmux_cc::parse_line` and base64. -/
structure Decoders (γ ω ε τ : Type) where
  csi : List CsiParam → Bool → UInt8 → List γ
  osc : List (List UInt8) → ω
  esc : Option UInt8 → UInt8 → ε
  tmuxLine : List UInt8 → Option (TmuxEvent τ)
  base64 : Base64

def maxShortDcsBytes : Nat := 64 * 1024
def maxTcapBytes : Nat := 64 * 1024

/-- The value of a hexadecimal digit. -/
def hexDigit (byte : UInt8) : Option Nat :=
  if 0x30 ≤ byte ∧ byte ≤ 0x39 then some (byte.toNat - 0x30)
  else if 0x41 ≤ byte ∧ byte ≤ 0x46 then some (byte.toNat - 0x37)
  else if 0x61 ≤ byte ∧ byte ≤ 0x66 then some (byte.toNat - 0x57)
  else none

/-- `hex::decode`. -/
def hexDecode : List UInt8 → Option (List UInt8)
  | [] => some []
  | [_] => none
  | high :: low :: bytes => do
      let high ← hexDigit high
      let low ← hexDigit low
      let rest ← hexDecode bytes
      return UInt8.ofNat (16 * high + low) :: rest

structure GetTcapBuilder where
  current : List UInt8
  names : List Text
  bytesSeen : Nat
  truncated : Bool
deriving DecidableEq

namespace GetTcapBuilder

def new : GetTcapBuilder := ⟨[], [], 0, false⟩

def flush (b : GetTcapBuilder) : GetTcapBuilder :=
  let decoded := match hexDecode b.current with
    | some s => fromUtf8Lossy s
    | none => fromUtf8Lossy b.current
  { b with names := b.names ++ [decoded], current := [] }

def push (b : GetTcapBuilder) (data : UInt8) : GetTcapBuilder :=
  if maxTcapBytes ≤ b.bytesSeen then { b with truncated := true }
  else
    let b := { b with bytesSeen := b.bytesSeen + 1 }
    if data = 0x3b then b.flush else { b with current := b.current ++ [data] }

def finish (b : GetTcapBuilder) : Option (List Text) :=
  if b.truncated then none else some b.flush.names

end GetTcapBuilder

structure ParseState where
  sixel : Option SixelBuilder
  dcs : Option ShortDeviceControl
  dcsTruncated : Bool
  getTcap : Option GetTcapBuilder
  tmuxState : Option TmuxParser
deriving DecidableEq

def ParseState.new : ParseState := ⟨none, none, false, none, none⟩

def isShortDcs (intermediates : List UInt8) (byte : UInt8) : Bool :=
  intermediates == [0x24] && byte == 0x71

namespace Performer

variable {γ ω ε τ : Type} (d : Decoders γ ω ε τ)

def dcsHook (s : ParseState) (byte : UInt8) (params : List Int) (intermediates : List UInt8)
    (ignoredExtraIntermediates : Bool) : ParseState × List (Action γ ω ε τ) :=
  let s := { s with sixel := none, getTcap := none, dcs := none, dcsTruncated := false }
  if byte = 0x71 ∧ intermediates = [] ∧ !ignoredExtraIntermediates then
    ({ s with sixel := some (.new params) }, [])
  else if byte = 0x71 ∧ intermediates = [0x2b] then
    ({ s with getTcap := some .new }, [])
  else if !ignoredExtraIntermediates ∧ isShortDcs intermediates byte then
    ({ s with dcs := some ⟨params, intermediates, byte, []⟩ }, [])
  else
    let s := if byte = 0x70 ∧ params = [1000] then { s with tmuxState := some .new } else s
    (s, [.deviceControl (.enter ⟨byte, params, intermediates, ignoredExtraIntermediates⟩)])

def dcsPut (s : ParseState) (data : UInt8) : ParseState × List (Action γ ω ε τ) :=
  match s.dcs, s.sixel, s.getTcap, s.tmuxState with
  | some dcs, _, _, _ =>
    if dcs.data.length < maxShortDcsBytes then
      ({ s with dcs := some { dcs with data := dcs.data ++ [data] } }, [])
    else ({ s with dcsTruncated := true }, [])
  | none, some sixel, _, _ => ({ s with sixel := some (sixel.push data) }, [])
  | none, none, some tcap, _ => ({ s with getTcap := some (tcap.push data) }, [])
  | none, none, none, some tmux =>
    match tmux.advanceByte d.tmuxLine data with
    | .ok (tmux, some event) =>
      ({ s with tmuxState := some tmux }, [.deviceControl (.tmuxEvents [event])])
    | .ok (tmux, none) => ({ s with tmuxState := some tmux }, [])
    | .error _ => ({ s with tmuxState := none }, [])
  | none, none, none, none => (s, [.deviceControl (.data data)])

def dcsUnhook (s : ParseState) : ParseState × List (Action γ ω ε τ) :=
  match s.dcs, s.sixel, s.getTcap with
  | some dcs, _, _ =>
    ({ s with dcs := none, dcsTruncated := false },
      if s.dcsTruncated then [] else [.deviceControl (.shortDeviceControl dcs)])
  | none, some sixel, _ => ({ s with sixel := none }, (sixel.finish.map Action.sixel).toList)
  | none, none, some tcap => ({ s with getTcap := none }, (tcap.finish.map Action.xtGetTcap).toList)
  | none, none, none => (s, [.deviceControl .exit])

/-- What the `Performer` makes of what it is told. -/
def perform (s : ParseState) : VTAction → ParseState × List (Action γ ω ε τ)
  | .print c => (s, [.print c])
  | .executeC0orC1 byte => (s, ((ControlCode.fromU8 byte).map Action.control).toList)
  | .apcDispatch data => (s, ((KittyImage.parseApc d.base64 data).map Action.kittyImage).toList)
  | .dcsHook params intermediates ignored byte => dcsHook s byte params intermediates ignored
  | .dcsPut data => dcsPut d s data
  | .dcsUnhook => dcsUnhook s
  | .oscDispatch osc => (s, [.operatingSystemCommand (d.osc osc)])
  | .csiDispatch params truncated byte => (s, (d.csi params truncated byte).map Action.csi)
  | .escDispatch _ intermediates _ byte =>
    (s, [.esc (d.esc (if intermediates.length = 1 then intermediates.head? else none) byte)])

/-- One after the other. -/
def performAll (s : ParseState) : List VTAction → ParseState × List (Action γ ω ε τ)
  | [] => (s, [])
  | action :: actions =>
    let (s, out) := perform d s action
    let (s, out') := performAll s actions
    (s, out ++ out')

end Performer

structure Parser (σ : Type) where
  stateMachine : VTParser σ
  state : ParseState

namespace Parser

variable {σ γ ω ε τ : Type} (utf8 : Utf8Parser σ) (d : Decoders γ ω ε τ)

def new : Parser σ := ⟨.new utf8, .new⟩

/-- The bytes go through the state machine to the `Performer`. -/
def throughMachine (p : Parser σ) (bytes : List UInt8) :
    Except Fault (Parser σ × List (Action γ ω ε τ)) := do
  let (machine, told) ← p.stateMachine.parse utf8 bytes
  let (state, actions) := Performer.performAll d p.state told
  .ok (⟨machine, state⟩, actions)

/-- `Parser::parse`, with the actions that are given to the callback. -/
def parse (p : Parser σ) (bytes : List UInt8) :
    Except Fault (Parser σ × List (Action γ ω ε τ)) :=
  match p.state.tmuxState with
  | some tmux =>
    match tmux.advanceBytes d.tmuxLine bytes with
    | .ok (tmux, events) =>
      .ok ({ p with state := { p.state with tmuxState := some tmux } },
        [.deviceControl (.tmuxEvents events)])
    | .error unparsed =>
      throughMachine utf8 d { p with state := { p.state with tmuxState := none } }
        (encodeText unparsed)
  | none => throughMachine utf8 d p bytes

end Parser

end Wakterm.Escape
