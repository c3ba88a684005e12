import Mathlib.Algebra.Group.Int.Defs
import Mathlib.Data.Int.Notation
import Wakterm.Machine.Transducer
import Wakterm.Vtparse.Transitions

/-!
# The escape sequence parser

`VTParser` of `vtparse`, fed byte by byte. What it tells its `VTActor` is the list of its actions.
What would panic, or read out of bounds, is a fault.
-/

namespace Wakterm.Vtparse

open Wakterm.Machine

/-- What must not happen: a table or an array is read out of bounds, what is `unreachable!` is
reached, a number falls below zero, or a decoded character begins a sequence of UTF-8 again. -/
inductive Fault where
  | table | index | unreachable | arithmetic | nested
  deriving DecidableEq

/-- What `utf8parse` tells its `Receiver`. -/
inductive Utf8Report where
  | codepoint (c : Char)
  | invalidSequence

/-- `utf8parse::Parser`: its state, and what it reports of a byte. -/
structure Utf8Parser (σ : Type) where
  new : σ
  advance : σ → UInt8 → σ × Option Utf8Report

/-- The `Decoder` of `next_utf8`. -/
def Utf8Report.decoded : Utf8Report → Char
  | .codepoint c => c
  | .invalidSequence => '\uFFFD'

inductive CsiParam where
  | integer (i : Int)
  | p (byte : UInt8)
  deriving DecidableEq

inductive VTAction where
  | print (c : Char)
  | executeC0orC1 (control : UInt8)
  | dcsHook (params : List Int) (intermediates : List UInt8) (ignoredExcessIntermediates : Bool)
      (byte : UInt8)
  | dcsPut (byte : UInt8)
  | dcsUnhook
  | escDispatch (params : List Int) (intermediates : List UInt8) (ignoredExcessIntermediates : Bool)
      (byte : UInt8)
  | csiDispatch (params : List CsiParam) (parametersTruncated : Bool) (byte : UInt8)
  | oscDispatch (params : List (List UInt8))
  | apcDispatch (data : List UInt8)
  deriving DecidableEq

def maxIntermediates : Nat := 2
def maxOsc : Nat := 64
def maxParams : Nat := 256
def maxOscBytes : Nat := 1024 * 1024
def maxApcBytes : Nat := 4 * 1024 * 1024

/-- An `i64` that an operation saturates at. -/
def saturate (i : Int) : Int := max (-2 ^ 63) (min i (2 ^ 63 - 1))

/-- `array[i] = a`. -/
def store {α : Type} (array : List α) (i : Nat) (a : α) : Except Fault (List α) :=
  if i < array.length then .ok (array.set i a) else .error .index

/-- `&array[0..n]`. -/
def slice {α : Type} (array : List α) (n : Nat) : Except Fault (List α) :=
  if n ≤ array.length then .ok (array.take n) else .error .index

/-! ## OSC strings -/

structure OscState where
  buffer : List UInt8
  paramIndices : List Nat
  numParams : Nat
  full : Bool
  inputBytes : Nat
  dataTruncated : Bool

namespace OscState

/-- The state of a new parser. -/
def new : OscState := ⟨[], List.replicate maxOsc 0, 0, false, 0, false⟩

/-- `Action::OscStart`. -/
def start (osc : OscState) : OscState :=
  { osc with buffer := [], numParams := 0, full := false, inputBytes := 0, dataTruncated := false }

def put (osc : OscState) (param : Char) : Except Fault OscState :=
  let encoded := String.utf8EncodeChar param
  if maxOscBytes < osc.inputBytes + encoded.length then .ok { osc with dataTruncated := true }
  else
    let osc := { osc with inputBytes := osc.inputBytes + encoded.length }
    if param = ';' then
      if osc.numParams = maxOsc then .ok { osc with full := true }
      else do
        let indices ← store osc.paramIndices (osc.numParams - 1) osc.buffer.length
        .ok { osc with paramIndices := indices, numParams := osc.numParams + 1 }
    else if !osc.full then
      .ok { osc with
        buffer := osc.buffer ++ encoded
        numParams := if osc.numParams = 0 then 1 else osc.numParams }
    else .ok osc

/-- The loop of `Action::OscEnd`: the buffer is split at the offsets, one after the other. -/
def splitParams : List Nat → Nat → List UInt8 → Except Fault (List (List UInt8))
  | [], _, slice => .ok [slice]
  | index :: indices, offset, slice =>
    if index < offset then .error .arithmetic
    else if slice.length < index - offset then .error .index
    else do
      let params ← splitParams indices index (slice.drop (index - offset))
      .ok (slice.take (index - offset) :: params)

/-- `Action::OscEnd`. A string that is too long is dropped as a whole. -/
def finish (osc : OscState) : Except Fault (List VTAction) :=
  if osc.dataTruncated then .ok []
  else if osc.numParams = 0 then .ok [.oscDispatch []]
  else do
    let limit := min osc.numParams maxOsc
    let indices ← slice osc.paramIndices (limit - 1)
    let params ← splitParams indices 0 osc.buffer
    .ok [.oscDispatch params]

end OscState

/-! ## The parser -/

structure VTParser (σ : Type) where
  state : State
  intermediates : List UInt8
  numIntermediates : Nat
  ignoredExcessIntermediates : Bool
  osc : OscState
  params : List CsiParam
  numParams : Nat
  currentParam : Option CsiParam
  paramsFull : Bool
  apcData : List UInt8
  apcDataTruncated : Bool
  utf8Parser : σ
  utf8ReturnState : State

/-- The values of `as_integer_params`: a number is stored at the place it is at, counted by the
semicolons before it. -/
def integerParams : List CsiParam → Nat → List Int → Except Fault (List Int)
  | [], _, res => .ok res
  | .integer value :: params, i, res => do integerParams params i (← store res i value)
  | .p byte :: params, i, res => integerParams params (if byte = 0x3b then i + 1 else i) res

namespace VTParser

variable {σ : Type}

def new (utf8 : Utf8Parser σ) : VTParser σ where
  state := .ground
  intermediates := List.replicate maxIntermediates 0
  numIntermediates := 0
  ignoredExcessIntermediates := false
  osc := .new
  params := List.replicate maxParams (.integer 0)
  numParams := 0
  currentParam := none
  paramsFull := false
  apcData := []
  apcDataTruncated := false
  utf8Parser := utf8.new
  utf8ReturnState := .ground

/-- `VTParser::as_integer_params`, up to the number of parameters. -/
def asIntegerParams (p : VTParser σ) : Except Fault (List Int) := do
  let params ← slice p.params p.numParams
  slice (← integerParams params 0 (List.replicate maxParams 0)) p.numParams

def pushParam (p : VTParser σ) (param : CsiParam) : Except Fault (VTParser σ) := do
  let params ← store p.params p.numParams param
  .ok { p with params := params, numParams := p.numParams + 1 }

def finishParam (p : VTParser σ) : Except Fault (VTParser σ) :=
  match p.currentParam with
  | none => .ok p
  | some val =>
    let p := { p with currentParam := none }
    if p.numParams < maxParams then p.pushParam val else .ok p

/-- The loop of `promote_intermediates_to_params`. -/
def promote : List UInt8 → VTParser σ → Except Fault (VTParser σ)
  | [], p => .ok p
  | byte :: bytes, p =>
    if maxParams ≤ p.numParams then .ok { p with ignoredExcessIntermediates := true }
    else do promote bytes (← p.pushParam (.p byte))

def promoteIntermediatesToParams (p : VTParser σ) : Except Fault (VTParser σ) :=
  if 0 < p.numIntermediates then do
    let p ← promote (← slice p.intermediates p.numIntermediates) p
    .ok { p with numIntermediates := 0 }
  else .ok p

def clear (p : VTParser σ) : VTParser σ :=
  { p with
    numIntermediates := 0
    ignoredExcessIntermediates := false
    osc := p.osc.start
    numParams := 0
    paramsFull := false
    currentParam := none
    apcData := []
    apcDataTruncated := false }

def collect (p : VTParser σ) (byte : UInt8) : Except Fault (VTParser σ) :=
  if p.numIntermediates < maxIntermediates then do
    let intermediates ← store p.intermediates p.numIntermediates byte
    .ok { p with intermediates := intermediates, numIntermediates := p.numIntermediates + 1 }
  else .ok { p with ignoredExcessIntermediates := true }

/-- `Action::Param`: a digit, or a character between numbers. -/
def param (p : VTParser σ) (byte : UInt8) : Except Fault (VTParser σ) :=
  if p.paramsFull then .ok p
  else do
    let p ← p.promoteIntermediatesToParams
    if 0x30 ≤ byte ∧ byte ≤ 0x39 then
      let digit : Int := (byte - 0x30).toNat
      match p.currentParam with
      | some (.integer i) =>
        .ok { p with currentParam := some (.integer (saturate (saturate (i * 10) + digit))) }
      | some (.p _) => .error .unreachable
      | none => .ok { p with currentParam := some (.integer digit) }
    else
      let p ← p.finishParam
      if maxParams < p.numParams + 1 then .ok { p with paramsFull := true }
      else p.pushParam (.p byte)

/-- `VTParser::action`, but for the action that decodes UTF-8. -/
def action (p : VTParser σ) (action : Action) (byte : UInt8) :
    Except Fault (VTParser σ × List VTAction) :=
  match action with
  | .none | .ignore => .ok (p, [])
  | .print => .ok (p, [.print (Char.ofNat byte.toNat)])
  | .execute => .ok (p, [.executeC0orC1 byte])
  | .clear => .ok (p.clear, [])
  | .collect => do .ok (← p.collect byte, [])
  | .param => do .ok (← p.param byte, [])
  | .hook => do
      let p ← p.finishParam
      let params ← p.asIntegerParams
      let intermediates ← slice p.intermediates p.numIntermediates
      .ok (p, [.dcsHook params intermediates p.ignoredExcessIntermediates byte])
  | .put => .ok (p, [.dcsPut byte])
  | .escDispatch => do
      let p ← p.finishParam
      let params ← p.asIntegerParams
      let intermediates ← slice p.intermediates p.numIntermediates
      .ok (p, [.escDispatch params intermediates p.ignoredExcessIntermediates byte])
  | .csiDispatch => do
      let p ← p.finishParam
      let p ← p.promoteIntermediatesToParams
      let params ← slice p.params p.numParams
      .ok (p, [.csiDispatch params p.ignoredExcessIntermediates byte])
  | .unhook => .ok (p, [.dcsUnhook])
  | .oscStart => .ok ({ p with osc := p.osc.start }, [])
  | .oscPut => do .ok ({ p with osc := ← p.osc.put (Char.ofNat byte.toNat) }, [])
  | .oscEnd => do .ok (p, ← p.osc.finish)
  | .apcStart => .ok ({ p with apcData := [], apcDataTruncated := false }, [])
  | .apcPut =>
    if p.apcData.length < maxApcBytes then .ok ({ p with apcData := p.apcData ++ [byte] }, [])
    else .ok ({ p with apcDataTruncated := true }, [])
  | .apcEnd =>
    if p.apcDataTruncated then .ok ({ p with apcData := [] }, [])
    else .ok ({ p with apcData := [] }, [.apcDispatch p.apcData])
  | .utf8 => .error .nested

def lookup (state : State) (byte : UInt8) : Except Fault (Action × State) :=
  match transitions state with
  | some table => .ok (table byte.toNat)
  | none => .error .table

/-- A decoded character is accumulated by the state that it was begun in. -/
def accumulate (p : VTParser σ) (c : Char) : Except Fault (VTParser σ × List VTAction) :=
  match p.utf8ReturnState with
  | .ground => .ok ({ p with state := .ground }, [.print c])
  | .oscString => do .ok ({ p with osc := ← p.osc.put c, state := .oscString }, [])
  | _ => .error .unreachable

/-- What `next_utf8` does with a decoded character. A C1 control that was encoded is taken for the
control itself. -/
def decoded (p : VTParser σ) (c : Char) : Except Fault (VTParser σ × List VTAction) :=
  if c.toNat ≤ 0xff then do
    let byte := UInt8.ofNat c.toNat
    let (act, state) ← lookup p.utf8ReturnState byte
    if act = .execute ∨ (state ≠ p.utf8ReturnState ∧ state ≠ .utf8Sequence) then
      andThen (p.action (lookupExit p.utf8ReturnState) 0) fun p =>
        andThen (p.action act byte) fun p =>
        andThen (p.action (lookupEntry state) 0) fun p =>
        .ok ({ p with utf8ReturnState := p.state, state := state }, [])
    else p.accumulate c
  else p.accumulate c

def nextUtf8 (utf8 : Utf8Parser σ) (p : VTParser σ) (byte : UInt8) :
    Except Fault (VTParser σ × List VTAction) :=
  let (utf8Parser, report) := utf8.advance p.utf8Parser byte
  let p := { p with utf8Parser := utf8Parser }
  match report with
  | none => .ok (p, [])
  | some report => p.decoded report.decoded

def parseByte (utf8 : Utf8Parser σ) (p : VTParser σ) (byte : UInt8) :
    Except Fault (VTParser σ × List VTAction) :=
  if p.state = .utf8Sequence then p.nextUtf8 utf8 byte
  else do
    let (act, state) ← lookup p.state byte
    let act := fun (p : VTParser σ) =>
      if act = .utf8 then p.nextUtf8 utf8 byte else p.action act byte
    if state ≠ p.state then
      let leave := if state ≠ .utf8Sequence then p.action (lookupExit p.state) 0 else .ok (p, [])
      andThen leave fun p =>
        andThen (act p) fun p =>
        andThen (p.action (lookupEntry state) byte) fun p =>
        .ok ({ p with utf8ReturnState := p.state, state := state }, [])
    else act p

def parse (utf8 : Utf8Parser σ) (p : VTParser σ) (bytes : List UInt8) :
    Except Fault (VTParser σ × List VTAction) :=
  feed (fun p byte => p.parseByte utf8 byte) p bytes

end VTParser

end Wakterm.Vtparse
