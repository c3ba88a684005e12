import Wakterm.Machine.Decimal
import Wakterm.Machine.Utf8

/-!
# The control mode of tmux

`tmux_cc::Parser` gathers the bytes of a line and reads it when it is complete.
-/

namespace Wakterm.Escape

open Wakterm.Machine

structure Guarded where
  error : Bool
  timestamp : Int
  number : Nat
  flags : Int
  output : List Char
deriving DecidableEq

/-- `Event`. -/
inductive TmuxEvent (τ : Type)
  | begin (timestamp : Int) (number : Nat) (flags : Int)
  | end (timestamp : Int) (number : Nat) (flags : Int)
  | error (timestamp : Int) (number : Nat) (flags : Int)
  | guarded (reply : Guarded)
  | other (event : τ)
deriving DecidableEq

/-- `Parser` of the control mode. -/
structure TmuxParser where
  buffer : List UInt8
  begun : Option Guarded
deriving DecidableEq

/-- How far the bytes are a text, and the length of what is none: unless more bytes are wanted. -/
def utf8Error : Nat → List UInt8 → Nat → Nat × Option Nat
  | 0, _, index => (index, none)
  | fuel + 1, bytes, index =>
    match bytes.toByteArray.utf8DecodeChar? 0 with
    | some c => utf8Error fuel (bytes.drop c.utf8Size) (index + c.utf8Size)
    | none =>
      let length := replacedLength bytes
      let wanted := (match bytes.head? with
        | some first => if first < 0xc2 ∨ 0xf4 < first then 1
            else if first < 0xe0 then 2 else if first < 0xf0 then 3 else 4
        | none => 1)
      (index, if length = bytes.length ∧ length < wanted then none else some length)

/-- The text of a `Utf8Error`. -/
def utf8ErrorText (bytes : List UInt8) : List Char :=
  match utf8Error bytes.length bytes 0 with
  | (index, some length) =>
    "invalid utf-8 sequence of ".toList ++ printNat length ++ " bytes from index ".toList ++
      printNat index
  | (index, none) => "incomplete utf-8 byte sequence from index ".toList ++ printNat index

namespace TmuxParser

variable {τ : Type} (parseLine : List UInt8 → Option (TmuxEvent τ))

def new : TmuxParser := ⟨[], none⟩

/-- The reply is over, if the guard is its own. -/
def closed (begun : Option Guarded) (failed : Bool) (timestamp : Int) (number : Nat)
    (flags : Int) : Option (TmuxEvent τ) :=
  match begun with
  | some begun =>
    if begun.timestamp = timestamp ∧ begun.number = number ∧ begun.flags = flags then
      some (.guarded (if failed then { begun with error := true } else begun))
    else none
  | none => none

/-- `process_guarded_line`. An error is the text of it. -/
def processGuardedLine (p : TmuxParser) : Except (List Char) (TmuxParser × Option (TmuxEvent τ)) :=
  match fromUtf8 p.buffer with
  | none => .error (utf8ErrorText p.buffer)
  | some line =>
    match parseLine p.buffer with
    | some (.end timestamp number flags) =>
      .ok (⟨[], none⟩, closed p.begun false timestamp number flags)
    | some (.error timestamp number flags) =>
      .ok (⟨[], none⟩, closed p.begun true timestamp number flags)
    | _ =>
      match p.begun with
      | none => .error "missing begun".toList
      | some begun =>
        .ok (⟨[], some { begun with output := begun.output ++ line ++ ['\n'] }⟩, none)

def processLine (p : TmuxParser) : Except (List Char) (TmuxParser × Option (TmuxEvent τ)) :=
  let p := if p.buffer.getLast? = some 0x0d then { p with buffer := p.buffer.dropLast } else p
  if p.buffer = [] then .ok (p, none)
  else if p.begun.isSome then p.processGuardedLine parseLine
  else
    match parseLine p.buffer with
    | some (.begin timestamp number flags) =>
      .ok (⟨[], some ⟨false, timestamp, number, flags, []⟩⟩, none)
    | some event => .ok (⟨[], p.begun⟩, some event)
    | none => .error (fromUtf8Lossy p.buffer)

def advanceByte (p : TmuxParser) (c : UInt8) :
    Except (List Char) (TmuxParser × Option (TmuxEvent τ)) :=
  if c = 0x0a then p.processLine parseLine else .ok ({ p with buffer := p.buffer ++ [c] }, none)

/-- `advance_bytes`. The text of an error has the bytes that are left behind it. -/
def advanceBytes (p : TmuxParser) :
    List UInt8 → Except (List Char) (TmuxParser × List (TmuxEvent τ))
  | [] => .ok (p, [])
  | b :: bytes =>
    match p.advanceByte parseLine b with
    | .error err => .error (err ++ fromUtf8Lossy (b :: bytes))
    | .ok (p, event) => do
        let (p, events) ← advanceBytes p bytes
        .ok (p, event.toList ++ events)

end TmuxParser

end Wakterm.Escape
