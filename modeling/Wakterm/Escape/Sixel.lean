import Mathlib.Algebra.Group.Nat.Defs
import Wakterm.Vtparse.Parser

/-!
# Sixel images

`SixelBuilder`: the bytes of a sixel string, one by one, are made into the items of an image.
-/

namespace Wakterm.Escape

open Wakterm.Vtparse

inductive SixelData
  | data (value : UInt8)
  | repeated (repeatCount : UInt32) (data : UInt8)
  | defineColorMapRGB (colorNumber : UInt16) (red green blue : UInt8)
  | defineColorMapHSL (colorNumber hueAngle : UInt16) (lightness saturation : UInt8)
  | selectColorMapEntry (colorNumber : UInt16)
  | carriageReturn
  | newLine
deriving DecidableEq

structure Sixel where
  pan : Int
  pad : Int
  pixelWidth : Option UInt32
  pixelHeight : Option UInt32
  backgroundIsTransparent : Bool
  horizontalGridSize : Option Int
  data : List SixelData
deriving DecidableEq

def maxSixelParams : Nat := 5
def maxSixelInputBytes : Nat := 8 * 1024 * 1024
def maxSixelDataItems : Nat := 4 * 1024 * 1024
def maxSixelExpandedSamples : Nat := 16 * 1024 * 1024
def maxSixelPixels : Nat := 16 * 1024 * 1024

structure SixelBuilder where
  sixel : Sixel
  params : List Int
  paramNo : Nat
  currentCommand : UInt8
  inputBytes : Nat
  expandedSamples : Nat
  truncated : Bool
deriving DecidableEq

namespace SixelBuilder

/-- The aspect ratio that the first parameter stands for. -/
def panOf (param : Int) : Int :=
  if param = 7 ∨ param = 8 ∨ param = 9 then 1
  else if param = 0 ∨ param = 1 ∨ param = 5 ∨ param = 6 then 2
  else if param = 3 ∨ param = 4 then 3
  else if param = 2 then 5
  else 2

def new (params : List Int) : SixelBuilder where
  sixel := {
    pan := panOf (params.getD 0 0)
    pad := 1
    pixelWidth := none
    pixelHeight := none
    backgroundIsTransparent := params.getD 1 0 = 1
    horizontalGridSize := params[2]?
    data := [] }
  params := List.replicate maxSixelParams (-1)
  paramNo := 0
  currentCommand := 0
  inputBytes := 0
  expandedSamples := 0
  truncated := false

/-- A parameter. The index is below the number of parameters wherever one is read. -/
def param (b : SixelBuilder) (i : Nat) : Int := b.params.getD i (-1)

def pushData (b : SixelBuilder) (item : SixelData) : SixelBuilder :=
  { b with sixel := { b.sixel with data := b.sixel.data ++ [item] } }

def pushItem (b : SixelBuilder) (item : SixelData) (expandedSamples : Nat) : SixelBuilder :=
  let nextWork := min (b.expandedSamples + expandedSamples) (2 ^ 64 - 1)
  if maxSixelDataItems ≤ b.sixel.data.length ∨ maxSixelExpandedSamples < nextWork then
    { b with truncated := true }
  else { b with expandedSamples := nextWork }.pushData item

/-- The command is over. -/
def reset (b : SixelBuilder) : SixelBuilder :=
  { b with
    paramNo := 0
    params := List.replicate maxSixelParams (-1)
    currentCommand := 0 }

/-- A percentage of a colour channel: what the division gives as a float, cut to a byte. -/
def channel (percent : Nat) : UInt8 := UInt8.ofNat (min 255 (percent * 255 / 100))

/-- `#`: a colour is defined. -/
def defineColor (b : SixelBuilder) : SixelBuilder :=
  let colorNumber := UInt16.ofInt (b.param 0)
  let system := UInt16.ofInt (b.param 1)
  let a := UInt16.ofInt (b.param 2)
  let b' := UInt8.ofInt (b.param 3)
  let c := UInt8.ofInt (b.param 4)
  if system = 1 then b.pushData (.defineColorMapHSL colorNumber a b' c)
  else
    b.pushData (.defineColorMapRGB colorNumber (channel a.toNat) (channel b'.toNat)
      (channel c.toNat))

/-- `"`: the raster attributes. -/
def setRaster (b : SixelBuilder) : SixelBuilder :=
  let pan := if b.param 0 = -1 then 2 else b.param 0
  let pad := if b.param 1 = -1 then 1 else b.param 1
  let b := { b with sixel := { b.sixel with pan := pan, pad := pad } }
  if 3 ≤ b.paramNo then
    let width := b.param 2
    let height := b.param 3
    let b := { b with sixel := { b.sixel with
      pixelWidth := some (UInt32.ofInt width), pixelHeight := some (UInt32.ofInt height) } }
    let size := (width % 2 ^ 64).toNat * (height % 2 ^ 64).toNat
    if maxSixelPixels < size % 2 ^ 64 ∨ 2 ^ 64 ≤ size then { b with truncated := true }
    else b.reset
  else b.reset

def finishCommand (b : SixelBuilder) : SixelBuilder :=
  if b.truncated then b.reset
  else if maxSixelDataItems ≤ b.sixel.data.length then { b with truncated := true }
  else if b.currentCommand = 0x23 then
    if 4 ≤ b.paramNo then b.defineColor.reset
    else (b.pushData (.selectColorMapEntry (UInt16.ofInt (b.param 0)))).reset
  else if b.currentCommand = 0x22 then b.setRaster
  else b.reset

/-- `!`: the value is repeated. -/
def pushRepeat (b : SixelBuilder) (data : UInt8) : SixelBuilder :=
  let repeatCount := b.param 0
  if 0 < repeatCount ∧ repeatCount < 2 ^ 32 then
    (b.pushItem (.repeated (UInt32.ofInt repeatCount) (data - 0x3f)) repeatCount.toNat).finishCommand
  else { b with truncated := true }.finishCommand

def pushDigit (b : SixelBuilder) (data : UInt8) : SixelBuilder :=
  if maxSixelParams ≤ b.paramNo then b
  else
    let value := if b.param b.paramNo = -1 then 0 else b.param b.paramNo
    { b with params :=
      b.params.set b.paramNo (saturate (saturate (value * 10) + ((data - 0x30).toNat : Int))) }

def push (b : SixelBuilder) (data : UInt8) : SixelBuilder :=
  if maxSixelInputBytes ≤ b.inputBytes then { b with truncated := true }
  else
    let b := { b with inputBytes := b.inputBytes + 1 }
    if b.truncated then b
    else if data = 0x24 then b.finishCommand.pushItem .carriageReturn 0
    else if data = 0x2d then b.finishCommand.pushItem .newLine 0
    else if 0x3f ≤ data ∧ data ≤ 0x7e then
      if b.currentCommand = 0x21 then b.pushRepeat data
      else b.finishCommand.pushItem (.data (data - 0x3f)) 1
    else if data = 0x23 ∨ data = 0x21 ∨ data = 0x22 then
      { b.finishCommand with currentCommand := data }
    else if (0x30 ≤ data ∧ data ≤ 0x39) ∧ b.currentCommand ≠ 0 then b.pushDigit data
    else if data = 0x3b ∧ b.currentCommand ≠ 0 then
      if maxSixelParams ≤ b.paramNo then b else { b with paramNo := b.paramNo + 1 }
    else b.finishCommand

/-- `SixelBuilder::finish`, with the image if there is one. -/
def finish (b : SixelBuilder) : Option Sixel :=
  let b := b.finishCommand
  if b.truncated then none else some b.sixel

end SixelBuilder

end Wakterm.Escape
