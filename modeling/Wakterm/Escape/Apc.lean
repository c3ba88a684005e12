import Mathlib.Data.Char
import Wakterm.Escape.Base64
import Wakterm.Machine.Decimal
import Wakterm.Machine.KeyMap

/-!
# Commands of the Kitty graphics protocol

An APC string of the protocol is a list of keys with their values, and a payload.
-/

namespace Wakterm.Escape

open Wakterm.Machine

abbrev Text := List Char

/-- The keys of a command, with their values. -/
abbrev Keys := KeyMap Text Text

/-- `geti`: a number among the values, if there is one. -/
def geti {α : Type} (fromStr : Text → Option α) (keys : Keys) (k : Text) : Option α :=
  (keys.get k).bind fromStr

def set {α : Type} (toString : α → Text) (keys : Keys) (k : Text) : Option α → Keys
  | some v => keys.insert k (toString v)
  | none => keys

/-- The key under which the payload is kept until it is printed. -/
def payloadKey : Text := ['p', 'a', 'y', 'l', 'o', 'a', 'd']

inductive KittyImageData
  | direct (data : Text)
  | directBin (data : List UInt8)
  | file (path : Text) (dataSize dataOffset : Option UInt32)
  | temporaryFile (path : Text) (dataSize dataOffset : Option UInt32)
  | sharedMem (name : Text) (dataSize dataOffset : Option UInt32)
deriving DecidableEq

namespace KittyImageData

def fromKeys (base64 : Base64) (keys : Keys) (payload : List UInt8) : Option KittyImageData :=
  let t := (keys.get ['t']).getD ['d']
  match t with
  | ['d'] => do return .direct (← fromUtf8 payload)
  | ['f'] => do
      return .file (← fromUtf8 (← base64.decode payload)) (geti parseU32 keys ['S'])
        (geti parseU32 keys ['O'])
  | ['t'] => do
      return .temporaryFile (← fromUtf8 (← base64.decode payload)) (geti parseU32 keys ['S'])
        (geti parseU32 keys ['O'])
  | ['s'] => do
      return .sharedMem (← fromUtf8 (← base64.decode payload)) (geti parseU32 keys ['S'])
        (geti parseU32 keys ['O'])
  | _ => none

/-- The keys of data that are elsewhere. -/
def externalToKeys (base64 : Base64) (t path : Text) (dataSize dataOffset : Option UInt32)
    (keys : Keys) : Keys :=
  let keys := keys.insert ['t'] t
  let keys := keys.insert payloadKey (base64.encode (encodeText path))
  let keys := set printU32 keys ['S'] dataSize
  set printU32 keys ['S'] dataOffset

def toKeys (base64 : Base64) : KittyImageData → Keys → Keys
  | direct d, keys => keys.insert payloadKey d
  | directBin d, keys => keys.insert payloadKey (base64.encode d)
  | file path dataSize dataOffset, keys =>
    externalToKeys base64 ['f'] path dataSize dataOffset keys
  | temporaryFile path dataSize dataOffset, keys =>
    externalToKeys base64 ['t'] path dataSize dataOffset keys
  | sharedMem name dataSize dataOffset, keys =>
    externalToKeys base64 ['s'] name dataSize dataOffset keys

end KittyImageData

inductive KittyImageVerbosity
  | verbose
  | onlyErrors
  | quiet
deriving DecidableEq

namespace KittyImageVerbosity

def fromKeys (keys : Keys) : Option KittyImageVerbosity :=
  match keys.get ['q'] with
  | none | some ['0'] => some verbose
  | some ['1'] => some onlyErrors
  | some ['2'] => some quiet
  | _ => none

def toKeys : KittyImageVerbosity → Keys → Keys
  | verbose, keys => keys
  | onlyErrors, keys => keys.insert ['q'] ['1']
  | quiet, keys => keys.insert ['q'] ['2']

end KittyImageVerbosity

inductive KittyImageFormat
  | rgb
  | rgba
  | png
deriving DecidableEq

namespace KittyImageFormat

/-- A format that is not given is none, and one that is not known is an error. -/
def fromKeys (keys : Keys) : Option (Option KittyImageFormat) :=
  match keys.get ['f'] with
  | none => some none
  | some ['3', '2'] => some (some rgba)
  | some ['2', '4'] => some (some rgb)
  | some ['1', '0', '0'] => some (some png)
  | _ => none

def toKeys : KittyImageFormat → Keys → Keys
  | rgb, keys => keys.insert ['f'] ['2', '4']
  | rgba, keys => keys.insert ['f'] ['3', '2']
  | png, keys => keys.insert ['f'] ['1', '0', '0']

end KittyImageFormat

inductive KittyImageCompression
  | none
  | deflate
deriving DecidableEq

namespace KittyImageCompression

def fromKeys (keys : Keys) : Option KittyImageCompression :=
  match keys.get ['o'] with
  | .none => some none
  | some ['z'] => some deflate
  | _ => .none

def toKeys : KittyImageCompression → Keys → Keys
  | none, keys => keys
  | deflate, keys => keys.insert ['o'] ['z']

end KittyImageCompression

/-- A switch: off if it is not given, and nothing but `0` and `1`. -/
def getSwitch (keys : Keys) (k : Text) : Option Bool :=
  match keys.get k with
  | none | some ['0'] => some false
  | some ['1'] => some true
  | _ => none

structure KittyImageTransmit where
  format : Option KittyImageFormat
  data : KittyImageData
  width : Option UInt32
  height : Option UInt32
  imageId : Option UInt32
  imageNumber : Option UInt32
  compression : KittyImageCompression
  moreDataFollows : Bool
deriving DecidableEq

namespace KittyImageTransmit

def fromKeys (base64 : Base64) (keys : Keys) (payload : List UInt8) :
    Option KittyImageTransmit := do
  let format ← KittyImageFormat.fromKeys keys
  let data ← KittyImageData.fromKeys base64 keys payload
  let compression ← KittyImageCompression.fromKeys keys
  let moreDataFollows ← getSwitch keys ['m']
  return {
    format, data, compression, moreDataFollows
    width := geti parseU32 keys ['s']
    height := geti parseU32 keys ['v']
    imageId := geti parseU32 keys ['i']
    imageNumber := geti parseU32 keys ['I'] }

def toKeys (base64 : Base64) (transmit : KittyImageTransmit) (keys : Keys) : Keys :=
  let keys := match transmit.format with
    | some f => f.toKeys keys
    | none => keys
  let keys := set printU32 keys ['s'] transmit.width
  let keys := set printU32 keys ['v'] transmit.height
  let keys := set printU32 keys ['i'] transmit.imageId
  let keys := set printU32 keys ['I'] transmit.imageNumber
  let keys := if transmit.moreDataFollows then keys.insert ['m'] ['1'] else keys
  let keys := transmit.compression.toKeys keys
  transmit.data.toKeys base64 keys

end KittyImageTransmit

structure KittyImagePlacement where
  x : Option UInt32
  y : Option UInt32
  w : Option UInt32
  h : Option UInt32
  xOffset : Option UInt32
  yOffset : Option UInt32
  columns : Option UInt32
  rows : Option UInt32
  doNotMoveCursor : Bool
  placementId : Option UInt32
  zIndex : Option Int32
deriving DecidableEq

namespace KittyImagePlacement

def fromKeys (keys : Keys) : Option KittyImagePlacement := do
  let doNotMoveCursor ← getSwitch keys ['C']
  return {
    doNotMoveCursor
    x := geti parseU32 keys ['x']
    y := geti parseU32 keys ['y']
    w := geti parseU32 keys ['w']
    h := geti parseU32 keys ['h']
    xOffset := geti parseU32 keys ['X']
    yOffset := geti parseU32 keys ['Y']
    columns := geti parseU32 keys ['c']
    rows := geti parseU32 keys ['r']
    placementId := geti parseU32 keys ['p']
    zIndex := geti parseI32 keys ['z'] }

def toKeys (placement : KittyImagePlacement) (keys : Keys) : Keys :=
  let keys := set printU32 keys ['x'] placement.x
  let keys := set printU32 keys ['y'] placement.y
  let keys := set printU32 keys ['w'] placement.w
  let keys := set printU32 keys ['h'] placement.h
  let keys := set printU32 keys ['X'] placement.xOffset
  let keys := set printU32 keys ['Y'] placement.yOffset
  let keys := set printU32 keys ['c'] placement.columns
  let keys := set printU32 keys ['r'] placement.rows
  let keys := set printU32 keys ['p'] placement.placementId
  let keys := if placement.doNotMoveCursor then keys.insert ['C'] ['1'] else keys
  set printI32 keys ['z'] placement.zIndex

end KittyImagePlacement

inductive KittyImageDelete
  | all (delete : Bool)
  | byImageId (imageId : UInt32) (placementId : Option UInt32) (delete : Bool)
  | byImageNumber (imageNumber : UInt32) (placementId : Option UInt32) (delete : Bool)
  | atCursorPosition (delete : Bool)
  | animationFrames (delete : Bool)
  | deleteAt (x y : UInt32) (delete : Bool)
  | deleteAtZ (x y : UInt32) (z : Int32) (delete : Bool)
  | deleteColumn (x : UInt32) (delete : Bool)
  | deleteRow (y : UInt32) (delete : Bool)
  | deleteZ (z : Int32) (delete : Bool)
deriving DecidableEq

namespace KittyImageDelete

def fromKeys (keys : Keys) : Option KittyImageDelete := do
  let d := (keys.get ['d']).getD ['a']
  if (encodeText d).length ≠ 1 then none
  let d ← d.head?
  let delete := d.isUpper
  match d with
  | 'a' | 'A' => return all delete
  | 'i' | 'I' => return byImageId (← geti parseU32 keys ['i']) (geti parseU32 keys ['p']) delete
  | 'n' | 'N' =>
    return byImageNumber (← geti parseU32 keys ['I']) (geti parseU32 keys ['p']) delete
  | 'c' | 'C' => return atCursorPosition delete
  | 'f' | 'F' => return animationFrames delete
  | 'p' | 'P' =>
    return deleteAt (← geti parseU32 keys ['x']) (← geti parseU32 keys ['y']) delete
  | 'q' | 'Q' =>
    return deleteAtZ (← geti parseU32 keys ['x']) (← geti parseU32 keys ['y'])
      (← geti parseI32 keys ['z']) delete
  | 'x' | 'X' => return deleteColumn (← geti parseU32 keys ['x']) delete
  | 'y' | 'Y' => return deleteRow (← geti parseU32 keys ['y']) delete
  | 'z' | 'Z' => return deleteZ (← geti parseI32 keys ['z']) delete
  | _ => none

/-- The letter of a deletion: a capital one if the data go too. -/
def d (c : Char) (delete : Bool) : Text := if delete then [c.toUpper] else [c]

def toKeys : KittyImageDelete → Keys → Keys
  | all delete, keys => keys.insert ['d'] (d 'a' delete)
  | byImageId imageId placementId delete, keys =>
    let keys := keys.insert ['d'] (d 'i' delete)
    let keys := set printU32 keys ['p'] placementId
    keys.insert ['i'] (printU32 imageId)
  | byImageNumber imageNumber placementId delete, keys =>
    let keys := keys.insert ['d'] (d 'n' delete)
    let keys := set printU32 keys ['p'] placementId
    keys.insert ['I'] (printU32 imageNumber)
  | atCursorPosition delete, keys => keys.insert ['d'] (d 'c' delete)
  | animationFrames delete, keys => keys.insert ['d'] (d 'f' delete)
  | deleteAt x y delete, keys =>
    let keys := keys.insert ['d'] (d 'p' delete)
    let keys := keys.insert ['x'] (printU32 x)
    keys.insert ['y'] (printU32 y)
  | deleteAtZ x y z delete, keys =>
    let keys := keys.insert ['d'] (d 'p' delete)
    let keys := keys.insert ['x'] (printU32 x)
    let keys := keys.insert ['y'] (printU32 y)
    keys.insert ['z'] (printI32 z)
  | deleteColumn x delete, keys =>
    let keys := keys.insert ['d'] (d 'x' delete)
    keys.insert ['x'] (printU32 x)
  | deleteRow y delete, keys =>
    let keys := keys.insert ['d'] (d 'y' delete)
    keys.insert ['y'] (printU32 y)
  | deleteZ z delete, keys =>
    let keys := keys.insert ['d'] (d 'z' delete)
    keys.insert ['z'] (printI32 z)

end KittyImageDelete

inductive KittyFrameCompositionMode
  | alphaBlending
  | overwrite
deriving DecidableEq

/-- A composition mode: a number, and one that is no number is not given. -/
def KittyFrameCompositionMode.fromKeys (keys : Keys) (k : Text) :
    Option KittyFrameCompositionMode :=
  match geti parseI32 keys k with
  | none => some alphaBlending
  | some n => if n = 0 then some alphaBlending else if n = 1 then some overwrite else none

def KittyFrameCompositionMode.toKeys (keys : Keys) (k : Text) : KittyFrameCompositionMode → Keys
  | alphaBlending => keys
  | overwrite => keys.insert k ['1']

/-- The number of a frame or of milliseconds, of which zero is none. -/
def getPositive (keys : Keys) (k : Text) : Option UInt32 :=
  match geti parseU32 keys k with
  | none => none
  | some n => if n = 0 then none else some n

structure KittyImageFrameCompose where
  imageId : Option UInt32
  imageNumber : Option UInt32
  targetFrame : Option UInt32
  sourceFrame : Option UInt32
  x : Option UInt32
  y : Option UInt32
  w : Option UInt32
  h : Option UInt32
  srcX : Option UInt32
  srcY : Option UInt32
  compositionMode : KittyFrameCompositionMode
deriving DecidableEq

namespace KittyImageFrameCompose

def fromKeys (keys : Keys) : Option KittyImageFrameCompose := do
  let compositionMode ← KittyFrameCompositionMode.fromKeys keys ['C']
  return {
    compositionMode
    imageId := geti parseU32 keys ['i']
    imageNumber := geti parseU32 keys ['I']
    x := geti parseU32 keys ['x']
    y := geti parseU32 keys ['y']
    srcX := geti parseU32 keys ['X']
    srcY := geti parseU32 keys ['Y']
    w := geti parseU32 keys ['w']
    h := geti parseU32 keys ['h']
    targetFrame := getPositive keys ['c']
    sourceFrame := getPositive keys ['r'] }

def toKeys (frame : KittyImageFrameCompose) (keys : Keys) : Keys :=
  let keys := set printU32 keys ['i'] frame.imageId
  let keys := set printU32 keys ['I'] frame.imageNumber
  let keys := set printU32 keys ['w'] frame.w
  let keys := set printU32 keys ['h'] frame.h
  let keys := set printU32 keys ['x'] frame.x
  let keys := set printU32 keys ['y'] frame.y
  let keys := set printU32 keys ['X'] frame.srcX
  let keys := set printU32 keys ['Y'] frame.srcY
  let keys := set printU32 keys ['c'] frame.targetFrame
  let keys := set printU32 keys ['r'] frame.sourceFrame
  frame.compositionMode.toKeys keys ['C']

end KittyImageFrameCompose

structure KittyImageFrame where
  x : Option UInt32
  y : Option UInt32
  baseFrame : Option UInt32
  frameNumber : Option UInt32
  durationMs : Option UInt32
  compositionMode : KittyFrameCompositionMode
  backgroundPixel : Option UInt32
deriving DecidableEq

namespace KittyImageFrame

def fromKeys (keys : Keys) : Option KittyImageFrame := do
  let compositionMode ← KittyFrameCompositionMode.fromKeys keys ['X']
  return {
    compositionMode
    x := geti parseU32 keys ['x']
    y := geti parseU32 keys ['y']
    baseFrame := getPositive keys ['c']
    frameNumber := getPositive keys ['r']
    durationMs := getPositive keys ['Z']
    backgroundPixel := geti parseU32 keys ['Y'] }

def toKeys (frame : KittyImageFrame) (keys : Keys) : Keys :=
  let keys := set printU32 keys ['x'] frame.x
  let keys := set printU32 keys ['y'] frame.y
  let keys := set printU32 keys ['c'] frame.baseFrame
  let keys := set printU32 keys ['r'] frame.frameNumber
  let keys := set printU32 keys ['Z'] frame.durationMs
  let keys := frame.compositionMode.toKeys keys ['X']
  set printU32 keys ['Y'] frame.backgroundPixel

end KittyImageFrame

inductive KittyImage
  | transmitData (transmit : KittyImageTransmit) (verbosity : KittyImageVerbosity)
  | transmitDataAndDisplay (transmit : KittyImageTransmit) (placement : KittyImagePlacement)
      (verbosity : KittyImageVerbosity)
  | display (imageId imageNumber : Option UInt32) (placement : KittyImagePlacement)
      (verbosity : KittyImageVerbosity)
  | delete (what : KittyImageDelete) (verbosity : KittyImageVerbosity)
  | query (transmit : KittyImageTransmit)
  | transmitFrame (transmit : KittyImageTransmit) (frame : KittyImageFrame)
      (verbosity : KittyImageVerbosity)
  | composeFrame (frame : KittyImageFrameCompose) (verbosity : KittyImageVerbosity)
deriving DecidableEq

namespace KittyImage

/-- One key with its value. -/
def insertPair (keys : Keys) (kv : Text) : Option Keys := do
  let (k, v) := splitOnce '=' kv
  return keys.insert k (← v)

/-- The keys and the payload of the data after the letter of the protocol. -/
def splitKeys (data : List UInt8) : Option (Keys × List UInt8) := do
  let (keys, payload) := splitOnce 0x3b data
  let keyString ← fromUtf8 keys
  let keys ← (keyString.splitOn ',').foldlM insertPair KeyMap.empty
  return (keys, payload.getD [])

def action (keys : Keys) : Text := (keys.get ['a']).getD ['t']

/-- The command that the keys and the payload stand for. -/
def fromKeys (base64 : Base64) (keys : Keys) (payload : List UInt8) : Option KittyImage := do
  let verbosity ← KittyImageVerbosity.fromKeys keys
  match action keys with
  | ['t'] => return transmitData (← KittyImageTransmit.fromKeys base64 keys payload) verbosity
  | ['q'] => return query (← KittyImageTransmit.fromKeys base64 keys payload)
  | ['T'] =>
    return transmitDataAndDisplay (← KittyImageTransmit.fromKeys base64 keys payload)
      (← KittyImagePlacement.fromKeys keys) verbosity
  | ['p'] =>
    return display (geti parseU32 keys ['i']) (geti parseU32 keys ['I'])
      (← KittyImagePlacement.fromKeys keys) verbosity
  | ['d'] => return delete (← KittyImageDelete.fromKeys keys) verbosity
  | ['f'] =>
    return transmitFrame (← KittyImageTransmit.fromKeys base64 keys payload)
      (← KittyImageFrame.fromKeys keys) verbosity
  | ['c'] => return composeFrame (← KittyImageFrameCompose.fromKeys keys) verbosity
  | _ => none

def parseApc (base64 : Base64) : List UInt8 → Option KittyImage
  | [] => none
  | first :: data =>
    if first ≠ 0x47 then none
    else do
      let (keys, payload) ← splitKeys data
      fromKeys base64 keys payload

def toKeys (base64 : Base64) : KittyImage → Keys → Keys
  | transmitData transmit verbosity, keys =>
    transmit.toKeys base64 (verbosity.toKeys keys)
  | query transmit, keys => transmit.toKeys base64 (keys.insert ['a'] ['q'])
  | transmitDataAndDisplay transmit placement verbosity, keys =>
    transmit.toKeys base64
      (placement.toKeys (verbosity.toKeys (keys.insert ['a'] ['Q'])))
  | display imageId imageNumber placement verbosity, keys =>
    let keys := placement.toKeys (verbosity.toKeys (keys.insert ['a'] ['p']))
    let keys := set printU32 keys ['i'] imageId
    set printU32 keys ['I'] imageNumber
  | delete what verbosity, keys => what.toKeys (verbosity.toKeys (keys.insert ['a'] ['d']))
  | transmitFrame transmit frame verbosity, keys =>
    verbosity.toKeys (frame.toKeys (transmit.toKeys base64 (keys.insert ['a'] ['f'])))
  | composeFrame frame verbosity, keys =>
    verbosity.toKeys (frame.toKeys (keys.insert ['a'] ['c']))

/-- A key with its value, as it is printed. -/
def printPair (entry : Text × Text) : Text := entry.1 ++ '=' :: entry.2

def printPayload : Option Text → Text
  | some p => ';' :: p
  | none => []

/-- The keys but the payload, and the payload. -/
def printKeys (keys : Keys) : Text :=
  List.intercalate [','] ((keys.erase payloadKey).entries.map printPair) ++
    printPayload (keys.get payloadKey)

/-- What is printed for a command. -/
def toText (base64 : Base64) (image : KittyImage) : Text :=
  '\x1b' :: '_' :: 'G' :: printKeys (image.toKeys base64 KeyMap.empty)

end KittyImage

end Wakterm.Escape
