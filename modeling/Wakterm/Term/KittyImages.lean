import Mathlib.Data.List.Perm.Basic
import Mathlib.Logic.Function.Basic
import Wakterm.Machine.KeyMap
import Wakterm.Machine.Word

/-!
# The store of kitty images

`KittyImageState` of the terminal: images by id, ids by number, placements, and a count of the bytes
that the images take.
-/

namespace Wakterm.Term.Kitty

open Machine

/-- An id or a number of an image, a `u32`. -/
abbrev ImageId : Type := Nat

structure ImageData where
  hash : Nat
  len : Nat
  deriving DecidableEq

/-- `KittyImageTransmit`, with the length of its data, and the placement of one that is displayed too. -/
structure Transmit where
  imageId : Option ImageId
  imageNumber : Option ImageId
  encodedLen : Nat
  moreDataFollows : Bool
  placement : Option (Option Nat)

/-- What becomes of the data: its chunks do not fit together, it cannot be loaded, cannot be stored,
or is an image. -/
inductive Outcome where
  | notJoined
  | notLoaded
  | notStored
  | stored (image : ImageData)
  deriving DecidableEq

/-- An id was allocated for a number, an image has been transmitted, or the data of ids deleted. -/
inductive Entry where
  | allocated (number id : ImageId)
  | transmitted (number : Option ImageId) (id : ImageId) (image : ImageData)
  | deleted (ids : List ImageId)

/-- `KittyImageState`, and what has happened, which is not in the source. Of a placement its key is
enough. -/
structure KittyImageState where
  accumulator : List Transmit
  accumulatorBytes : Nat
  maxImageId : ImageId
  numberToId : ImageId → Option ImageId
  idToData : KeyMap ImageId ImageData
  placements : List (ImageId × Option Nat)
  usedMemory : Nat
  log : List Entry

/-- A new terminal. -/
def KittyImageState.start : KittyImageState where
  accumulator := []
  accumulatorBytes := 0
  maxImageId := 0
  numberToId := fun _ => none
  idToData := .empty
  placements := []
  usedMemory := 0
  log := []

def maxKittyAccumulatedEncodedBytes : Nat := 16 * 1024 * 1024

/-- The memory that images may take before some are pruned. -/
def budget : Nat := 320 * 1024 * 1024

/-- What the closure of `retain` drops of the entries it visits, and the bytes that this frees. -/
def pruned (referenced : List ImageId) (target : Nat) :
    Nat → List (ImageId × ImageData) → List ImageId × Nat
  | freed, [] => ([], freed)
  | freed, (id, data) :: entries =>
    if id ∈ referenced ∨ target < freed then pruned referenced target freed entries
    else
      let (ids, freed) := pruned referenced target (freed + data.len) entries
      (id :: ids, freed)

/-- A map without some of its keys. -/
def without (m : KeyMap ImageId ImageData) (ids : List ImageId) : KeyMap ImageId ImageData :=
  ⟨m.entries.filter (·.1 ∉ ids), m.sorted.filter _⟩

namespace KittyImageState

def accumulateChunk (s : KittyImageState) (chunk : Transmit) : KittyImageState × Bool :=
  let nextLen := usatAdd s.accumulatorBytes chunk.encodedLen
  if maxKittyAccumulatedEncodedBytes < nextLen then
    ({ s with accumulator := [], accumulatorBytes := 0 }, false)
  else
    ({ s with accumulatorBytes := nextLen, accumulator := s.accumulator ++ [chunk] }, true)

def removeDataForId (s : KittyImageState) (imageId : ImageId) : KittyImageState :=
  match s.idToData.get imageId with
  | some data =>
    { s with idToData := s.idToData.erase imageId, usedMemory := s.usedMemory - data.len }
  | none => s

/-- `prune_unreferenced`; `none` if the order is not one of the entries. -/
def pruneUnreferenced (s : KittyImageState) (order : List (ImageId × ImageData)) :
    Option KittyImageState :=
  if budget < s.usedMemory then
    if order.Perm s.idToData.entries then
      let referenced := s.placements.map (·.1)
      let (ids, freed) := pruned referenced (s.usedMemory - budget) 0 order
      some { s with
        idToData := without s.idToData ids
        usedMemory := s.usedMemory - freed
        log := s.log ++ [.deleted ids] }
    else none
  else some s

def recordIdToData (s : KittyImageState) (imageId : ImageId) (data : ImageData)
    (order : List (ImageId × ImageData)) : Option KittyImageState :=
  let s := if imageId = 0 then s else s.removeDataForId imageId
  (s.pruneUnreferenced order).map fun s =>
    { s with
      usedMemory := s.usedMemory + data.len
      idToData := s.idToData.insert imageId data }

/-- The ids of a request: one for a number is allocated, and bound, at once. -/
def allocate (s : KittyImageState) (transmit : Transmit) :
    KittyImageState × Option (ImageId × Option ImageId) :=
  match transmit.imageId, transmit.imageNumber with
  | some _, some _ => (s, none)
  | none, none => (s, some (0, none))
  | some id, none => (s, some (id, none))
  | none, some no =>
    let id := (s.maxImageId + 1) % 2 ^ 32
    ({ s with
        numberToId := Function.update s.numberToId no (some id)
        log := s.log ++ [.allocated no id] }, some (id, some no))

/-- `kitty_img_transmit`, with `kitty_img_transmit_inner`: the id of the image, or an error. -/
def kittyImgTransmit (s : KittyImageState) (transmit : Transmit) (outcome : Outcome)
    (order : List (ImageId × ImageData)) : Option (KittyImageState × Option ImageId) :=
  match s.allocate transmit with
  | (s, none) => some (s, none)
  | (s, some (id, number)) =>
    match outcome with
    | .notJoined | .notLoaded => some (s, none)
    | .notStored => some ({ s with maxImageId := max s.maxImageId id }, none)
    | .stored image =>
      let s := { s with maxImageId := max s.maxImageId id }
      (s.recordIdToData id image order).map fun s =>
        ({ s with log := s.log ++ [.transmitted number id image] }, some id)

def kittyRemovePlacement (s : KittyImageState) (imageId : ImageId) (placementId : Option Nat) :
    KittyImageState :=
  match placementId with
  | some p => { s with placements := s.placements.filter (· ≠ (imageId, some p)) }
  | none => { s with placements := s.placements.filter (·.1 ≠ imageId) }

def kittyRemoveAllPlacements (s : KittyImageState) (delete : Bool) : KittyImageState :=
  let s := { s with placements := [] }
  if delete then
    { s with
      idToData := .empty
      usedMemory := 0
      numberToId := fun _ => none
      log := s.log ++ [.deleted (s.idToData.entries.map (·.1))] }
  else s

/-- `kitty_img_place`, once the id is known. -/
def placeImage (s : KittyImageState) (imageId : ImageId) (placementId : Option Nat)
    (attached : Bool) : KittyImageState :=
  let s := if imageId = 0 then s else s.kittyRemovePlacement imageId placementId
  match s.idToData.get imageId with
  | none => s
  | some _ =>
    if attached then
      { s with
        placements := (imageId, placementId) ::
          s.placements.filter (· ≠ (imageId, placementId)) }
    else s

def kittyImgPlace (s : KittyImageState) (imageId imageNumber : Option ImageId)
    (placementId : Option Nat) (attached : Bool) : KittyImageState :=
  match imageId with
  | some id => s.placeImage id placementId attached
  | none =>
    match imageNumber.bind s.numberToId with
    | some id => s.placeImage id placementId attached
    | none => s

/-- `kitty_img_inner`, once the chunks are one request. -/
def kittyImgInner (s : KittyImageState) (transmit : Transmit) (outcome : Outcome)
    (order : List (ImageId × ImageData)) (attached : Bool) : Option KittyImageState :=
  (s.kittyImgTransmit transmit outcome order).map fun (s, id) =>
    match id, transmit.placement with
    | some id, some placementId =>
      s.kittyImgPlace (some id) transmit.imageNumber placementId attached
    | _, _ => s

end KittyImageState

/-- The commands: `TransmitData` and `TransmitDataAndDisplay`, `Display`, and `Delete`. -/
inductive Command where
  | transmit (transmit : Transmit) (outcome : Outcome) (order : List (ImageId × ImageData))
      (attached : Bool)
  | display (imageId imageNumber : Option ImageId) (placementId : Option Nat) (attached : Bool)
  | deleteById (imageId : ImageId) (placementId : Option Nat) (delete : Bool)
  | deleteAll (delete : Bool)

/-- `kitty_img` on a transmission: a chunk is kept until the last one comes, and the first says what
the request is. -/
def transmitChunk (s : KittyImageState) (chunk : Transmit) (outcome : Outcome)
    (order : List (ImageId × ImageData)) (attached : Bool) : Option KittyImageState :=
  if chunk.moreDataFollows then some (s.accumulateChunk chunk).1
  else
    match s.accumulator with
    | [] => if outcome = .notJoined then none else s.kittyImgInner chunk outcome order attached
    | first :: _ =>
      match s.accumulateChunk chunk with
      | (s, false) => some s
      | (s, true) =>
        let s := { s with accumulator := [], accumulatorBytes := 0 }
        if outcome = .notJoined then some s
        else s.kittyImgInner first outcome order attached

/-- `kitty_img`. `none`: the outcome is not one of this command. -/
def step (s : KittyImageState) : Command → Option KittyImageState
  | .transmit chunk outcome order attached => transmitChunk s chunk outcome order attached
  | .display imageId imageNumber placementId attached =>
    some (s.kittyImgPlace imageId imageNumber placementId attached)
  | .deleteById imageId placementId delete =>
    let s := s.kittyRemovePlacement imageId placementId
    if delete then
      some { s.removeDataForId imageId with log := s.log ++ [.deleted [imageId]] }
    else some s
  | .deleteAll delete => some (s.kittyRemoveAllPlacements delete)

end Wakterm.Term.Kitty
