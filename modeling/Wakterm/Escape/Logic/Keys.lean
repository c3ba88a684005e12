import Wakterm.Escape.Apc

/-!
# What is written to the keys is read from them

For each part of a command: reading the keys after the part has been written to them gives the part
again, if the keys that it uses were free.
-/

namespace Wakterm.Escape

open Wakterm.Machine

variable {k : Text}

variable {α : Type}

/-- None of the keys has a value. -/
def Keys.Free (names : List Text) (keys : Keys) : Prop := ∀ k ∈ names, keys.get k = none

def Keys.Same (names : List Text) (keys keys' : Keys) : Prop :=
  ∀ k ∈ names, keys'.get k = keys.get k

@[simp] theorem get_set (toString : α → Text) (keys : Keys) (k k' : Text) (v : Option α) :
    (set toString keys k v).get k' =
      if k' = k then (v.map toString).or (keys.get k') else keys.get k' := by
  cases v with
  | none => simp [set]
  | some v => simp [set]

@[simp] theorem bind_parseU32 (v : Option UInt32) : (v.map printU32).bind parseU32 = v := by
  cases v with
  | none => rfl
  | some v => exact parseU32_printU32 v

@[simp] theorem bind_parseI32 (v : Option Int32) : (v.map printI32).bind parseI32 = v := by
  cases v with
  | none => rfl
  | some v => exact parseI32_printI32 v

/-! ## Data -/

namespace KittyImageData

/-- The keys of data, but the payload. -/
def names : List Text := [['t'], ['S'], ['O']]

/-- The payload of data. -/
def text (base64 : Base64) : KittyImageData → Text
  | direct d => d
  | directBin d => base64.encode d
  | file path _ _ => base64.encode (encodeText path)
  | temporaryFile path _ _ => base64.encode (encodeText path)
  | sharedMem name _ _ => base64.encode (encodeText name)

/-- What is read for data that were written: the offset is written over the size. -/
def reread (base64 : Base64) : KittyImageData → KittyImageData
  | direct d => direct d
  | directBin d => direct (base64.encode d)
  | file path size offset => file path (offset.or size) none
  | temporaryFile path size offset => temporaryFile path (offset.or size) none
  | sharedMem name size offset => sharedMem name (offset.or size) none

/-- The data are elsewhere. -/
def external : KittyImageData → Bool
  | direct _ => false
  | directBin _ => false
  | file _ _ _ => true
  | temporaryFile _ _ _ => true
  | sharedMem _ _ _ => true

variable (base64 : Base64)

@[simp] theorem get_toKeys (h : k ∉ payloadKey :: names) (data : KittyImageData)
    (keys : Keys) : (data.toKeys base64 keys).get k = keys.get k := by
  simp only [names, List.mem_cons, List.not_mem_nil, or_false, not_or] at h
  cases data <;> simp [toKeys, externalToKeys, h]

theorem get_payload (data : KittyImageData) (keys : Keys) :
    (data.toKeys base64 keys).get payloadKey = some (data.text base64) := by
  cases data <;> simp [toKeys, externalToKeys, text, payloadKey]

theorem bind_or_parseU32 (size offset : Option UInt32) :
    ((offset.map printU32).or (size.map printU32)).bind parseU32 = offset.or size := by
  cases offset with
  | none => exact bind_parseU32 size
  | some n => exact parseU32_printU32 n

theorem fromKeys_toKeys (hbase : base64.Inverse) (data : KittyImageData) (keys keys' : Keys)
    (hfree : keys.Free names) (hsame : (data.toKeys base64 keys).Same names keys') :
    fromKeys base64 keys' (encodeText (data.text base64)) = some (data.reread base64) := by
  simp only [names, Keys.Free, Keys.Same, List.forall_mem_cons] at hfree hsame
  cases data with
  | direct d => simp [fromKeys, toKeys, hsame, hfree, text, reread, payloadKey, fromUtf8_encodeText]
  | directBin d =>
    simp [fromKeys, toKeys, hsame, hfree, text, reread, payloadKey, fromUtf8_encodeText]
  | file path size offset =>
    simp [fromKeys, toKeys, externalToKeys, geti, hsame, hfree, text, reread, payloadKey,
      fromUtf8_encodeText, hbase.decode_encode, bind_or_parseU32]
  | temporaryFile path size offset =>
    simp [fromKeys, toKeys, externalToKeys, geti, hsame, hfree, text, reread, payloadKey,
      fromUtf8_encodeText, hbase.decode_encode, bind_or_parseU32]
  | sharedMem name size offset =>
    simp [fromKeys, toKeys, externalToKeys, geti, hsame, hfree, text, reread, payloadKey,
      fromUtf8_encodeText, hbase.decode_encode, bind_or_parseU32]

end KittyImageData

namespace KittyImageVerbosity

/-- The key of a verbosity. -/
def names : List Text := [['q']]

@[simp] theorem get_toKeys (h : k ∉ names) (verbosity : KittyImageVerbosity)
    (keys : Keys) : (verbosity.toKeys keys).get k = keys.get k := by
  simp only [names, List.mem_cons, List.not_mem_nil, or_false] at h
  cases verbosity <;> simp [toKeys, h]

theorem fromKeys_toKeys (verbosity : KittyImageVerbosity) (keys keys' : Keys)
    (hfree : keys.Free names) (hsame : (verbosity.toKeys keys).Same names keys') :
    fromKeys keys' = some verbosity := by
  simp only [names, Keys.Free, Keys.Same, List.forall_mem_cons] at hfree hsame
  cases verbosity <;> simp [fromKeys, toKeys, hsame, hfree]

end KittyImageVerbosity

namespace KittyImageTransmit

/-- The keys of a transmission, but the payload. -/
def names : List Text :=
  [['f'], ['s'], ['v'], ['i'], ['I'], ['m'], ['o'], ['t'], ['S'], ['O']]

/-- The keys of a transmission but those of the data, as they are written before these. -/
def headToKeys (transmit : KittyImageTransmit) (keys : Keys) : Keys :=
  let keys := match transmit.format with
    | some f => f.toKeys keys
    | none => keys
  let keys := set printU32 keys ['s'] transmit.width
  let keys := set printU32 keys ['v'] transmit.height
  let keys := set printU32 keys ['i'] transmit.imageId
  let keys := set printU32 keys ['I'] transmit.imageNumber
  let keys := if transmit.moreDataFollows then keys.insert ['m'] ['1'] else keys
  transmit.compression.toKeys keys

theorem toKeys_eq (base64 : Base64) (transmit : KittyImageTransmit) (keys : Keys) :
    transmit.toKeys base64 keys = transmit.data.toKeys base64 (transmit.headToKeys keys) := rfl

theorem get_headToKeys (h : k ∉ [['f'], ['s'], ['v'], ['i'], ['I'], ['m'], ['o']])
    (transmit : KittyImageTransmit) (keys : Keys) :
    (transmit.headToKeys keys).get k = keys.get k := by
  simp only [List.mem_cons, List.not_mem_nil, or_false, not_or] at h
  obtain ⟨format, data, width, height, imageId, imageNumber, compression, more⟩ := transmit
  unfold headToKeys
  rcases format with _ | f
  · cases compression <;> cases more <;> simp [KittyImageCompression.toKeys, h]
  · cases f <;> cases compression <;> cases more <;>
      simp [KittyImageCompression.toKeys, KittyImageFormat.toKeys, h]

variable (base64 : Base64)

@[simp] theorem get_toKeys (h : k ∉ payloadKey :: names)
    (transmit : KittyImageTransmit) (keys : Keys) :
    (transmit.toKeys base64 keys).get k = keys.get k := by
  simp only [names, List.mem_cons, List.not_mem_nil, or_false, not_or] at h
  rw [toKeys_eq, KittyImageData.get_toKeys base64 (by simp [KittyImageData.names, h]),
    get_headToKeys (by simp [h])]

theorem get_payload (transmit : KittyImageTransmit) (keys : Keys) :
    (transmit.toKeys base64 keys).get payloadKey = some (transmit.data.text base64) :=
  KittyImageData.get_payload base64 transmit.data _

theorem fromKeys_toKeys (hbase : base64.Inverse) (transmit : KittyImageTransmit)
    (keys keys' : Keys) (hfree : keys.Free names)
    (hsame : (transmit.toKeys base64 keys).Same names keys') :
    fromKeys base64 keys' (encodeText (transmit.data.text base64)) =
      some { transmit with data := transmit.data.reread base64 } := by
  have hdata : KittyImageData.fromKeys base64 keys' (encodeText (transmit.data.text base64)) =
      some (transmit.data.reread base64) := by
    refine KittyImageData.fromKeys_toKeys base64 hbase transmit.data
      (transmit.headToKeys keys) keys' ?_ ?_
    · intro k hk
      rw [get_headToKeys (by revert k; decide)]
      exact hfree k (List.mem_append_right [['f'], ['s'], ['v'], ['i'], ['I'], ['m'], ['o']] hk)
    · intro k hk
      exact hsame k (List.mem_append_right [['f'], ['s'], ['v'], ['i'], ['I'], ['m'], ['o']] hk)
  have hhead : ∀ k ∈ [['f'], ['s'], ['v'], ['i'], ['I'], ['m'], ['o']],
      keys'.get k = (transmit.headToKeys keys).get k := by
    intro k hk
    rw [hsame k (List.mem_append_left [['t'], ['S'], ['O']] hk), toKeys_eq]
    exact KittyImageData.get_toKeys base64 (by revert k; decide) _ _
  simp only [names, Keys.Free, List.forall_mem_cons] at hfree
  simp only [List.forall_mem_cons] at hhead
  obtain ⟨format, data, width, height, imageId, imageNumber, compression, more⟩ := transmit
  simp only [fromKeys, hdata, KittyImageFormat.fromKeys, KittyImageCompression.fromKeys, getSwitch,
    geti, hhead]
  rcases format with _ | f
  · cases compression <;> cases more <;>
      simp [headToKeys, KittyImageCompression.toKeys, hfree]
  · cases f <;> cases compression <;> cases more <;>
      simp [headToKeys, KittyImageCompression.toKeys, KittyImageFormat.toKeys, hfree]

end KittyImageTransmit

/-! ## Placements, deletions and frames -/

namespace KittyImagePlacement

/-- The keys of a placement. -/
def names : List Text :=
  [['x'], ['y'], ['w'], ['h'], ['X'], ['Y'], ['c'], ['r'], ['p'], ['C'], ['z']]

@[simp] theorem get_toKeys (h : k ∉ names) (placement : KittyImagePlacement)
    (keys : Keys) : (placement.toKeys keys).get k = keys.get k := by
  simp only [names, List.mem_cons, List.not_mem_nil, or_false, not_or] at h
  unfold toKeys
  cases placement.doNotMoveCursor <;> simp [h]

theorem fromKeys_toKeys (placement : KittyImagePlacement) (keys keys' : Keys)
    (hfree : keys.Free names) (hsame : (placement.toKeys keys).Same names keys') :
    fromKeys keys' = some placement := by
  simp only [names, Keys.Free, Keys.Same, List.forall_mem_cons] at hfree hsame
  obtain ⟨x, y, w, h, xOffset, yOffset, columns, rows, stays, placementId, zIndex⟩ := placement
  simp only [fromKeys, getSwitch, geti, hsame]
  cases stays <;> simp [toKeys, hfree]

end KittyImagePlacement

namespace KittyImageDelete

/-- The keys of a deletion. -/
def names : List Text := [['d'], ['i'], ['I'], ['p'], ['x'], ['y'], ['z']]

/-- What is read for a deletion that was written: the letter of `deleteAtZ` is another's. -/
def reread : KittyImageDelete → KittyImageDelete
  | deleteAtZ x y _ delete => deleteAt x y delete
  | what => what

@[simp] theorem get_toKeys (h : k ∉ names) (what : KittyImageDelete) (keys : Keys) :
    (what.toKeys keys).get k = keys.get k := by
  simp only [names, List.mem_cons, List.not_mem_nil, or_false, not_or] at h
  cases what <;> simp [toKeys, h]

theorem fromKeys_toKeys (what : KittyImageDelete) (keys keys' : Keys)
    (hfree : keys.Free names) (hsame : (what.toKeys keys).Same names keys') :
    fromKeys keys' = some what.reread := by
  simp only [names, Keys.Free, Keys.Same, List.forall_mem_cons] at hfree hsame
  cases what with
  | deleteAtZ x y z delete =>
    cases delete <;>
      simp [fromKeys, toKeys, hsame, d, reread, geti, parseU32_printU32] <;> rfl
  | _ =>
    rename_i delete
    cases delete <;>
      simp [fromKeys, toKeys, hsame, hfree, d, reread, geti, parseU32_printU32,
        parseI32_printI32] <;> rfl

end KittyImageDelete

theorem getPositive_ne_zero (keys : Keys) (k : Text) : getPositive keys k ≠ some 0 := by
  unfold getPositive
  split
  · exact Option.some_ne_none _ ∘ Eq.symm
  · split
    · exact Option.some_ne_none _ ∘ Eq.symm
    · next hn => exact hn ∘ Option.some.inj

theorem getPositive_eq {keys : Keys} {v : Option UInt32}
    (hget : geti parseU32 keys k = v) (hv : v ≠ some 0) : getPositive keys k = v := by
  unfold getPositive
  rw [hget]
  cases v with
  | none => rfl
  | some n => exact if_neg fun hn => hv (congrArg some hn)

theorem KittyFrameCompositionMode.get_toKeys {k k' : Text} (h : k' ≠ k)
    (mode : KittyFrameCompositionMode) (keys : Keys) :
    (mode.toKeys keys k).get k' = keys.get k' := by
  cases mode <;> simp [toKeys, h]

theorem KittyFrameCompositionMode.fromKeys_toKeys (mode : KittyFrameCompositionMode)
    {keys keys' : Keys} (hfree : keys.get k = none)
    (hsame : keys'.get k = (mode.toKeys keys k).get k) : fromKeys keys' k = some mode := by
  unfold fromKeys geti
  rw [hsame]
  cases mode with
  | alphaBlending => simp [toKeys, hfree]
  | overwrite =>
    have hone : parseI32 ['1'] = some 1 := parseI32_printI32 1
    simp [toKeys, hone]

namespace KittyImageFrameCompose

/-- The keys of a composition. -/
def names : List Text :=
  [['i'], ['I'], ['w'], ['h'], ['x'], ['y'], ['X'], ['Y'], ['c'], ['r'], ['C']]

/-- Frames are counted from one. -/
structure Proper (frame : KittyImageFrameCompose) : Prop where
  targetFrame : frame.targetFrame ≠ some 0
  sourceFrame : frame.sourceFrame ≠ some 0

variable {frame : KittyImageFrameCompose}

theorem proper_of_fromKeys {keys : Keys} (h : fromKeys keys = some frame) : frame.Proper := by
  obtain ⟨mode, -, hframe⟩ := Option.bind_eq_some_iff.mp h
  cases hframe
  exact ⟨getPositive_ne_zero keys ['c'], getPositive_ne_zero keys ['r']⟩

@[simp] theorem get_toKeys (h : k ∉ names) (frame : KittyImageFrameCompose)
    (keys : Keys) : (frame.toKeys keys).get k = keys.get k := by
  simp only [names, List.mem_cons, List.not_mem_nil, or_false, not_or] at h
  unfold toKeys
  rw [KittyFrameCompositionMode.get_toKeys h.2.2.2.2.2.2.2.2.2.2]
  simp [h]

theorem fromKeys_toKeys (hproper : frame.Proper) (keys keys' : Keys) (hfree : keys.Free names)
    (hsame : (frame.toKeys keys).Same names keys') : fromKeys keys' = some frame := by
  simp only [names, Keys.Free, Keys.Same, List.forall_mem_cons] at hfree hsame
  obtain ⟨htarget, hsource⟩ := hproper
  obtain ⟨imageId, imageNumber, targetFrame, sourceFrame, x, y, w, h, srcX, srcY, mode⟩ := frame
  have hmode : KittyFrameCompositionMode.fromKeys keys' ['C'] = some mode :=
    KittyFrameCompositionMode.fromKeys_toKeys mode (by simp [hfree]) hsame.2.2.2.2.2.2.2.2.2.2.1
  have hc : getPositive keys' ['c'] = targetFrame := by
    refine getPositive_eq ?_ htarget
    simp [geti, hsame, toKeys, hfree, KittyFrameCompositionMode.get_toKeys]
  have hr : getPositive keys' ['r'] = sourceFrame := by
    refine getPositive_eq ?_ hsource
    simp [geti, hsame, toKeys, hfree, KittyFrameCompositionMode.get_toKeys]
  simp [fromKeys, hmode, hc, hr, geti, hsame, toKeys, hfree, KittyFrameCompositionMode.get_toKeys]

end KittyImageFrameCompose

namespace KittyImageFrame

/-- The keys of a frame. -/
def names : List Text := [['x'], ['y'], ['c'], ['r'], ['Z'], ['X'], ['Y']]

/-- Frames are counted from one, and no duration is none. -/
structure Proper (frame : KittyImageFrame) : Prop where
  baseFrame : frame.baseFrame ≠ some 0
  frameNumber : frame.frameNumber ≠ some 0
  durationMs : frame.durationMs ≠ some 0

theorem proper_of_fromKeys {keys : Keys} {frame : KittyImageFrame}
    (h : fromKeys keys = some frame) : frame.Proper := by
  obtain ⟨mode, -, hframe⟩ := Option.bind_eq_some_iff.mp h
  cases hframe
  exact ⟨getPositive_ne_zero keys ['c'], getPositive_ne_zero keys ['r'],
    getPositive_ne_zero keys ['Z']⟩

@[simp] theorem get_toKeys (h : k ∉ names) (frame : KittyImageFrame) (keys : Keys) :
    (frame.toKeys keys).get k = keys.get k := by
  simp only [names, List.mem_cons, List.not_mem_nil, or_false, not_or] at h
  simp [toKeys, KittyFrameCompositionMode.get_toKeys, h]

theorem fromKeys_toKeys {frame : KittyImageFrame} (hproper : frame.Proper) (keys keys' : Keys)
    (hfree : keys.Free names) (hsame : (frame.toKeys keys).Same names keys') :
    fromKeys keys' = some frame := by
  simp only [names, Keys.Free, Keys.Same, List.forall_mem_cons] at hfree hsame
  obtain ⟨hbase, hnumber, hduration⟩ := hproper
  obtain ⟨x, y, baseFrame, frameNumber, durationMs, mode, backgroundPixel⟩ := frame
  have hmode : KittyFrameCompositionMode.fromKeys keys' ['X'] = some mode := by
    refine KittyFrameCompositionMode.fromKeys_toKeys mode hfree.2.2.2.2.2.1 ?_
    rw [hsame.2.2.2.2.2.1]
    cases mode <;> simp [toKeys, KittyFrameCompositionMode.toKeys]
  have hc : getPositive keys' ['c'] = baseFrame := by
    refine getPositive_eq ?_ hbase
    simp [geti, hsame, toKeys, hfree, KittyFrameCompositionMode.get_toKeys]
  have hr : getPositive keys' ['r'] = frameNumber := by
    refine getPositive_eq ?_ hnumber
    simp [geti, hsame, toKeys, hfree, KittyFrameCompositionMode.get_toKeys]
  have hz : getPositive keys' ['Z'] = durationMs := by
    refine getPositive_eq ?_ hduration
    simp [geti, hsame, toKeys, hfree, KittyFrameCompositionMode.get_toKeys]
  simp [fromKeys, hmode, hc, hr, hz, geti, hsame, toKeys, hfree,
    KittyFrameCompositionMode.get_toKeys]

end KittyImageFrame

end Wakterm.Escape
