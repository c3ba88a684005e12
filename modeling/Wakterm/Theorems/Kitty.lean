import Wakterm.Escape.Logic.Apc
import Wakterm.Term.Logic.KittyImages

/-!
# Commands of the Kitty graphics protocol are printed and parsed

A command that was parsed is printed, and what is printed is parsed again.
-/

namespace Wakterm.Theorems.KittyRoundTrip

open Wakterm.Machine Wakterm.Escape Wakterm.Escape.KittyImage

variable {base64 : Base64} {keys : Keys} {payload : List UInt8}

/-! ## The keys of a command that is printed well -/

/-- The data are elsewhere. -/
def External (keys : Keys) : Prop := (keys.get ['t']).getD ['d'] ≠ ['d']

/-- The data are elsewhere, from an offset on. -/
def Offset (keys : Keys) : Prop := External keys ∧ geti parseU32 keys ['O'] ≠ none

/-- There is nothing that a transmission would print. -/
structure Silent (keys : Keys) : Prop where
  format : keys.get ['f'] = none
  width : geti parseU32 keys ['s'] = none
  height : geti parseU32 keys ['v'] = none
  imageId : geti parseU32 keys ['i'] = none
  imageNumber : geti parseU32 keys ['I'] = none
  compression : keys.get ['o'] = none
  moreDataFollows : keys.get ['m'] ≠ some ['1']
  data : ¬ External keys
  verbosity : keys.get ['q'] ≠ some ['1'] ∧ keys.get ['q'] ≠ some ['2']

/-- The keys of a command that is printed as it was parsed. -/
structure Reprinted (keys : Keys) : Prop where
  transmit : action keys = ['t'] → ¬ Offset keys ∧ ¬ Silent keys
  query : action keys = ['q'] → ¬ Offset keys
  frame : action keys = ['f'] → ¬ Offset keys
  display : action keys ≠ ['T']
  delete : action keys = ['d'] → keys.get ['d'] ≠ some ['q'] ∧ keys.get ['d'] ≠ some ['Q']

/-! ## What the keys say of the parts -/

variable {data : KittyImageData} {verbosity : KittyImageVerbosity}

theorem data_cases (h : KittyImageData.fromKeys base64 keys payload = some data) :
    (¬ External keys ∧ ∃ text, data = .direct text) ∨ (External keys ∧ ∃ path,
      data = .file path (geti parseU32 keys ['S']) (geti parseU32 keys ['O']) ∨
      data = .temporaryFile path (geti parseU32 keys ['S']) (geti parseU32 keys ['O']) ∨
      data = .sharedMem path (geti parseU32 keys ['S']) (geti parseU32 keys ['O'])) := by
  have hexternal : ∀ (make : Text → KittyImageData),
      (do return make (← fromUtf8 (← base64.decode payload))) = some data →
      ∃ path, data = make path := by
    intro make hmake
    obtain ⟨bytes, -, hmake⟩ := Option.bind_eq_some_iff.mp hmake
    obtain ⟨path, -, hdata⟩ := Option.bind_eq_some_iff.mp hmake
    exact ⟨path, (Option.some.inj hdata).symm⟩
  unfold KittyImageData.fromKeys at h
  unfold External
  dsimp only at h
  split at h
  · next ht =>
    obtain ⟨text, -, hdata⟩ := Option.bind_eq_some_iff.mp h
    exact Or.inl ⟨not_not.mpr ht, text, (Option.some.inj hdata).symm⟩
  · next ht =>
    obtain ⟨path, hdata⟩ := hexternal _ h
    exact Or.inr ⟨by simp [ht], path, Or.inl hdata⟩
  · next ht =>
    obtain ⟨path, hdata⟩ := hexternal _ h
    exact Or.inr ⟨by simp [ht], path, Or.inr (Or.inl hdata)⟩
  · next ht =>
    obtain ⟨path, hdata⟩ := hexternal _ h
    exact Or.inr ⟨by simp [ht], path, Or.inr (Or.inr hdata)⟩
  · cases h

theorem external_iff (h : KittyImageData.fromKeys base64 keys payload = some data) :
    data.external = true ↔ External keys := by
  rcases data_cases h with ⟨hnot, text, rfl⟩ | ⟨hexternal, path, rfl | rfl | rfl⟩
  · simp [hnot, KittyImageData.external]
  · simp [hexternal, KittyImageData.external]
  · simp [hexternal, KittyImageData.external]
  · simp [hexternal, KittyImageData.external]

theorem reread_iff (h : KittyImageData.fromKeys base64 keys payload = some data) :
    data.reread base64 = data ↔ ¬ Offset keys := by
  unfold Offset
  rcases data_cases h with ⟨hnot, text, rfl⟩ | ⟨hexternal, path, rfl | rfl | rfl⟩
  · simp [hnot, KittyImageData.reread]
  · cases geti parseU32 keys ['O'] <;> simp [hexternal, KittyImageData.reread]
  · cases geti parseU32 keys ['O'] <;> simp [hexternal, KittyImageData.reread]
  · cases geti parseU32 keys ['O'] <;> simp [hexternal, KittyImageData.reread]

theorem format_none_iff {format : Option KittyImageFormat}
    (h : KittyImageFormat.fromKeys keys = some format) : format = none ↔ keys.get ['f'] = none := by
  unfold KittyImageFormat.fromKeys at h
  split at h <;> cases h <;> simp [*]

theorem compression_none_iff {compression : KittyImageCompression}
    (h : KittyImageCompression.fromKeys keys = some compression) :
    compression = .none ↔ keys.get ['o'] = none := by
  unfold KittyImageCompression.fromKeys at h
  split at h <;> cases h <;> simp [*]

theorem switch_false_iff {k : Text} {on : Bool} (h : getSwitch keys k = some on) :
    on = false ↔ keys.get k ≠ some ['1'] := by
  unfold getSwitch at h
  split at h <;> cases h <;> simp [*]

theorem verbose_iff (h : KittyImageVerbosity.fromKeys keys = some verbosity) :
    verbosity = .verbose ↔ keys.get ['q'] ≠ some ['1'] ∧ keys.get ['q'] ≠ some ['2'] := by
  unfold KittyImageVerbosity.fromKeys at h
  split at h <;> cases h <;> simp [*]

theorem delete_letter {what : KittyImageDelete} (h : KittyImageDelete.fromKeys keys = some what) :
    ∃ c, (keys.get ['d']).getD ['a'] = [c] ∧ (what.reread = what ↔ c ≠ 'q' ∧ c ≠ 'Q') := by
  unfold KittyImageDelete.fromKeys at h
  dsimp only at h
  generalize hd : (keys.get ['d']).getD ['a'] = text at h
  have hlength : (encodeText text).length = 1 := by
    by_contra hne
    rw [if_pos hne] at h
    cases h
  rw [if_neg (not_not.mpr hlength)] at h
  have hle := length_le_length_encodeText text
  rcases text with _ | ⟨c, _ | ⟨c', text⟩⟩
  · cases hlength
  · refine ⟨c, rfl, ?_⟩
    simp only [List.head?_cons, Option.bind_eq_bind, Option.bind_some, pure] at h
    split at h
    -- The form has no number, one, two or three of them, or the letter is none.
    all_goals try simp only [Option.bind_eq_some_iff, Option.some.injEq, reduceCtorEq] at h
    all_goals
      first
        | obtain rfl := h
        | obtain ⟨_, -, rfl⟩ := h
        | obtain ⟨_, -, _, -, rfl⟩ := h
        | obtain ⟨_, -, _, -, _, -, rfl⟩ := h
      simp [KittyImageDelete.reread]
  · rw [List.length_cons, List.length_cons] at hle
    omega

theorem delete_iff {what : KittyImageDelete} (h : KittyImageDelete.fromKeys keys = some what) :
    what.reread = what ↔ keys.get ['d'] ≠ some ['q'] ∧ keys.get ['d'] ≠ some ['Q'] := by
  obtain ⟨c, hc, hwhat⟩ := delete_letter h
  rw [hwhat]
  cases hd : keys.get ['d'] with
  | none =>
    rw [hd] at hc
    obtain rfl : 'a' = c := List.head_eq_of_cons_eq hc
    decide
  | some text =>
    rw [hd] at hc
    obtain rfl : text = [c] := hc
    simp

/-! ## Transmissions that print nothing -/

theorem erase_eq_nil_iff (keys : Keys) :
    (keys.erase payloadKey).entries = [] ↔ ∀ k, k ≠ payloadKey → keys.get k = none := by
  rw [KeyMap.entries_eq_nil_iff]
  constructor
  · intro h k hk
    rw [← keys.get_erase_of_ne hk]
    exact h k
  · intro h k
    by_cases hk : k = payloadKey
    · rw [hk]
      exact keys.get_erase_self payloadKey
    · rw [keys.get_erase_of_ne hk]
      exact h k hk

theorem silent_iff (hbase : base64.Inverse) {transmit : KittyImageTransmit}
    (hverbosity : KittyImageVerbosity.fromKeys keys = some verbosity)
    (htransmit : KittyImageTransmit.fromKeys base64 keys payload = some transmit) :
    ((transmit.toKeys base64 (verbosity.toKeys KeyMap.empty)).erase payloadKey).entries = [] ↔
      Silent keys := by
  obtain ⟨format, hformat, h⟩ := Option.bind_eq_some_iff.mp htransmit
  obtain ⟨data, hdata, h⟩ := Option.bind_eq_some_iff.mp h
  obtain ⟨compression, hcompression, h⟩ := Option.bind_eq_some_iff.mp h
  obtain ⟨more, hmore, h⟩ := Option.bind_eq_some_iff.mp h
  have htransmit := Option.some.inj h
  rw [erase_eq_nil_iff]
  constructor
  · intro hnone
    -- What was printed is read as nothing, so that it was nothing.
    have hread := KittyImageTransmit.fromKeys_toKeys base64 hbase transmit
      (verbosity.toKeys KeyMap.empty) KeyMap.empty
      (fun k hk => KittyImageVerbosity.get_toKeys (by revert k; decide) verbosity KeyMap.empty)
      (fun k hk => (hnone k (by revert k; decide)).symm)
    have hquiet := KittyImageVerbosity.fromKeys_toKeys verbosity KeyMap.empty
      KeyMap.empty (fun k _ => rfl) (fun k hk => by
        have hne : k ≠ payloadKey := by revert k; decide
        rw [← KittyImageTransmit.get_toKeys base64 (by revert k; decide) transmit
          (verbosity.toKeys KeyMap.empty), hnone k hne]
        rfl)
    simp only [KittyImageTransmit.fromKeys, KittyImageFormat.fromKeys, KittyImageData.fromKeys,
      KittyImageCompression.fromKeys, getSwitch, geti, KeyMap.get_empty, fromUtf8_encodeText,
      Option.getD_none, Option.bind_eq_bind, Option.bind_some, Option.bind_none, pure,
      Option.some.injEq, KittyImageTransmit.mk.injEq] at hread
    rw [← htransmit] at hread
    obtain ⟨hf, hd, hs, hv, hi, hI, ho, hm⟩ := hread
    refine ⟨(format_none_iff hformat).mp hf.symm, hs.symm, hv.symm, hi.symm, hI.symm,
      (compression_none_iff hcompression).mp ho.symm, (switch_false_iff hmore).mp hm.symm, ?_,
      (verbose_iff hverbosity).mp (Option.some.inj hquiet).symm⟩
    rw [← external_iff hdata]
    cases data with
    | direct d => exact Bool.false_ne_true
    | directBin d => exact Bool.false_ne_true
    | file path size offset => cases hd
    | temporaryFile path size offset => cases hd
    | sharedMem name size offset => cases hd
  · rintro ⟨hf, hs, hv, hi, hI, ho, hm, ht, hq⟩
    obtain rfl := (format_none_iff hformat).mpr hf
    obtain rfl := (compression_none_iff hcompression).mpr ho
    obtain rfl := (switch_false_iff hmore).mpr hm
    obtain rfl := (verbose_iff hverbosity).mpr hq
    rcases data_cases hdata with ⟨-, text, rfl⟩ | ⟨hexternal, -⟩
    · intro k hk
      rw [← htransmit, hs, hv, hi, hI]
      show ((KeyMap.empty : Keys).insert payloadKey text).get k = none
      rw [KeyMap.get_insert, if_neg hk]
      rfl
    · exact absurd hexternal ht

/-! ## The commands -/

theorem fromKeys_cases {image : KittyImage}
    (h : KittyImage.fromKeys base64 keys payload = some image) :
    ∃ verbosity, KittyImageVerbosity.fromKeys keys = some verbosity ∧
      ((action keys = ['t'] ∧ ∃ transmit,
        KittyImageTransmit.fromKeys base64 keys payload = some transmit ∧
        image = .transmitData transmit verbosity) ∨ (action keys = ['q'] ∧ ∃ transmit,
        KittyImageTransmit.fromKeys base64 keys payload = some transmit ∧ image = .query transmit) ∨
      (action keys = ['T'] ∧ ∃ transmit placement,
        image = .transmitDataAndDisplay transmit placement verbosity) ∨
      (action keys = ['p'] ∧ ∃ imageId imageNumber placement,
        image = .display imageId imageNumber placement verbosity) ∨ (action keys = ['d'] ∧ ∃ what,
        KittyImageDelete.fromKeys keys = some what ∧ image = .delete what verbosity) ∨
      (action keys = ['f'] ∧ ∃ transmit frame,
        KittyImageTransmit.fromKeys base64 keys payload = some transmit ∧
        frame.Proper ∧ image = .transmitFrame transmit frame verbosity) ∨
      (action keys = ['c'] ∧ ∃ frame,
        KittyImageFrameCompose.Proper frame ∧ image = .composeFrame frame verbosity)) := by
  obtain ⟨verbosity, hverbosity, h⟩ := Option.bind_eq_some_iff.mp h
  refine ⟨verbosity, hverbosity, ?_⟩
  split at h
  · next haction =>
    obtain ⟨transmit, htransmit, h⟩ := Option.bind_eq_some_iff.mp h
    exact Or.inl ⟨haction, transmit, htransmit, (Option.some.inj h).symm⟩
  · next haction =>
    obtain ⟨transmit, htransmit, h⟩ := Option.bind_eq_some_iff.mp h
    exact Or.inr (Or.inl ⟨haction, transmit, htransmit, (Option.some.inj h).symm⟩)
  · next haction =>
    obtain ⟨transmit, -, h⟩ := Option.bind_eq_some_iff.mp h
    obtain ⟨placement, -, h⟩ := Option.bind_eq_some_iff.mp h
    exact Or.inr (Or.inr (Or.inl ⟨haction, transmit, placement, (Option.some.inj h).symm⟩))
  · next haction =>
    obtain ⟨placement, -, h⟩ := Option.bind_eq_some_iff.mp h
    exact Or.inr (Or.inr (Or.inr (Or.inl
      ⟨haction, _, _, placement, (Option.some.inj h).symm⟩)))
  · next haction =>
    obtain ⟨what, hwhat, h⟩ := Option.bind_eq_some_iff.mp h
    exact Or.inr (Or.inr (Or.inr (Or.inr (Or.inl
      ⟨haction, what, hwhat, (Option.some.inj h).symm⟩))))
  · next haction =>
    obtain ⟨transmit, htransmit, h⟩ := Option.bind_eq_some_iff.mp h
    obtain ⟨frame, hframe, h⟩ := Option.bind_eq_some_iff.mp h
    exact Or.inr (Or.inr (Or.inr (Or.inr (Or.inr (Or.inl ⟨haction, transmit, frame, htransmit,
      KittyImageFrame.proper_of_fromKeys hframe, (Option.some.inj h).symm⟩)))))
  · next haction =>
    obtain ⟨frame, hframe, h⟩ := Option.bind_eq_some_iff.mp h
    exact Or.inr (Or.inr (Or.inr (Or.inr (Or.inr (Or.inr ⟨haction, frame,
      KittyImageFrameCompose.proper_of_fromKeys hframe, (Option.some.inj h).symm⟩)))))
  · cases h

theorem fromKeys_erase (keys : Keys) (payload : List UInt8) :
    KittyImage.fromKeys base64 (keys.erase payloadKey) payload =
      KittyImage.fromKeys base64 keys payload := by
  have hget : ∀ c : Char, (keys.erase payloadKey).get [c] = keys.get [c] := fun c =>
    keys.get_erase_of_ne (by simp [payloadKey])
  simp only [KittyImage.fromKeys, action, KittyImageVerbosity.fromKeys, KittyImageTransmit.fromKeys,
    KittyImageFormat.fromKeys, KittyImageData.fromKeys, KittyImageCompression.fromKeys,
    KittyImagePlacement.fromKeys, KittyImageDelete.fromKeys, KittyImageFrame.fromKeys,
    KittyImageFrameCompose.fromKeys, KittyFrameCompositionMode.fromKeys, getSwitch, getPositive,
    geti, hget]

theorem parse_of_key (image : KittyImage) {printed : Keys}
    (hprinted : image.toKeys base64 KeyMap.empty = printed) {k v : Text} (hk : k ≠ payloadKey)
    (hkey : printed.get k = some v) : parseApc base64 (encodeText ((toText base64 image).drop 2)) =
      KittyImage.fromKeys base64 printed (encodeText ((printed.get payloadKey).getD [])) := by
  rw [parseApc_toText base64 image hprinted, if_neg, fromKeys_erase]
  intro hempty
  rw [(erase_eq_nil_iff printed).mp hempty k hk] at hkey
  cases hkey

theorem parse_display (imageId imageNumber : Option UInt32) (placement : KittyImagePlacement)
    (verbosity : KittyImageVerbosity) : parseApc base64 (encodeText ((toText base64
      (.display imageId imageNumber placement verbosity)).drop 2)) =
      some (.display imageId imageNumber placement verbosity) := by
  obtain ⟨printed, hprinted⟩ : ∃ printed, toKeys base64
    (.display imageId imageNumber placement verbosity) KeyMap.empty = printed := ⟨_, rfl⟩
  have ha : printed.get ['a'] = some ['p'] := by
    simp [← hprinted, toKeys, KittyImagePlacement.names, KittyImageVerbosity.names]
  have hverbosity := verbosity.fromKeys_toKeys (KeyMap.insert KeyMap.empty ['a'] ['p'])
    printed (by simp [Keys.Free, KittyImageVerbosity.names])
    (by simp [Keys.Same, KittyImageVerbosity.names, KittyImagePlacement.names, ← hprinted, toKeys])
  have hplacement := placement.fromKeys_toKeys
    (verbosity.toKeys (KeyMap.insert KeyMap.empty ['a'] ['p'])) printed
    (by simp [Keys.Free, KittyImagePlacement.names, KittyImageVerbosity.names])
    (by simp [Keys.Same, KittyImagePlacement.names, ← hprinted, toKeys])
  have hi : geti parseU32 printed ['i'] = imageId := by
    simp [geti, ← hprinted, toKeys, KittyImagePlacement.names, KittyImageVerbosity.names]
  have hI : geti parseU32 printed ['I'] = imageNumber := by
    simp [geti, ← hprinted, toKeys, KittyImagePlacement.names, KittyImageVerbosity.names]
  rw [parse_of_key _ hprinted (by decide) ha]
  simp [KittyImage.fromKeys, action, ha, hverbosity, hplacement, hi, hI]

theorem parse_delete (what : KittyImageDelete) (verbosity : KittyImageVerbosity) :
    parseApc base64 (encodeText ((toText base64 (.delete what verbosity)).drop 2)) =
      some (.delete what.reread verbosity) := by
  obtain ⟨printed, hprinted⟩ : ∃ printed,
    toKeys base64 (.delete what verbosity) KeyMap.empty = printed := ⟨_, rfl⟩
  have ha : printed.get ['a'] = some ['d'] := by
    simp [← hprinted, toKeys, KittyImageDelete.names, KittyImageVerbosity.names]
  have hverbosity := verbosity.fromKeys_toKeys (KeyMap.insert KeyMap.empty ['a'] ['d'])
    printed (by simp [Keys.Free, KittyImageVerbosity.names])
    (by simp [Keys.Same, KittyImageVerbosity.names, KittyImageDelete.names, ← hprinted, toKeys])
  have hwhat := what.fromKeys_toKeys
    (verbosity.toKeys (KeyMap.insert KeyMap.empty ['a'] ['d'])) printed
    (by simp [Keys.Free, KittyImageDelete.names, KittyImageVerbosity.names])
    (by simp [Keys.Same, KittyImageDelete.names, ← hprinted, toKeys])
  rw [parse_of_key _ hprinted (by decide) ha]
  simp [KittyImage.fromKeys, action, ha, hverbosity, hwhat]

theorem parse_composeFrame {frame : KittyImageFrameCompose} (hproper : frame.Proper)
    (verbosity : KittyImageVerbosity) :
    parseApc base64 (encodeText ((toText base64 (.composeFrame frame verbosity)).drop 2)) =
      some (.composeFrame frame verbosity) := by
  obtain ⟨printed, hprinted⟩ : ∃ printed,
    toKeys base64 (.composeFrame frame verbosity) KeyMap.empty = printed := ⟨_, rfl⟩
  have ha : printed.get ['a'] = some ['c'] := by
    simp [← hprinted, toKeys, KittyImageFrameCompose.names, KittyImageVerbosity.names]
  have hframe := KittyImageFrameCompose.fromKeys_toKeys hproper
    (KeyMap.insert KeyMap.empty ['a'] ['c']) printed
    (by simp [Keys.Free, KittyImageFrameCompose.names])
    (by simp [Keys.Same, KittyImageFrameCompose.names, KittyImageVerbosity.names, ← hprinted,
      toKeys])
  have hverbosity := verbosity.fromKeys_toKeys
    (frame.toKeys (KeyMap.insert KeyMap.empty ['a'] ['c'])) printed
    (by simp [Keys.Free, KittyImageFrameCompose.names, KittyImageVerbosity.names])
    (by simp [Keys.Same, KittyImageVerbosity.names, ← hprinted, toKeys])
  rw [parse_of_key _ hprinted (by decide) ha]
  simp [KittyImage.fromKeys, action, ha, hverbosity, hframe]

theorem parse_transmitFrame (hbase : base64.Inverse) (transmit : KittyImageTransmit)
    {frame : KittyImageFrame} (hproper : frame.Proper) (verbosity : KittyImageVerbosity) :
    parseApc base64
      (encodeText ((toText base64 (.transmitFrame transmit frame verbosity)).drop 2)) =
      some (.transmitFrame { transmit with data := transmit.data.reread base64 } frame
        verbosity) := by
  obtain ⟨printed, hprinted⟩ : ∃ printed,
    toKeys base64 (.transmitFrame transmit frame verbosity) KeyMap.empty = printed := ⟨_, rfl⟩
  have ha : printed.get ['a'] = some ['f'] := by
    simp [← hprinted, toKeys, KittyImageFrame.names, KittyImageVerbosity.names,
      KittyImageTransmit.names, payloadKey]
  have hpayload : printed.get payloadKey = some (transmit.data.text base64) := by
    rw [← hprinted]
    show (verbosity.toKeys (frame.toKeys (transmit.toKeys base64 _))).get payloadKey = _
    rw [KittyImageVerbosity.get_toKeys (by decide), KittyImageFrame.get_toKeys (by decide),
      KittyImageTransmit.get_payload]
  have htransmit := transmit.fromKeys_toKeys base64 hbase
    (KeyMap.insert KeyMap.empty ['a'] ['f']) printed
    (by simp [Keys.Free, KittyImageTransmit.names])
    (by simp [Keys.Same, KittyImageTransmit.names, KittyImageVerbosity.names,
      KittyImageFrame.names, ← hprinted, toKeys])
  have hframe := KittyImageFrame.fromKeys_toKeys hproper
    (transmit.toKeys base64 (KeyMap.insert KeyMap.empty ['a'] ['f'])) printed
    (by simp [Keys.Free, KittyImageFrame.names, KittyImageTransmit.names, payloadKey])
    (by simp [Keys.Same, KittyImageFrame.names, KittyImageVerbosity.names, ← hprinted, toKeys])
  have hverbosity := verbosity.fromKeys_toKeys
    (frame.toKeys (transmit.toKeys base64 (KeyMap.insert KeyMap.empty ['a'] ['f'])))
    printed
    (by simp [Keys.Free, KittyImageFrame.names, KittyImageVerbosity.names,
      KittyImageTransmit.names, payloadKey])
    (by simp [Keys.Same, KittyImageVerbosity.names, ← hprinted, toKeys])
  rw [parse_of_key _ hprinted (by decide) ha, hpayload]
  simp [KittyImage.fromKeys, action, ha, hverbosity, hframe, htransmit]

theorem parse_query (hbase : base64.Inverse) (transmit : KittyImageTransmit) :
    parseApc base64 (encodeText ((toText base64 (.query transmit)).drop 2)) =
      some (.query { transmit with data := transmit.data.reread base64 }) := by
  obtain ⟨printed, hprinted⟩ : ∃ printed,
    toKeys base64 (.query transmit) KeyMap.empty = printed := ⟨_, rfl⟩
  have ha : printed.get ['a'] = some ['q'] := by
    simp [← hprinted, toKeys, KittyImageTransmit.names, payloadKey]
  have hpayload : printed.get payloadKey = some (transmit.data.text base64) := by
    rw [← hprinted]
    exact KittyImageTransmit.get_payload base64 transmit _
  have htransmit := transmit.fromKeys_toKeys base64 hbase
    (KeyMap.insert KeyMap.empty ['a'] ['q']) printed
    (by simp [Keys.Free, KittyImageTransmit.names])
    (by simp [Keys.Same, KittyImageTransmit.names, ← hprinted, toKeys])
  have hverbosity : KittyImageVerbosity.fromKeys printed = some .verbose := by
    have hq : printed.get ['q'] = none := by
      simp [← hprinted, toKeys, KittyImageTransmit.names, payloadKey]
    simp [KittyImageVerbosity.fromKeys, hq]
  rw [parse_of_key _ hprinted (by decide) ha, hpayload]
  simp [KittyImage.fromKeys, action, ha, hverbosity, htransmit]

theorem parse_transmitData (hbase : base64.Inverse) (transmit : KittyImageTransmit)
    (verbosity : KittyImageVerbosity) :
    parseApc base64 (encodeText ((toText base64 (.transmitData transmit verbosity)).drop 2)) =
      if ((transmit.toKeys base64 (verbosity.toKeys KeyMap.empty)).erase payloadKey).entries = []
      then none
      else some (.transmitData { transmit with data := transmit.data.reread base64 }
        verbosity) := by
  obtain ⟨printed, hprinted⟩ : ∃ printed,
    toKeys base64 (.transmitData transmit verbosity) KeyMap.empty = printed := ⟨_, rfl⟩
  have ha : printed.get ['a'] = none := by
    simp [← hprinted, toKeys, KittyImageTransmit.names, KittyImageVerbosity.names, payloadKey]
  have hpayload : printed.get payloadKey = some (transmit.data.text base64) := by
    rw [← hprinted]
    exact KittyImageTransmit.get_payload base64 transmit _
  have hverbosity := verbosity.fromKeys_toKeys KeyMap.empty printed
    (by simp [Keys.Free, KittyImageVerbosity.names])
    (by simp [Keys.Same, KittyImageVerbosity.names, KittyImageTransmit.names, payloadKey,
      ← hprinted, toKeys])
  have htransmit := transmit.fromKeys_toKeys base64 hbase
    (verbosity.toKeys KeyMap.empty) printed
    (by simp [Keys.Free, KittyImageTransmit.names, KittyImageVerbosity.names])
    (by simp [Keys.Same, KittyImageTransmit.names, ← hprinted, toKeys])
  rw [parseApc_toText base64 _ hprinted, fromKeys_erase, hpayload, ← hprinted]
  refine if_congr Iff.rfl rfl ?_
  rw [hprinted]
  simp [KittyImage.fromKeys, action, ha, hverbosity, htransmit]

theorem parse_transmitDataAndDisplay (transmit : KittyImageTransmit)
    (placement : KittyImagePlacement) (verbosity : KittyImageVerbosity) :
    parseApc base64 (encodeText ((toText base64
      (.transmitDataAndDisplay transmit placement verbosity)).drop 2)) = none := by
  obtain ⟨printed, hprinted⟩ : ∃ printed, toKeys base64
    (.transmitDataAndDisplay transmit placement verbosity) KeyMap.empty = printed := ⟨_, rfl⟩
  have ha : printed.get ['a'] = some ['Q'] := by
    simp [← hprinted, toKeys, KittyImagePlacement.names, KittyImageVerbosity.names,
      KittyImageTransmit.names, payloadKey]
  rw [parse_of_key _ hprinted (by decide) ha]
  simp [KittyImage.fromKeys, action, ha]

/-! ## Commands that were parsed -/

/-- The keys of an APC string. -/
def keysOf (data : List UInt8) : Keys := ((splitKeys data.tail).map Prod.fst).getD KeyMap.empty

theorem parseApc_cases {data : List UInt8} {image : KittyImage}
    (h : parseApc base64 data = some image) :
    ∃ payload, KittyImage.fromKeys base64 (keysOf data) payload = some image := by
  cases data with
  | nil => cases h
  | cons first data =>
    rw [parseApc] at h
    split at h
    · cases h
    · obtain ⟨⟨keys, payload⟩, hsplit, himage⟩ := Option.bind_eq_some_iff.mp h
      refine ⟨payload, ?_⟩
      unfold keysOf
      rw [List.tail_cons, hsplit]
      exact himage

/-- **A command that was parsed and is printed is parsed as the same command, exactly if its data
have no offset, it is no transmission with display and no deletion by depth, and it does not print
an empty list of keys.** -/
theorem kitty_round_trip_iff (hbase : base64.Inverse) {data : List UInt8} {image : KittyImage}
    (h : parseApc base64 data = some image) :
    parseApc base64 (encodeText ((toText base64 image).drop 2)) = some image ↔
      Reprinted (keysOf data) := by
  obtain ⟨payload, himage⟩ := parseApc_cases h
  generalize keysOf data = keys at himage
  have hreread : ∀ {transmit : KittyImageTransmit},
      KittyImageTransmit.fromKeys base64 keys payload = some transmit →
      (transmit.data.reread base64 = transmit.data ↔ ¬ Offset keys) := by
    intro transmit htransmit
    obtain ⟨format, -, htransmit⟩ := Option.bind_eq_some_iff.mp htransmit
    obtain ⟨data, hdata, htransmit⟩ := Option.bind_eq_some_iff.mp htransmit
    obtain ⟨compression, -, htransmit⟩ := Option.bind_eq_some_iff.mp htransmit
    obtain ⟨more, -, htransmit⟩ := Option.bind_eq_some_iff.mp htransmit
    cases htransmit
    exact reread_iff hdata
  have hsame : ∀ transmit : KittyImageTransmit,
      ({ transmit with data := transmit.data.reread base64 } : KittyImageTransmit) = transmit ↔
        transmit.data.reread base64 = transmit.data := by
    intro transmit
    rw [KittyImageTransmit.mk.injEq]
    simp
  obtain ⟨verbosity, hverbosity, himage⟩ := fromKeys_cases himage
  rcases himage with ⟨haction, transmit, htransmit, rfl⟩ | ⟨haction, transmit, htransmit, rfl⟩ |
    ⟨haction, transmit, placement, rfl⟩ | ⟨haction, imageId, imageNumber, placement, rfl⟩ |
    ⟨haction, what, hwhat, rfl⟩ | ⟨haction, transmit, frame, htransmit, hproper, rfl⟩ |
    ⟨haction, frame, hproper, rfl⟩
  · have hiff : Reprinted keys ↔ ¬ Offset keys ∧ ¬ Silent keys :=
      ⟨fun hre => hre.transmit haction, fun hre => ⟨fun _ => hre, by simp [haction],
        by simp [haction], by simp [haction], by simp [haction]⟩⟩
    rw [parse_transmitData hbase, hiff, ← silent_iff hbase hverbosity htransmit,
      ← hreread htransmit, ← hsame]
    split
    · next hempty => simp [hempty]
    · next hempty => simp [hempty]
  · have hiff : Reprinted keys ↔ ¬ Offset keys :=
      ⟨fun hre => hre.query haction, fun hre => ⟨by simp [haction], fun _ => hre,
        by simp [haction], by simp [haction], by simp [haction]⟩⟩
    rw [parse_query hbase, hiff, ← hreread htransmit, ← hsame, Option.some.injEq,
      KittyImage.query.injEq]
  · rw [parse_transmitDataAndDisplay]
    exact ⟨fun hnone => absurd hnone (Option.some_ne_none _).symm,
      fun hre => absurd haction hre.display⟩
  · rw [parse_display]
    exact iff_of_true rfl ⟨by simp [haction], by simp [haction], by simp [haction],
      by simp [haction], by simp [haction]⟩
  · have hiff : Reprinted keys ↔ keys.get ['d'] ≠ some ['q'] ∧ keys.get ['d'] ≠ some ['Q'] :=
      ⟨fun hre => hre.delete haction, fun hre => ⟨by simp [haction], by simp [haction],
        by simp [haction], by simp [haction], fun _ => hre⟩⟩
    rw [parse_delete, hiff, ← delete_iff hwhat, Option.some.injEq, KittyImage.delete.injEq]
    exact and_iff_left rfl
  · have hiff : Reprinted keys ↔ ¬ Offset keys :=
      ⟨fun hre => hre.frame haction, fun hre => ⟨by simp [haction], by simp [haction],
        fun _ => hre, by simp [haction], by simp [haction]⟩⟩
    rw [parse_transmitFrame hbase transmit hproper, hiff, ← hreread htransmit, ← hsame,
      Option.some.injEq, KittyImage.transmitFrame.injEq]
    exact and_iff_left ⟨rfl, rfl⟩
  · rw [parse_composeFrame hproper]
    exact iff_of_true rfl ⟨by simp [haction], by simp [haction], by simp [haction],
      by simp [haction], by simp [haction]⟩

/-- The string `Gt=f,S=2;YQ==`: a file with a size. -/
def sized : List UInt8 :=
  encodeText ['G', 't', '=', 'f', ',', 'S', '=', '2', ';', 'Y', 'Q', '=', '=']

/-- The string `Gt=f,O=2;YQ==`: a file with an offset. -/
def displaced : List UInt8 :=
  encodeText ['G', 't', '=', 'f', ',', 'O', '=', '2', ';', 'Y', 'Q', '=', '=']

def transmission (size offset : Option UInt32) : KittyImage :=
  .transmitData ⟨none, .file ['a'] size offset, none, none, none, none, .none, false⟩ .verbose

theorem kitty_round_trip_sized :
    parseApc Base64.standard sized = some (transmission (some 2) none) ∧
      Reprinted (keysOf sized) := by
  have hparse : parseApc Base64.standard sized = some (transmission (some 2) none) := by decide
  exact ⟨hparse, (kitty_round_trip_iff Base64.inverse_standard hparse).mp (by decide)⟩

/-- The offset is printed as the size. -/
theorem offset_printed_as_size :
    ¬ ∀ (data : List UInt8) (image : KittyImage), parseApc Base64.standard data = some image →
      parseApc Base64.standard (encodeText ((toText Base64.standard image).drop 2)) =
        some image := by
  intro h
  have hback := h displaced (transmission none (some 2)) (by decide)
  have hsize : parseApc Base64.standard
      (encodeText ((toText Base64.standard (transmission none (some 2))).drop 2)) =
      some (transmission (some 2) none) := by decide
  rw [hsize] at hback
  exact absurd hback (by decide)

end Wakterm.Theorems.KittyRoundTrip

/-!
## Theorem: kitty images are kept account of

In a run where no request with a number fails or finds the ids used up, no image takes the place of
one that counts under the id zero, and none goes to the id of a number that stands for another
image, the bytes add up, every number resolves to its image, and every step is right.
-/

namespace Wakterm.Term.Kitty

open Machine

/-- A whole request, and what becomes of it. -/
def whole (imageId imageNumber : Option ImageId) (outcome : Outcome) : Command :=
  .transmit ⟨imageId, imageNumber, 4, false, none⟩ outcome [] false

end Wakterm.Term.Kitty
