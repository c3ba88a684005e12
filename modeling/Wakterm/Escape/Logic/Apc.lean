import Wakterm.Escape.Logic.Keys

/-!
# What is printed for a command, and parsed

Neither the keys nor the values that are printed have a separator in them, so that the keys are read
as they were, without the payload; unless there are none, which is no list of keys.
-/

namespace Wakterm.Escape

open Wakterm.Machine

variable {α : Type} {keys : Keys} {k v : Text}

/-- A key without separators. -/
def PlainKey (k : Text) : Prop := '=' ∉ k ∧ ',' ∉ k ∧ ';' ∉ k

instance (k : Text) : Decidable (PlainKey k) := inferInstanceAs (Decidable (_ ∧ _))

/-- A value without separators. -/
def PlainValue (v : Text) : Prop := ',' ∉ v ∧ ';' ∉ v

instance (v : Text) : Decidable (PlainValue v) := inferInstanceAs (Decidable (_ ∧ _))

/-- There are no separators but in the payload. -/
def Keys.Plain (keys : Keys) : Prop :=
  ∀ entry ∈ keys.entries, entry.1 ≠ payloadKey → PlainKey entry.1 ∧ PlainValue entry.2

theorem plain_empty : Keys.Plain KeyMap.empty := fun _ h => absurd h List.not_mem_nil

theorem plain_insert (hk : PlainKey k) (hv : PlainValue v) (h : keys.Plain) :
    Keys.Plain (keys.insert k v) := by
  intro entry hentry hne
  rcases mem_insertSorted hentry with rfl | hentry
  · exact ⟨hk, hv⟩
  · exact h entry hentry hne

theorem plain_insert_payload (v : Text) (h : keys.Plain) :
    Keys.Plain (keys.insert payloadKey v) := by
  intro entry hentry hne
  rcases mem_insertSorted hentry with rfl | hentry
  · exact absurd rfl hne
  · exact h entry hentry hne

theorem plainValue_printNat (n : Nat) : PlainValue (printNat n) := by
  refine ⟨fun h => ?_, fun h => ?_⟩
  · exact absurd (isDigit_of_mem_printNat h) (by decide)
  · exact absurd (isDigit_of_mem_printNat h) (by decide)

theorem plainValue_printI32 (n : Int32) : PlainValue (printI32 n) := by
  unfold printI32
  cases n.toInt with
  | ofNat n => exact plainValue_printNat n
  | negSucc n =>
    obtain ⟨hcomma, hsemicolon⟩ := plainValue_printNat (n + 1)
    exact ⟨List.not_mem_cons_of_ne_of_not_mem (by decide) hcomma,
      List.not_mem_cons_of_ne_of_not_mem (by decide) hsemicolon⟩

theorem plain_setU32 (v : Option UInt32) (hk : PlainKey k) (h : keys.Plain) :
    Keys.Plain (set printU32 keys k v) := by
  cases v with
  | none => exact h
  | some v => exact plain_insert hk (plainValue_printNat v.toNat) h

theorem plain_setI32 (v : Option Int32) (hk : PlainKey k) (h : keys.Plain) :
    Keys.Plain (set printI32 keys k v) := by
  cases v with
  | none => exact h
  | some v => exact plain_insert hk (plainValue_printI32 v) h

variable (base64 : Base64)

theorem KittyImageVerbosity.plain_toKeys (verbosity : KittyImageVerbosity) (h : keys.Plain) :
    Keys.Plain (verbosity.toKeys keys) := by
  cases verbosity with
  | verbose => exact h
  | onlyErrors => exact plain_insert (by decide) (by decide) h
  | quiet => exact plain_insert (by decide) (by decide) h

theorem KittyImageFormat.plain_toKeys (format : KittyImageFormat) (h : keys.Plain) :
    Keys.Plain (format.toKeys keys) := by
  cases format <;> exact plain_insert (by decide) (by decide) h

theorem KittyImageCompression.plain_toKeys (compression : KittyImageCompression) (h : keys.Plain) :
    Keys.Plain (compression.toKeys keys) := by
  cases compression with
  | none => exact h
  | deflate => exact plain_insert (by decide) (by decide) h

theorem KittyImageData.plain_toKeys (data : KittyImageData) (h : keys.Plain) :
    Keys.Plain (data.toKeys base64 keys) := by
  have hexternal : ∀ t path size offset, PlainValue t →
      Keys.Plain (externalToKeys base64 t path size offset keys) := by
    intro t path size offset ht
    refine plain_setU32 _ (by decide) (plain_setU32 _ (by decide) ?_)
    exact plain_insert_payload _ (plain_insert (by decide) ht h)
  cases data with
  | direct d => exact plain_insert_payload d h
  | directBin d => exact plain_insert_payload _ h
  | file path size offset => exact hexternal _ path size offset (by decide)
  | temporaryFile path size offset => exact hexternal _ path size offset (by decide)
  | sharedMem name size offset => exact hexternal _ name size offset (by decide)

theorem KittyImageTransmit.plain_toKeys (transmit : KittyImageTransmit) (h : keys.Plain) :
    Keys.Plain (transmit.toKeys base64 keys) := by
  have hnumbers {keys : Keys} (h : keys.Plain) :=
    plain_setU32 transmit.imageNumber (k := ['I']) (by decide)
      (plain_setU32 transmit.imageId (k := ['i']) (by decide)
        (plain_setU32 transmit.height (k := ['v']) (by decide)
          (plain_setU32 transmit.width (k := ['s']) (by decide) h)))
  have hmore {keys : Keys} (h : keys.Plain) :
      Keys.Plain (if transmit.moreDataFollows then keys.insert ['m'] ['1'] else keys) := by
    split
    · exact plain_insert (by decide) (by decide) h
    · exact h
  refine KittyImageData.plain_toKeys base64 _ (KittyImageCompression.plain_toKeys _
    (hmore (hnumbers ?_)))
  split
  · exact KittyImageFormat.plain_toKeys _ h
  · exact h

theorem KittyImagePlacement.plain_toKeys (placement : KittyImagePlacement) (h : keys.Plain) :
    Keys.Plain (placement.toKeys keys) := by
  refine plain_setI32 _ (by decide) ?_
  split
  · refine plain_insert (by decide) (by decide) ?_
    repeat refine plain_setU32 _ (by decide) ?_
    exact h
  · repeat refine plain_setU32 _ (by decide) ?_
    exact h

theorem KittyImageDelete.plainValue_d {c : Char} (hc : PlainValue [c])
    (hupper : PlainValue [c.toUpper]) (delete : Bool) : PlainValue (d c delete) := by
  cases delete with
  | false => exact hc
  | true => exact hupper

theorem KittyImageDelete.plain_toKeys (what : KittyImageDelete) (h : keys.Plain) :
    Keys.Plain (what.toKeys keys) := by
  cases what <;> simp only [toKeys]
  all_goals
    repeat first
      | exact h
      | exact plainValue_d (by decide) (by decide) _
      | exact plainValue_printNat _
      | exact plainValue_printI32 _
      | refine plain_setU32 _ (by decide) ?_
      | refine plain_insert (by decide) ?_ ?_

theorem KittyFrameCompositionMode.plain_toKeys (mode : KittyFrameCompositionMode)
    (hk : PlainKey k) (h : keys.Plain) : Keys.Plain (mode.toKeys keys k) := by
  cases mode with
  | alphaBlending => exact h
  | overwrite => exact plain_insert hk (by decide) h

theorem KittyImageFrameCompose.plain_toKeys (frame : KittyImageFrameCompose) (h : keys.Plain) :
    Keys.Plain (frame.toKeys keys) := by
  refine KittyFrameCompositionMode.plain_toKeys _ (by decide) ?_
  repeat refine plain_setU32 _ (by decide) ?_
  exact h

theorem KittyImageFrame.plain_toKeys (frame : KittyImageFrame) (h : keys.Plain) :
    Keys.Plain (frame.toKeys keys) := by
  refine plain_setU32 _ (by decide) (KittyFrameCompositionMode.plain_toKeys _ (by decide) ?_)
  repeat refine plain_setU32 _ (by decide) ?_
  exact h

namespace KittyImage

/-- No key and no value has a separator in it. -/
theorem plain_toKeys (image : KittyImage) : Keys.Plain (image.toKeys base64 KeyMap.empty) := by
  have haction : ∀ a, PlainValue a →
      Keys.Plain ((KeyMap.empty : Keys).insert ['a'] a) := fun a ha =>
    plain_insert (by decide) ha plain_empty
  cases image with
  | transmitData transmit verbosity =>
    exact transmit.plain_toKeys base64 (verbosity.plain_toKeys plain_empty)
  | transmitDataAndDisplay transmit placement verbosity =>
    exact transmit.plain_toKeys base64
      (placement.plain_toKeys (verbosity.plain_toKeys (haction _ (by decide))))
  | display imageId imageNumber placement verbosity =>
    refine plain_setU32 _ (by decide) (plain_setU32 _ (by decide) ?_)
    exact placement.plain_toKeys (verbosity.plain_toKeys (haction _ (by decide)))
  | delete what verbosity =>
    exact what.plain_toKeys (verbosity.plain_toKeys (haction _ (by decide)))
  | query transmit => exact transmit.plain_toKeys base64 (haction _ (by decide))
  | transmitFrame transmit frame verbosity =>
    exact verbosity.plain_toKeys
      (frame.plain_toKeys (transmit.plain_toKeys base64 (haction _ (by decide))))
  | composeFrame frame verbosity =>
    exact verbosity.plain_toKeys (frame.plain_toKeys (haction _ (by decide)))

theorem insertPair_printPair (keys : Keys) {entry : Text × Text} (h : PlainKey entry.1) :
    insertPair keys (printPair entry) = some (keys.insert entry.1 entry.2) := by
  unfold insertPair printPair
  rw [splitOnce_append h.1]
  rfl

theorem foldlM_insertPair {entries : List (Text × Text)} (h : ∀ entry ∈ entries, PlainKey entry.1)
    (keys : Keys) : (entries.map printPair).foldlM insertPair keys =
      some (entries.foldl (fun keys entry => keys.insert entry.1 entry.2) keys) := by
  induction entries generalizing keys with
  | nil => rfl
  | cons entry entries ih =>
    rw [List.map_cons, List.foldlM_cons, insertPair_printPair keys (h entry List.mem_cons_self)]
    exact ih (fun entry hentry => h entry (List.mem_cons_of_mem _ hentry)) _

theorem not_mem_printPair {entry : Text × Text} (hkey : PlainKey entry.1)
    (hvalue : PlainValue entry.2) : ',' ∉ printPair entry ∧ ';' ∉ printPair entry := by
  simp only [printPair, List.mem_append, List.mem_cons, not_or]
  exact ⟨⟨hkey.2.1, by decide, hvalue.1⟩, ⟨hkey.2.2, by decide, hvalue.2⟩⟩

theorem not_mem_intercalate {c s : Char} (hsep : c ≠ s) {texts : List Text}
    (h : ∀ text ∈ texts, c ∉ text) : c ∉ List.intercalate [s] texts := by
  induction texts with
  | nil => exact List.not_mem_nil
  | cons text texts ih =>
    have hfirst := h text List.mem_cons_self
    have hrest := ih fun text htext => h text (List.mem_cons_of_mem _ htext)
    cases texts with
    | nil => simpa using hfirst
    | cons text' texts =>
      rw [List.intercalate_cons_cons]
      simp only [List.mem_append, List.mem_singleton, not_or]
      exact ⟨⟨hfirst, hsep⟩, hrest⟩

/-- What is printed is split into the same keys. -/
theorem splitKeys_printKeys (h : keys.Plain) : splitKeys (encodeText (printKeys keys)) =
      if (keys.erase payloadKey).entries = [] then none
      else some (keys.erase payloadKey, encodeText ((keys.get payloadKey).getD [])) := by
  have hplain : ∀ entry ∈ (keys.erase payloadKey).entries,
      PlainKey entry.1 ∧ PlainValue entry.2 := by
    intro entry hentry
    obtain ⟨hentry, hne⟩ := List.mem_filter.mp hentry
    exact h entry hentry (by simpa using hne)
  have htexts : ∀ text ∈ (keys.erase payloadKey).entries.map printPair,
      ',' ∉ text ∧ ';' ∉ text := by
    intro text htext
    obtain ⟨entry, hentry, rfl⟩ := List.mem_map.mp htext
    exact not_mem_printPair (hplain entry hentry).1 (hplain entry hentry).2
  unfold printKeys
  generalize hfront : List.intercalate [','] ((keys.erase payloadKey).entries.map printPair) = front
  have hsemicolon : (0x3b : UInt8) ∉ encodeText front := by
    intro hmem
    refine not_mem_intercalate (c := ';') (s := ',') (by decide)
      (fun text htext => (htexts text htext).2) ?_
    rw [hfront]
    exact mem_of_mem_encodeText (by decide) hmem
  have hsplit : splitOnce 0x3b (encodeText (front ++ printPayload (keys.get payloadKey))) =
      (encodeText front, (keys.get payloadKey).map encodeText) := by
    rw [encodeText_append]
    cases keys.get payloadKey with
    | none =>
      show splitOnce 0x3b (encodeText front ++ []) = _
      rw [List.append_nil]
      exact splitOnce_of_not_mem hsemicolon
    | some p => exact splitOnce_append hsemicolon (encodeText p)
  unfold splitKeys
  rw [hsplit]
  simp only [fromUtf8_encodeText, Option.bind_eq_bind, Option.bind_some]
  by_cases hempty : (keys.erase payloadKey).entries = []
  · rw [if_pos hempty]
    rw [hempty] at hfront
    obtain rfl : front = [] := hfront.symm
    rfl
  · rw [if_neg hempty, ← hfront,
      List.splitOn_intercalate _ (fun text htext => (htexts text htext).1) (by simpa using hempty),
      foldlM_insertPair fun entry hentry => (hplain entry hentry).1]
    have hall := KeyMap.ofEntries_entries (keys.erase payloadKey)
    unfold KeyMap.ofEntries at hall
    rw [hall]
    cases keys.get payloadKey with
    | none => rfl
    | some p => rfl

/-- The text of an image is parsed by its keys. -/
theorem parseApc_toText (image : KittyImage) {keys : Keys}
    (hkeys : image.toKeys base64 KeyMap.empty = keys) :
    parseApc base64 (encodeText ((toText base64 image).drop 2)) =
      if (keys.erase payloadKey).entries = [] then none else fromKeys base64 (keys.erase payloadKey)
        (encodeText ((keys.get payloadKey).getD [])) := by
  have hplain : keys.Plain := hkeys ▸ plain_toKeys base64 image
  show parseApc base64 (encodeText ('G' :: printKeys (image.toKeys base64 KeyMap.empty))) = _
  rw [hkeys, encodeText_cons]
  show parseApc base64 (0x47 :: encodeText (printKeys keys)) = _
  rw [parseApc, if_neg (by decide), splitKeys_printKeys hplain]
  split
  · rfl
  · rfl

end KittyImage

end Wakterm.Escape
