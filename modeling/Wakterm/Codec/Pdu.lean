import Wakterm.Codec.Frame

/-!
# The PDUs of the mux protocol

`Pdu` and its encoder, decoder and stream reader, from `codec/src/lib.rs`.
-/

namespace Wakterm.Codec

open Wakterm.Machine

/-- The variants that the `pdu!` call gives to `Pdu`, all but `Invalid`. -/
inductive PduKind where
  | errorResponse | ping | pong | listPanes | listPanesResponse | spawnResponse | writeToPane
  | unitResponse | sendKeyDown | sendMouseEvent | sendPaste | resize | setClipboard | getLines
  | getLinesResponse | getPaneRenderChanges | getPaneRenderChangesResponse | getCodecVersion
  | getCodecVersionResponse | getTlsCreds | getTlsCredsResponse | livenessResponse
  | searchScrollbackRequest | searchScrollbackResponse | setPaneZoomed | splitPane | killPane
  | spawnV2 | paneRemoved | setPalette | notifyAlert | setClientId | getClientList
  | getClientListResponse | setWindowWorkspace | windowWorkspaceChanged | setFocusedPane
  | getImageCell | getImageCellResponse | movePaneToNewTab | movePaneToNewTabResponse
  | activatePaneDirection | getPaneRenderableDimensions | getPaneRenderableDimensionsResponse
  | paneFocused | tabResized | tabAddedToWindow | tabTitleChanged | windowTitleChanged
  | renameWorkspace | eraseScrollbackRequest | getPaneDirection | getPaneDirectionResponse
  | adjustPaneSize | resizeTab | rotatePanes | setClientActiveTab | listAgents
  | listAgentsResponse | setAgentMetadata | clearAgentMetadata | listAgentsCached
  | listAgentsCachedResponse | setTabOrder | tabOrderChanged | submitAgentRequest
  | submitAgentRequestResponse | getAgentRequest | getAgentRequestResponse
  | listAgentRequestEvents | listAgentRequestEventsResponse | cancelAgentRequest
  | cancelAgentRequestResponse | readAgentOutput | readAgentOutputResponse
  | getAgentApiCapabilities | getAgentApiCapabilitiesResponse | listAgentApiCatalog
  | listAgentApiCatalogResponse | admitAgentPrompt | admitAgentPromptResponse | readAgentEvents
  | readAgentEventsResponse | prepareCodexLaunch | preparedCodexLaunch | setParkedTabs
  | parkedTabsChanged | acknowledgeAgentAttention | agentMetadataChanged | getPaneStatus
  | getPaneStatusResponse | promoteCodexAppServer | resolveAgentApproval
  | resolveAgentApprovalResponse | submitTypedInput | createAgentReminder
  | agentReminderResponse | listAgentReminders | listAgentRemindersResponse
  | cancelAgentReminder | cancelAgentReminderResponse | prepareAgentInputBox
  | prepareAgentInputBoxResponse | submitTypedInputResponse
  deriving DecidableEq

/-- The `pdu!` call: each variant with its identifying number. -/
def PduKind.table : List (PduKind × UInt64) :=
  [(.errorResponse, 0), (.ping, 1), (.pong, 2), (.listPanes, 3), (.listPanesResponse, 4),
   (.spawnResponse, 8), (.writeToPane, 9), (.unitResponse, 10), (.sendKeyDown, 11),
   (.sendMouseEvent, 12), (.sendPaste, 13), (.resize, 14), (.setClipboard, 20),
   (.getLines, 22), (.getLinesResponse, 23), (.getPaneRenderChanges, 24),
   (.getPaneRenderChangesResponse, 25), (.getCodecVersion, 26), (.getCodecVersionResponse, 27),
   (.getTlsCreds, 28), (.getTlsCredsResponse, 29), (.livenessResponse, 30),
   (.searchScrollbackRequest, 31), (.searchScrollbackResponse, 32), (.setPaneZoomed, 33),
   (.splitPane, 34), (.killPane, 35), (.spawnV2, 36), (.paneRemoved, 37), (.setPalette, 38),
   (.notifyAlert, 39), (.setClientId, 40), (.getClientList, 41), (.getClientListResponse, 42),
   (.setWindowWorkspace, 43), (.windowWorkspaceChanged, 44), (.setFocusedPane, 45),
   (.getImageCell, 46), (.getImageCellResponse, 47), (.movePaneToNewTab, 48),
   (.movePaneToNewTabResponse, 49), (.activatePaneDirection, 50),
   (.getPaneRenderableDimensions, 51), (.getPaneRenderableDimensionsResponse, 52),
   (.paneFocused, 53), (.tabResized, 54), (.tabAddedToWindow, 55), (.tabTitleChanged, 56),
   (.windowTitleChanged, 57), (.renameWorkspace, 58), (.eraseScrollbackRequest, 59),
   (.getPaneDirection, 60), (.getPaneDirectionResponse, 61), (.adjustPaneSize, 62),
   (.resizeTab, 63), (.rotatePanes, 64), (.setClientActiveTab, 65), (.listAgents, 66),
   (.listAgentsResponse, 67), (.setAgentMetadata, 68), (.clearAgentMetadata, 69),
   (.listAgentsCached, 70), (.listAgentsCachedResponse, 71), (.setTabOrder, 72),
   (.tabOrderChanged, 73), (.submitAgentRequest, 74), (.submitAgentRequestResponse, 75),
   (.getAgentRequest, 76), (.getAgentRequestResponse, 77), (.listAgentRequestEvents, 78),
   (.listAgentRequestEventsResponse, 79), (.cancelAgentRequest, 80),
   (.cancelAgentRequestResponse, 81), (.readAgentOutput, 82), (.readAgentOutputResponse, 83),
   (.getAgentApiCapabilities, 84), (.getAgentApiCapabilitiesResponse, 85),
   (.listAgentApiCatalog, 86), (.listAgentApiCatalogResponse, 87), (.admitAgentPrompt, 88),
   (.admitAgentPromptResponse, 89), (.readAgentEvents, 90), (.readAgentEventsResponse, 91),
   (.prepareCodexLaunch, 92), (.preparedCodexLaunch, 93), (.setParkedTabs, 94),
   (.parkedTabsChanged, 95), (.acknowledgeAgentAttention, 96), (.agentMetadataChanged, 97),
   (.getPaneStatus, 98), (.getPaneStatusResponse, 99), (.promoteCodexAppServer, 100),
   (.resolveAgentApproval, 101), (.resolveAgentApprovalResponse, 102),
   (.submitTypedInput, 103), (.createAgentReminder, 104), (.agentReminderResponse, 105),
   (.listAgentReminders, 106), (.listAgentRemindersResponse, 107), (.cancelAgentReminder, 108),
   (.cancelAgentReminderResponse, 109), (.prepareAgentInputBox, 110),
   (.prepareAgentInputBoxResponse, 111), (.submitTypedInputResponse, 112)]

/-- The number that the table gives to a variant. -/
def PduKind.vers (kind : PduKind) : UInt64 :=
  (table.lookup kind).getD 0

/-- The variant that an identifying number selects. -/
def PduKind.ofVers (ident : UInt64) : Option PduKind :=
  (table.find? (·.2 == ident)).map (·.1)

inductive Pdu (Payload : PduKind → Type) where
  | invalid (ident : UInt64)
  | known (kind : PduKind) (payload : Payload kind)

structure DecodedPdu (Payload : PduKind → Type) where
  serial : UInt64
  pdu : Pdu Payload

/-- A `std::io::Read` that a payload is decoded from: the bytes it gives, and what it
reports after them (`none` is the end of the file). -/
structure Reader where
  bytes : List UInt8
  failure : Option IoErrorKind

/-- The crates that the codec calls: `leb128`, `varbincode` and `zstd`. -/
structure Wire (Payload : PduKind → Type) where
  leb128 : Leb128
  serializeInto : (kind : PduKind) → Payload kind → Result (List UInt8)
  deserializeFrom : (kind : PduKind) → Reader → Result (Payload kind)
  zstdEncode : List UInt8 → Result (List UInt8)
  zstdDecoder : List UInt8 → Result Reader

variable {Payload : PduKind → Type}

def compressThresh : Nat := 32

/-- `serialize`: the bytes of a payload and whether they are compressed. -/
def serialize (wire : Wire Payload) (kind : PduKind) (t : Payload kind) :
    Result (List UInt8 × Bool) := do
  let uncompressed ← wire.serializeInto kind t
  if uncompressed.length ≤ compressThresh then
    return (uncompressed, false)
  else
    let again ← wire.serializeInto kind t
    let compressed ← wire.zstdEncode again
    if compressed.length < uncompressed.length then
      return (compressed, true)
    else
      return (uncompressed, false)

def deserialize (wire : Wire Payload) (kind : PduKind) (r : List UInt8) (isCompressed : Bool) :
    Result (Payload kind) := do
  if isCompressed then
    let decompress ← wire.zstdDecoder r
    wire.deserializeFrom kind decompress
  else
    wire.deserializeFrom kind ⟨r, none⟩

def Pdu.encode (wire : Wire Payload) (pdu : Pdu Payload) (serial : UInt64) :
    Result (List UInt8) :=
  match pdu with
  | .invalid _ => bail "attempted to serialize Pdu::Invalid"
  | .known kind s => do
    let (data, isCompressed) ← serialize wire kind s
    return encodeRawAsVec wire.leb128 kind.vers serial data isCompressed

/-- `Pdu::decode`: the PDU, and the bytes after its frame. -/
def Pdu.decode (wire : Wire Payload) (r : List UInt8) :
    Result (DecodedPdu Payload × List UInt8) := do
  let (decoded, r) ← (decodeRaw wire.leb128 r).context "decoding a PDU"
  match PduKind.ofVers decoded.ident with
  | some kind =>
    let payload ← deserialize wire kind decoded.data decoded.isCompressed
    return (⟨decoded.serial, .known kind payload⟩, r)
  | none => return (⟨decoded.serial, .invalid decoded.ident⟩, r)

/-- `Pdu::stream_decode`: the answer and the buffer it leaves. An error that says the
bytes ended is no error: the frame is not complete yet. -/
def Pdu.streamDecode (wire : Wire Payload) (buffer : List UInt8) :
    Result (Option (DecodedPdu Payload)) × List UInt8 :=
  match Pdu.decode wire buffer with
  | .ok (decoded, remain) => (.ok (some decoded), remain)
  | .error err =>
    match err.rootCause with
    | .io .unexpectedEof _ => (.ok none, buffer)
    | .io .wouldBlock _ => (.ok none, buffer)
    | _ => (.error err, buffer)

/-- What one `read` put into the 4096 bytes of the caller's buffer. -/
structure Chunk where
  bytes : List UInt8
  bytes_pos : 0 < bytes.length
  bytes_le : bytes.length ≤ 4096

/-- The answer of one `read` call. A reader is the answers it still has; past the last
of them it is at the end of the file and `read` gives no byte. -/
inductive ReadResult where
  | data (chunk : Chunk)
  | error (kind : IoErrorKind) (text : String)

/-- `Pdu::try_read_and_decode`: the answer, the reader and the buffer it leaves. -/
def Pdu.tryReadAndDecode (wire : Wire Payload) : List ReadResult → List UInt8 →
    Result (Option (DecodedPdu Payload)) × List ReadResult × List UInt8
  | reads, buffer =>
    match Pdu.streamDecode wire buffer with
    | (.error err, buffer) =>
      (Result.context (.error err) "stream_decode of buffer for PDU", reads, buffer)
    | (.ok (some decoded), buffer) => (.ok (some decoded), reads, buffer)
    | (.ok none, buffer) =>
      match reads with
      | [] => (.error ⟨.io .unexpectedEof "End Of File", []⟩, [], buffer)
      | .error .wouldBlock _ :: reads => (.ok none, reads, buffer)
      | .error kind text :: reads => (.error ⟨.io kind text, []⟩, reads, buffer)
      | .data chunk :: reads => tryReadAndDecode wire reads (buffer ++ chunk.bytes)

/-- A connection's loop over `try_read_and_decode`: the PDUs it gave until it failed, the
error, and the buffer then. `none` after `fuel` calls without an error. -/
def Pdu.readAll (wire : Wire Payload) : Nat → List ReadResult → List UInt8 →
    Option (List (DecodedPdu Payload) × Error × List UInt8)
  | 0, _, _ => none
  | fuel + 1, reads, buffer =>
    match Pdu.tryReadAndDecode wire reads buffer with
    | (.error err, _, buffer) => some ([], err, buffer)
    | (.ok none, reads, buffer) => readAll wire fuel reads buffer
    | (.ok (some decoded), reads, buffer) =>
      (readAll wire fuel reads buffer).map fun (pdus, rest) => (decoded :: pdus, rest)

end Wakterm.Codec
