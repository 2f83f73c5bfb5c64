import Mathlib

/-! Semantic messages and frame bytes of the framed stream. A message is a plain
JavaScript value that may carry binary views; the encoder swaps each view for a
placeholder and appends the viewed bytes behind the JSON text. -/

namespace Mille.Stream

abbrev Bytes := List UInt8

/-- JavaScript numbers. -/
inductive Number where
  | finite (value : ℚ)
  | negativeZero
  | nonFinite
deriving DecidableEq

inductive ViewKind where
  | uint8Array
  | otherView
  | arrayBuffer
deriving DecidableEq

/-- JavaScript values. The members of an object are its own ones, in the order it
enumerates them. -/
inductive Value where
  | null
  | undefined
  | bool (value : Bool)
  | number (value : Number)
  | string (value : String)
  | view (kind : ViewKind) (buffer : Bytes) (offset length : Nat)
  | array (items : List Value)
  | object (members : List (String × Value))
  /-- A bigint, a function, a symbol, shared memory or an object with a prototype of its own. -/
  | unsupported (message : String)

structure FramedStreamLimits where
  maxMetadataBytes : Nat
  maxAttachments : Nat
  maxFrameBytes : Nat
  outboundSoftBytes : Nat
  outboundHardBytes : Nat
deriving DecidableEq

/-- What decoding or encoding a frame throws. -/
structure FrameProtocolError where
  message : String
deriving DecidableEq

def wireMagic : Bytes := [0x4d, 0x4c, 0x4c, 0x45]

def wireMajor : UInt8 := 1

def wireMinor : UInt8 := 0

def headerBytes : Nat := 20

def knownFlags : Nat := 0

/-- The bytes a view refers to, and no others of its buffer. -/
def viewed (buffer : Bytes) (offset length : Nat) : Bytes := (buffer.drop offset).take length

/-- A `Uint8Array` of its own. -/
def Value.bytes (content : Bytes) : Value := .view .uint8Array content 0 content.length

/-- The marker written in place of a binary view. -/
def placeholder (index : Nat) : Value :=
  .object [("$mille", .string "bin"), ("i", .number (.finite index))]

/-- The own member an object reads under a key. -/
def member (members : List (String × Value)) (key : String) : Value :=
  (members.lookup key).getD .undefined

/-- The index of a placeholder, when the members look like one. -/
def isBinaryPlaceholder (members : List (String × Value)) : Option Number :=
  match member members "$mille", member members "i" with
  | .string "bin", .number index => some index
  | _, _ => none

/-- `out[key] = value` on a fresh object: assigning `__proto__` replaces the prototype and
makes no member. -/
def assign (out : List (String × Value)) (entry : String × Value) : List (String × Value) :=
  if entry.1 = "__proto__" then out
  else if entry.1 ∈ out.map Prod.fst then
    out.map fun other => if other.1 = entry.1 then entry else other
  else out ++ [entry]

def assignAll (entries : List (String × Value)) : List (String × Value) := entries.foldl assign []

mutual

/-- Swaps every view for a placeholder and collects the viewed bytes behind those found
before. -/
def extract (maxAttachments : Nat) : Value → List Bytes →
    Except FrameProtocolError (Value × List Bytes)
  | .null, found => .ok (.null, found)
  | .undefined, found => .ok (.undefined, found)
  | .bool value, found => .ok (.bool value, found)
  | .number .nonFinite, _ => .error ⟨"non-finite number cannot cross the wire"⟩
  | .number value, found => .ok (.number value, found)
  | .string value, found => .ok (.string value, found)
  | .view _ buffer offset length, found =>
    if found.length ≥ maxAttachments then
      .error ⟨"too many binary attachments (limit " ++ toString maxAttachments ++ ")"⟩
    else .ok (placeholder found.length, found ++ [viewed buffer offset length])
  | .array items, found =>
    match extractItems maxAttachments items found with
    | .error error => .error error
    | .ok (out, found) => .ok (.array out, found)
  | .object members, found =>
    match extractEntries maxAttachments members found with
    | .error error => .error error
    | .ok (entries, found) => .ok (.object (assignAll entries), found)
  | .unsupported message, _ => .error ⟨message⟩

def extractItems (maxAttachments : Nat) : List Value → List Bytes →
    Except FrameProtocolError (List Value × List Bytes)
  | [], found => .ok ([], found)
  | item :: rest, found =>
    match extract maxAttachments item found with
    | .error error => .error error
    | .ok (out, found) =>
      match extractItems maxAttachments rest found with
      | .error error => .error error
      | .ok (others, found) => .ok (out :: others, found)

/-- The assignments the loop over an object's entries makes; `undefined` ones are skipped. -/
def extractEntries (maxAttachments : Nat) : List (String × Value) → List Bytes →
    Except FrameProtocolError (List (String × Value) × List Bytes)
  | [], found => .ok ([], found)
  | (_, .undefined) :: rest, found => extractEntries maxAttachments rest found
  | (key, value) :: rest, found =>
    match extract maxAttachments value found with
    | .error error => .error error
    | .ok (out, found) =>
      match extractEntries maxAttachments rest found with
      | .error error => .error error
      | .ok (others, found) => .ok ((key, out) :: others, found)

end

/-- The attachment a placeholder's index names. -/
def attachment (attachments : List Bytes) : Number → Option Bytes
  | .finite index => if index.den = 1 ∧ 0 ≤ index.num then attachments[index.num.toNat]? else none
  | .negativeZero => attachments[0]?
  | .nonFinite => none

mutual

/-- Puts the attachments back where the metadata has placeholders. -/
def reconstruct (attachments : List Bytes) : Value → Except FrameProtocolError Value
  | .array items =>
    match reconstructItems attachments items with
    | .error error => .error error
    | .ok out => .ok (.array out)
  | .object members =>
    match isBinaryPlaceholder members with
    | some index =>
      match attachment attachments index with
      | some content => .ok (.bytes content)
      | none => .error ⟨"binary placeholder index is out of range"⟩
    | none =>
      match reconstructEntries attachments members with
      | .error error => .error error
      | .ok entries => .ok (.object (assignAll entries))
  | other => .ok other

def reconstructItems (attachments : List Bytes) : List Value → Except FrameProtocolError (List Value)
  | [] => .ok []
  | item :: rest =>
    match reconstruct attachments item with
    | .error error => .error error
    | .ok out =>
      match reconstructItems attachments rest with
      | .error error => .error error
      | .ok others => .ok (out :: others)

def reconstructEntries (attachments : List Bytes) : List (String × Value) →
    Except FrameProtocolError (List (String × Value))
  | [] => .ok []
  | (key, value) :: rest =>
    match reconstruct attachments value with
    | .error error => .error error
    | .ok out =>
      match reconstructEntries attachments rest with
      | .error error => .error error
      | .ok others => .ok ((key, out) :: others)

end

/-- `JSON.stringify` and `JSON.parse`. -/
structure Json where
  stringify : Value → Option String
  parse : String → Option Value

def utf8Encode (text : String) : Bytes := text.toUTF8.data.toList

/-- A fatal UTF-8 decoder; it skips a byte order mark at the start. -/
def utf8Decode (bytes : Bytes) : Option String :=
  (String.fromUTF8? ⟨bytes.toArray⟩).map fun text =>
    if text.toList.head? = some '\uFEFF' then String.ofList text.toList.tail else text

/-- Big-endian bytes of a number, modulo what fits. -/
def beBytes : Nat → Nat → Bytes
  | 0, _ => []
  | width + 1, value => UInt8.ofNat (value / 256 ^ width % 256) :: beBytes width value

def beValue (bytes : Bytes) : Nat := bytes.foldl (fun value byte => 256 * value + byte.toNat) 0

def encodeFrame (json : Json) (limits : FramedStreamLimits) (message : Value) :
    Except FrameProtocolError Bytes :=
  match extract limits.maxAttachments message [] with
  | .error error => .error error
  | .ok (metadata, attachments) =>
    match json.stringify metadata with
    | none => .error ⟨"message is not JSON-representable"⟩
    | some text =>
      let metaBytes := utf8Encode text
      if metaBytes.length > limits.maxMetadataBytes then
        .error ⟨"metadata " ++ toString metaBytes.length ++ " exceeds limit " ++
          toString limits.maxMetadataBytes⟩
      else
        let attachmentBytes := (attachments.map List.length).sum
        let total := headerBytes + metaBytes.length + attachments.length * 4 + attachmentBytes
        if total > limits.maxFrameBytes then
          .error ⟨"frame " ++ toString total ++ " exceeds limit " ++ toString limits.maxFrameBytes⟩
        else
          .ok (wireMagic ++ [wireMajor, wireMinor] ++ beBytes 2 0 ++ beBytes 4 metaBytes.length ++
            beBytes 4 attachments.length ++ beBytes 4 attachmentBytes ++ metaBytes ++
            attachments.flatMap (fun content => beBytes 4 content.length) ++ attachments.flatten)

structure FrameHeader where
  metadataLength : Nat
  attachmentCount : Nat
  attachmentBytes : Nat
  /-- Total frame size including the header. -/
  totalLength : Nat
deriving DecidableEq

/-- Validates a header without touching the body. -/
def parseHeader (limits : FramedStreamLimits) (header : Bytes) : Except FrameProtocolError FrameHeader :=
  if header.length < headerBytes then .error ⟨"header shorter than 20 bytes"⟩
  else if header.take 4 ≠ wireMagic then .error ⟨"bad magic — not a Mille frame"⟩
  else if header[4]? ≠ some wireMajor then .error ⟨"unsupported wire major"⟩
  else if beValue (viewed header 6 2) ≠ knownFlags then .error ⟨"unknown active wire flags"⟩
  else
    let metadataLength := beValue (viewed header 8 4)
    let attachmentCount := beValue (viewed header 12 4)
    let attachmentBytes := beValue (viewed header 16 4)
    if metadataLength > limits.maxMetadataBytes then
      .error ⟨"metadata length " ++ toString metadataLength ++ " exceeds limit " ++
        toString limits.maxMetadataBytes⟩
    else if attachmentCount > limits.maxAttachments then
      .error ⟨"attachment count " ++ toString attachmentCount ++ " exceeds limit " ++
        toString limits.maxAttachments⟩
    else
      let totalLength := headerBytes + metadataLength + attachmentCount * 4 + attachmentBytes
      if totalLength > limits.maxFrameBytes then
        .error ⟨"frame length " ++ toString totalLength ++ " exceeds limit " ++
          toString limits.maxFrameBytes⟩
      else .ok ⟨metadataLength, attachmentCount, attachmentBytes, totalLength⟩

/-- A `Uint8Array`: a window of a buffer. -/
structure ByteView where
  buffer : Bytes
  offset : Nat
  length : Nat
  inside : offset + length ≤ buffer.length

namespace ByteView

def whole (bytes : Bytes) : ByteView := ⟨bytes, 0, bytes.length, by simp⟩

/-- The bytes of the window. -/
def content (view : ByteView) : Bytes := viewed view.buffer view.offset view.length

/-- `subarray` and `slice` stay inside the window. -/
def slice (view : ByteView) (start length : Nat) : Bytes := viewed view.content start length

/-- `new DataView(buffer, byteOffset + start, 4 * count)` and its reads: a window over the
buffer itself, refused only beyond the buffer. -/
def table (view : ByteView) (start count : Nat) : Except FrameProtocolError (List Nat) :=
  if view.offset + start + 4 * count > view.buffer.length then
    .error ⟨"Start offset or length is outside the bounds of the buffer"⟩
  else .ok ((List.range count).map fun index =>
    beValue (viewed view.buffer (view.offset + start + 4 * index) 4))

end ByteView

/-- Attachments cut from a frame one behind the other. -/
def cutAttachments (frame : ByteView) : Nat → List Nat → List Bytes
  | _, [] => []
  | offset, length :: rest => frame.slice offset length :: cutAttachments frame (offset + length) rest

/-- Decodes a complete frame whose header was validated. -/
def decodeFrame (json : Json) (frame : ByteView) (header : FrameHeader) :
    Except FrameProtocolError Value :=
  if frame.length ≠ header.totalLength then
    .error ⟨"frame body is " ++ toString frame.length ++ " bytes, header declared " ++
      toString header.totalLength⟩
  else
    match utf8Decode (frame.slice headerBytes header.metadataLength) with
    | none => .error ⟨"metadata is not valid UTF-8"⟩
    | some text =>
      match json.parse text with
      | none => .error ⟨"metadata is not valid JSON"⟩
      | some metadata =>
        match frame.table (headerBytes + header.metadataLength) header.attachmentCount with
        | .error error => .error error
        | .ok lengths =>
          if lengths.sum ≠ header.attachmentBytes then
            .error ⟨"attachment table sums to " ++ toString lengths.sum ++ ", header declared " ++
              toString header.attachmentBytes⟩
          else
            let start := headerBytes + header.metadataLength + header.attachmentCount * 4
            reconstruct (cutAttachments frame start lengths) metadata

end Mille.Stream
