import Mathlib
import Mille.Stream.CodecRoundTrip

/-! The bytes of a frame, and the round trip of a whole message through them. -/

namespace Mille.Stream

theorem beBytes_length (width value : Nat) : (beBytes width value).length = width := by
  induction width with
  | zero => rfl
  | succ width ih => simp [beBytes, ih]

theorem foldl_beBytes (width value start : Nat) :
    (beBytes width value).foldl (fun value byte => 256 * value + byte.toNat) start =
      start * 256 ^ width + value % 256 ^ width := by
  induction width generalizing start with
  | zero => simp [beBytes, Nat.mod_one]
  | succ width ih =>
    have digit : (UInt8.ofNat (value / 256 ^ width % 256)).toNat = value / 256 ^ width % 256 := by
      simp
    rw [beBytes, List.foldl_cons, ih, digit, Nat.pow_succ, Nat.mod_mul]
    ring

theorem beValue_beBytes (width value : Nat) : beValue (beBytes width value) = value % 256 ^ width := by
  rw [beValue, foldl_beBytes]
  simp

theorem viewed_middle {front middle behind : Bytes} {offset length : Nat}
    (starts : offset = front.length) (ends : length = middle.length) :
    viewed (front ++ (middle ++ behind)) offset length = middle := by
  subst starts ends
  simp [viewed]

theorem viewed_viewed {buffer : Bytes} {offset length start count : Nat}
    (inside : start + count ≤ length) :
    viewed (viewed buffer offset length) start count = viewed buffer (offset + start) count := by
  rw [viewed, viewed, viewed, List.drop_take, List.take_take, List.drop_drop]
  rw [Nat.min_eq_left (by omega)]

/-- The first twenty bytes of a frame. -/
def frontBytes (metadataLength attachmentCount attachmentBytes : Nat) : Bytes :=
  wireMagic ++ [wireMajor, wireMinor] ++ beBytes 2 0 ++ beBytes 4 metadataLength ++
    beBytes 4 attachmentCount ++ beBytes 4 attachmentBytes

theorem frontBytes_length (metadataLength attachmentCount attachmentBytes : Nat) :
    (frontBytes metadataLength attachmentCount attachmentBytes).length = headerBytes := rfl

theorem encodeFrame_ok {json : Json} {limits : FramedStreamLimits} {message : Value} {bytes : Bytes}
    (encoded : encodeFrame json limits message = .ok bytes) :
    ∃ metadata attachments text, extract limits.maxAttachments message [] = .ok (metadata, attachments) ∧
      json.stringify metadata = some text ∧
      (utf8Encode text).length ≤ limits.maxMetadataBytes ∧
      headerBytes + (utf8Encode text).length + attachments.length * 4 +
        (attachments.map List.length).sum ≤ limits.maxFrameBytes ∧
      bytes = frontBytes (utf8Encode text).length attachments.length (attachments.map List.length).sum ++
        (utf8Encode text ++ (attachments.flatMap (fun content => beBytes 4 content.length) ++
          attachments.flatten)) := by
  unfold encodeFrame at encoded
  cases extracted : extract limits.maxAttachments message [] with
  | error error => simp [extracted] at encoded
  | ok pair =>
    obtain ⟨metadata, attachments⟩ := pair
    simp only [extracted] at encoded
    cases printed : json.stringify metadata with
    | none => simp [printed] at encoded
    | some text =>
      simp only [printed] at encoded
      split at encoded
      · cases encoded
      · split at encoded
        · cases encoded
        · simp only [Except.ok.injEq] at encoded
          refine ⟨metadata, attachments, text, rfl, printed, by omega, by omega, ?_⟩
          rw [← encoded, frontBytes]
          simp only [List.append_assoc]

/-- What `parseHeader` makes of a header whose fields hold the given numbers. -/
theorem parseHeader_frontBytes (limits : FramedStreamLimits)
    (metadataLength attachmentCount attachmentBytes : Nat) (behind : Bytes) (header : FrameHeader) :
    parseHeader limits (frontBytes metadataLength attachmentCount attachmentBytes ++ behind) = .ok header ↔
      header = ⟨metadataLength % 2 ^ 32, attachmentCount % 2 ^ 32, attachmentBytes % 2 ^ 32,
        headerBytes + metadataLength % 2 ^ 32 + attachmentCount % 2 ^ 32 * 4 + attachmentBytes % 2 ^ 32⟩ ∧
      header.metadataLength ≤ limits.maxMetadataBytes ∧ header.attachmentCount ≤ limits.maxAttachments ∧
      header.totalLength ≤ limits.maxFrameBytes := by
  have long : ¬ (frontBytes metadataLength attachmentCount attachmentBytes ++ behind).length < headerBytes := by
    rw [List.length_append, frontBytes_length]
    omega
  have magic : (frontBytes metadataLength attachmentCount attachmentBytes ++ behind).take 4 = wireMagic := rfl
  have major : (frontBytes metadataLength attachmentCount attachmentBytes ++ behind)[4]? = some wireMajor := rfl
  have field : ∀ value, beValue (beBytes 4 value) = value % 2 ^ 32 := fun value => beValue_beBytes 4 value
  have flags : beValue (viewed (frontBytes metadataLength attachmentCount attachmentBytes ++ behind) 6 2) =
      knownFlags := rfl
  have first : beValue (viewed (frontBytes metadataLength attachmentCount attachmentBytes ++ behind) 8 4) =
      metadataLength % 2 ^ 32 := field metadataLength
  have second : beValue (viewed (frontBytes metadataLength attachmentCount attachmentBytes ++ behind) 12 4) =
      attachmentCount % 2 ^ 32 := field attachmentCount
  have third : beValue (viewed (frontBytes metadataLength attachmentCount attachmentBytes ++ behind) 16 4) =
      attachmentBytes % 2 ^ 32 := field attachmentBytes
  rw [parseHeader, if_neg long, if_neg (by simp [magic]), if_neg (by simp [major]), if_neg (by simp [flags])]
  simp only [first, second, third]
  split
  · constructor
    · intro parsed
      cases parsed
    · rintro ⟨rfl, within, _⟩
      simp only at within
      omega
  · split
    · constructor
      · intro parsed
        cases parsed
      · rintro ⟨rfl, _, within, _⟩
        simp only at within
        omega
    · split
      · constructor
        · intro parsed
          cases parsed
        · rintro ⟨rfl, _, _, within⟩
          simp only at within
          omega
      · constructor
        · intro parsed
          simp only [Except.ok.injEq] at parsed
          subst parsed
          refine ⟨rfl, ?_, ?_, ?_⟩
          · simp only
            omega
          · simp only
            omega
          · simp only
            omega
        · rintro ⟨rfl, _⟩
          rfl

theorem table_read {lengths : List Nat} (small : ∀ length ∈ lengths, length < 2 ^ 32)
    (front behind : Bytes) :
    ((List.range lengths.length).map fun index =>
      beValue (viewed (front ++ (lengths.flatMap (beBytes 4) ++ behind)) (front.length + 4 * index) 4)) =
      lengths := by
  induction lengths generalizing front with
  | nil => rfl
  | cons length rest ih =>
    have own : beValue (viewed (front ++ ((length :: rest).flatMap (beBytes 4) ++ behind))
        (front.length + 4 * 0) 4) = length := by
      rw [List.flatMap_cons, List.append_assoc,
        viewed_middle (by simp) (beBytes_length 4 length).symm, beValue_beBytes]
      exact Nat.mod_eq_of_lt (small length (by simp))
    have others := ih (fun length present => small length (by simp [present])) (front ++ beBytes 4 length)
    rw [List.length_cons, List.range_succ_eq_map, List.map_cons, own, List.map_map]
    congr 1
    refine Eq.trans ?_ others
    apply List.map_congr_left
    intro index _
    simp only [Function.comp_apply, List.flatMap_cons, List.append_assoc, List.length_append,
      beBytes_length]
    congr 2
    omega

theorem cutAttachments_read {frame : ByteView} {attachments : List Bytes} {front : Bytes}
    (shown : frame.content = front ++ attachments.flatten) :
    cutAttachments frame front.length (attachments.map List.length) = attachments := by
  induction attachments generalizing front with
  | nil => rfl
  | cons content rest ih =>
    rw [List.flatten_cons] at shown
    rw [List.map_cons, cutAttachments, ByteView.slice, shown, viewed_middle rfl rfl]
    have others := @ih (front ++ content) (by simpa using shown)
    rw [List.length_append] at others
    rw [others]

theorem content_whole (bytes : Bytes) : (ByteView.whole bytes).content = bytes := by
  simp [ByteView.content, ByteView.whole, viewed]

theorem content_length (frame : ByteView) : frame.content.length = frame.length := by
  have inside := frame.inside
  simp only [ByteView.content, viewed, List.length_take, List.length_drop]
  omega

theorem utf8Decode_utf8Encode {text : String} (unmarked : text.toList.head? ≠ some '\uFEFF') :
    utf8Decode (utf8Encode text) = some text := by
  have bytes : (⟨(utf8Encode text).toArray⟩ : ByteArray) = text.toUTF8 := rfl
  have valid : String.fromUTF8? text.toUTF8 = some text := by
    have whole : text.toUTF8.IsValidUTF8 := text.isValidUTF8
    rw [String.fromUTF8?, dif_pos whole]
    rfl
  rw [utf8Decode, bytes, valid, Option.map_some, if_neg unmarked]

theorem table_whole {frame : ByteView} {start count : Nat} (inside : start + 4 * count ≤ frame.length) :
    frame.table start count = (ByteView.whole frame.content).table start count := by
  have bounds := frame.inside
  rw [ByteView.table, ByteView.table, if_neg (by omega), if_neg (by
    simp only [ByteView.whole, content_length]
    omega)]
  simp only [Except.ok.injEq]
  apply List.map_congr_left
  intro index present
  rw [List.mem_range] at present
  simp only [ByteView.whole, ByteView.content]
  rw [viewed_viewed (by omega)]
  congr 2
  omega

theorem cutAttachments_whole (frame : ByteView) (start : Nat) (lengths : List Nat) :
    cutAttachments frame start lengths = cutAttachments (ByteView.whole frame.content) start lengths := by
  induction lengths generalizing start with
  | nil => rfl
  | cons length rest ih =>
    rw [cutAttachments, cutAttachments, ih, ByteView.slice, ByteView.slice, content_whole]

theorem parseHeader_total {limits : FramedStreamLimits} {head : Bytes} {header : FrameHeader}
    (parsed : parseHeader limits head = .ok header) :
    header.totalLength = headerBytes + header.metadataLength + header.attachmentCount * 4 +
      header.attachmentBytes := by
  unfold parseHeader at parsed
  repeat (split at parsed; · cases parsed)
  simp only at parsed
  repeat (split at parsed; · cases parsed)
  simp only [Except.ok.injEq] at parsed
  rw [← parsed]

/-- A frame with a validated header decodes to what its own bytes say: the rest of the
buffer it lies in is not read. -/
theorem decodeFrame_whole {json : Json} {limits : FramedStreamLimits} {head : Bytes}
    {header : FrameHeader} (parsed : parseHeader limits head = .ok header) (frame : ByteView) :
    decodeFrame json frame header = decodeFrame json (.whole frame.content) header := by
  have total := parseHeader_total parsed
  have same : (ByteView.whole frame.content).length = frame.length := content_length frame
  unfold decodeFrame
  rw [same]
  split
  · rfl
  · next declared =>
    have inside : headerBytes + header.metadataLength + 4 * header.attachmentCount ≤ frame.length := by
      omega
    have cut : cutAttachments frame = cutAttachments (.whole frame.content) :=
      funext₂ (cutAttachments_whole frame)
    simp only [ByteView.slice, content_whole, table_whole inside, cut]

/-- What the code relies on from `JSON.stringify` and `JSON.parse` at one value. -/
structure Json.Faithful (json : Json) (value : Value) : Prop where
  /-- The text stands for the value. -/
  parses : ∀ text, json.stringify value = some text → json.parse text = some value
  /-- JSON text starts with no byte order mark. -/
  unmarked : ∀ text, json.stringify value = some text → text.toList.head? ≠ some '\uFEFF'

/-- The receiver reads the sender's message off the encoded bytes. -/
def RoundTrips (json : Json) (limits : FramedStreamLimits) (message : Value) (bytes : Bytes) : Prop :=
  ∃ header, parseHeader limits bytes = .ok header ∧ header.totalLength = bytes.length ∧
    decodeFrame json (.whole bytes) header = .ok message.restored

/-- The metadata text, the number of views and their bytes fit the four-byte fields of the
header. -/
def FieldsFit (json : Json) (limits : FramedStreamLimits) (message : Value) : Prop :=
  ∀ metadata attachments text, extract limits.maxAttachments message [] = .ok (metadata, attachments) →
    json.stringify metadata = some text →
    (utf8Encode text).length < 2 ^ 32 ∧ attachments.length < 2 ^ 32 ∧
      (attachments.map List.length).sum < 2 ^ 32

section Frame

variable {json : Json} {limits : FramedStreamLimits}

theorem flatten_length (attachments : List Bytes) :
    attachments.flatten.length = (attachments.map List.length).sum := by
  simp [List.length_flatten]

theorem table_length (attachments : List Bytes) :
    (attachments.flatMap fun content => beBytes 4 content.length).length = attachments.length * 4 := by
  induction attachments with
  | nil => rfl
  | cons content rest ih =>
    rw [List.flatMap_cons, List.length_append, ih, beBytes_length, List.length_cons]
    omega

/-- Decoding the bytes of a frame whose lengths fit rebuilds the metadata over the
attachments. -/
theorem decodeFrame_encoded {metadata : Value} {attachments : List Bytes} {text : String}
    (printed : json.stringify metadata = some text) (faithful : json.Faithful metadata)
    (small : (attachments.map List.length).sum < 2 ^ 32) :
    decodeFrame json
      (.whole (frontBytes (utf8Encode text).length attachments.length (attachments.map List.length).sum ++
        (utf8Encode text ++ (attachments.flatMap (fun content => beBytes 4 content.length) ++
          attachments.flatten))))
      ⟨(utf8Encode text).length, attachments.length, (attachments.map List.length).sum,
        headerBytes + (utf8Encode text).length + attachments.length * 4 +
          (attachments.map List.length).sum⟩ = reconstruct attachments metadata := by
  generalize front_eq : frontBytes (utf8Encode text).length attachments.length
    (attachments.map List.length).sum = front
  have front_length : front.length = headerBytes := by
    rw [← front_eq, frontBytes_length]
  generalize bytes_eq : front ++ (utf8Encode text ++
    (attachments.flatMap (fun content => beBytes 4 content.length) ++ attachments.flatten)) = bytes
  have long : bytes.length = headerBytes + (utf8Encode text).length + attachments.length * 4 +
      (attachments.map List.length).sum := by
    rw [← bytes_eq]
    simp only [List.length_append, front_length, table_length, flatten_length]
    omega
  have text_bytes : (ByteView.whole bytes).slice headerBytes (utf8Encode text).length = utf8Encode text := by
    rw [ByteView.slice, content_whole, ← bytes_eq]
    exact viewed_middle front_length.symm rfl
  have each : ∀ length ∈ attachments.map List.length, length < 2 ^ 32 := fun length present =>
    Nat.lt_of_le_of_lt (List.single_le_sum (by simp) length present) small
  have lengths_read : (ByteView.whole bytes).table (headerBytes + (utf8Encode text).length)
      attachments.length = .ok (attachments.map List.length) := by
    have read := table_read each (front ++ utf8Encode text) attachments.flatten
    rw [ByteView.table, if_neg (by
      simp only [ByteView.whole, long]
      omega)]
    simp only [ByteView.whole, Except.ok.injEq, Nat.zero_add]
    rw [List.length_map, List.length_append, front_length, List.flatMap_map, List.append_assoc,
      bytes_eq] at read
    exact read
  have cut : cutAttachments (.whole bytes) (headerBytes + (utf8Encode text).length +
      attachments.length * 4) (attachments.map List.length) = attachments := by
    have shown : (ByteView.whole bytes).content = (front ++ (utf8Encode text ++
        attachments.flatMap fun content => beBytes 4 content.length)) ++ attachments.flatten := by
      rw [content_whole, ← bytes_eq]
      simp only [List.append_assoc]
    have read := cutAttachments_read shown
    rw [List.length_append, List.length_append, front_length, table_length] at read
    rw [Nat.add_assoc]
    exact read
  have sized : (ByteView.whole bytes).length = bytes.length := rfl
  unfold decodeFrame
  simp only [sized, long, ne_eq, not_true_eq_false, if_false, text_bytes,
    utf8Decode_utf8Encode (faithful.unmarked text printed), faithful.parses text printed, lengths_read, cut]

/-- The encoded bytes are read back as the message exactly when the message is clean and
its lengths fit. -/
theorem roundTrips_encoded {message : Value} {bytes : Bytes} (sendable : message.Sendable)
    (standard : ∀ metadata found, extract limits.maxAttachments message [] = .ok (metadata, found) →
      metadata.Plain → json.Faithful metadata)
    (encoded : encodeFrame json limits message = .ok bytes) :
    RoundTrips json limits message bytes ↔ message.clean = true ∧ FieldsFit json limits message := by
  obtain ⟨metadata, attachments, text, extracted, printed, metadata_within, total_within, rfl⟩ :=
    encodeFrame_ok encoded
  have faithful := standard metadata attachments extracted (extract_plain sendable extracted)
  have rebuilt := reconstruct_extract sendable extracted (List.prefix_refl attachments)
  have counted := (extract_found extracted).2 (Nat.zero_le _)
  have long : (frontBytes (utf8Encode text).length attachments.length
      (attachments.map List.length).sum ++ (utf8Encode text ++
        (attachments.flatMap (fun content => beBytes 4 content.length) ++ attachments.flatten))).length =
      headerBytes + (utf8Encode text).length + attachments.length * 4 +
        (attachments.map List.length).sum := by
    simp only [List.length_append, frontBytes_length, table_length, flatten_length]
    omega
  have fit_iff : FieldsFit json limits message ↔ (utf8Encode text).length < 2 ^ 32 ∧
      attachments.length < 2 ^ 32 ∧ (attachments.map List.length).sum < 2 ^ 32 := by
    constructor
    · intro fits
      exact fits metadata attachments text extracted printed
    · intro small metadata' attachments' text' extracted' printed'
      rw [extracted] at extracted'
      simp only [Except.ok.injEq, Prod.mk.injEq] at extracted'
      obtain ⟨rfl, rfl⟩ := extracted'
      rw [printed, Option.some.injEq] at printed'
      subst printed'
      exact small
  rw [fit_iff]
  constructor
  · rintro ⟨header, parsed, total, decoded⟩
    rw [parseHeader_frontBytes] at parsed
    obtain ⟨rfl, _⟩ := parsed
    rw [long] at total
    -- A field that wrapped would make the declared length shorter than the frame.
    have small : (utf8Encode text).length < 2 ^ 32 ∧ attachments.length < 2 ^ 32 ∧
        (attachments.map List.length).sum < 2 ^ 32 := by
      simp only at total
      omega
    rw [Nat.mod_eq_of_lt small.1, Nat.mod_eq_of_lt small.2.1, Nat.mod_eq_of_lt small.2.2,
      decodeFrame_encoded printed faithful small.2.2] at decoded
    exact ⟨rebuilt.mp decoded, small⟩
  · rintro ⟨clean, small⟩
    refine ⟨⟨(utf8Encode text).length, attachments.length, (attachments.map List.length).sum,
      headerBytes + (utf8Encode text).length + attachments.length * 4 +
        (attachments.map List.length).sum⟩, ?_, long.symm, ?_⟩
    · rw [parseHeader_frontBytes, Nat.mod_eq_of_lt small.1, Nat.mod_eq_of_lt small.2.1,
        Nat.mod_eq_of_lt small.2.2]
      exact ⟨rfl, metadata_within, counted, total_within⟩
    · rw [decodeFrame_encoded printed faithful small.2.2]
      exact rebuilt.mpr clean

/-- A message comes back from its frame, each view as exactly the viewed bytes, if and only
if it is clean and its lengths fit the header; and whatever bytes arrive, decoding a frame
whose header was accepted reads nothing beyond the frame. -/
theorem codec_roundTrip {message : Value} (sendable : message.Sendable)
    (standard : ∀ metadata found, extract limits.maxAttachments message [] = .ok (metadata, found) →
      metadata.Plain → json.Faithful metadata) :
    (∀ bytes, encodeFrame json limits message = .ok bytes →
      (RoundTrips json limits message bytes ↔ message.clean = true ∧ FieldsFit json limits message)) ∧
    ∀ head header frame, parseHeader limits head = .ok header →
      decodeFrame json frame header = decodeFrame json (.whole frame.content) header := by
  constructor
  · intro bytes encoded
    exact roundTrips_encoded sendable standard encoded
  · intro head header frame parsed
    exact decodeFrame_whole parsed frame

end Frame

/-- JSON at one text and the value it stands for. -/
def sampleJson (text : String) (value : Value) : Json where
  stringify _ := some text
  parse other := if other = text then some value else none

theorem sampleJson_faithful {text : String} (value : Value)
    (unmarked : text.toList.head? ≠ some '\uFEFF') : (sampleJson text value).Faithful value := by
  constructor
  · intro other printed
    simp only [sampleJson, Option.some.injEq] at printed
    simp [sampleJson, printed]
  · intro other printed
    simp only [sampleJson, Option.some.injEq] at printed
    rw [← printed]
    exact unmarked

def sampleLimits : FramedStreamLimits := ⟨100, 4, 200, 1000, 2000⟩

/-- A window of two bytes into a longer buffer, and a member that is dropped. -/
def sampleMessage : Value :=
  .object [("rows", .view .otherView [1, 2, 3, 4] 1 2), ("gone", .undefined)]

def sampleText : String := "\x7b\"rows\":\x7b\"$mille\":\"bin\",\"i\":0\x7d\x7d"

def sampleMetadata : Value := .object [("rows", placeholder 0)]

theorem codec_roundTrip_sample :
    ∃ bytes, encodeFrame (sampleJson sampleText sampleMetadata) sampleLimits sampleMessage = .ok bytes ∧
      RoundTrips (sampleJson sampleText sampleMetadata) sampleLimits sampleMessage bytes := by
  have extracted : extract sampleLimits.maxAttachments sampleMessage [] =
      .ok (sampleMetadata, [[2, 3]]) := rfl
  have sendable : sampleMessage.Sendable := by
    simp [sampleMessage, Value.Sendable, SendableEntries, Value.isUndefined]
  have standard : ∀ metadata found, extract sampleLimits.maxAttachments sampleMessage [] =
      .ok (metadata, found) → metadata.Plain →
      (sampleJson sampleText sampleMetadata).Faithful metadata := by
    intro metadata found same _
    rw [extracted] at same
    simp only [Except.ok.injEq, Prod.mk.injEq] at same
    rw [← same.1]
    exact sampleJson_faithful sampleMetadata (by decide)
  have encoded : ∃ bytes, encodeFrame (sampleJson sampleText sampleMetadata) sampleLimits sampleMessage =
      .ok bytes := ⟨_, rfl⟩
  obtain ⟨bytes, encoded⟩ := encoded
  refine ⟨bytes, encoded, ((codec_roundTrip sendable standard).1 bytes encoded).mpr ⟨by decide, ?_⟩⟩
  intro metadata attachments text same printed
  rw [extracted] at same
  simp only [Except.ok.injEq, Prod.mk.injEq] at same
  simp only [sampleJson, Option.some.injEq] at printed
  rw [← same.2, ← printed]
  decide

/-- User data shaped like a placeholder. -/
def lookAlike : Value := placeholder 0

def lookAlikeText : String := "\x7b\"$mille\":\"bin\",\"i\":0\x7d"

/-- An own member called `__proto__`. -/
def specialKey : Value := .object [("__proto__", .null)]

/-- Look-alike data is refused by the receiver, and a member called `__proto__` is lost on
the way. -/
theorem codec_loses :
    (lookAlike.Sendable ∧ (sampleJson lookAlikeText lookAlike).Faithful lookAlike ∧
      ∃ bytes, encodeFrame (sampleJson lookAlikeText lookAlike) sampleLimits lookAlike = .ok bytes ∧
        ¬ RoundTrips (sampleJson lookAlikeText lookAlike) sampleLimits lookAlike bytes) ∧
    (specialKey.Sendable ∧ (sampleJson "\x7b\x7d" (.object [])).Faithful (.object []) ∧
      ∃ bytes, encodeFrame (sampleJson "\x7b\x7d" (.object [])) sampleLimits specialKey = .ok bytes ∧
        ¬ RoundTrips (sampleJson "\x7b\x7d" (.object [])) sampleLimits specialKey bytes) := by
  refine ⟨⟨?_, sampleJson_faithful _ (by decide), _, rfl, ?_⟩,
    ⟨?_, sampleJson_faithful _ (by decide), _, rfl, ?_⟩⟩
  · simp [lookAlike, placeholder, Value.Sendable, SendableEntries]
  · intro kept
    have extracted : extract sampleLimits.maxAttachments lookAlike [] = .ok (lookAlike, []) := rfl
    have clean := (roundTrips_encoded (by
      simp [lookAlike, placeholder, Value.Sendable, SendableEntries]) (by
      intro metadata found same _
      rw [extracted] at same
      simp only [Except.ok.injEq, Prod.mk.injEq] at same
      rw [← same.1]
      exact sampleJson_faithful _ (by decide)) rfl).mp kept
    exact absurd clean.1 (by decide)
  · simp [specialKey, Value.Sendable, SendableEntries]
  · intro kept
    have extracted : extract sampleLimits.maxAttachments specialKey [] = .ok (.object [], []) := rfl
    have clean := (roundTrips_encoded (by
      simp [specialKey, Value.Sendable, SendableEntries]) (by
      intro metadata found same _
      rw [extracted] at same
      simp only [Except.ok.injEq, Prod.mk.injEq] at same
      rw [← same.1]
      exact sampleJson_faithful _ (by decide)) rfl).mp kept
    exact absurd clean.1 (by decide)

end Mille.Stream
