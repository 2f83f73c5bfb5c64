import Mille.Lib.Cursor
import Mille.Lib.Utf8

/-! The binary codec of the client's entries: a bincode list of records, written into a
growing buffer and read back with checked bounds. -/

namespace Mille.EntryCodec

open Bincode (Bytes leBytes leValue encodeUInt encodeSeq)
open Cursor (Reader Reads Safe Fault)

/-- A well-formed string, as its characters. -/
abbrev Text := List Char

/-- Numbers are integers here; the writer refuses those that are not safe. -/
structure ClientEntry where
  id : Int
  parentId : Option Int
  name : Text
  kind : UInt8
  size : Int
  mtimeMs : Int
  ctimeMs : Int
  symlinkTargetIsDir : Option Bool
  pathSegments : Option (List Text)
  isIgnored : Bool
  isReadonly : Bool
  isHidden : Bool
deriving DecidableEq

/-- `Number.MAX_SAFE_INTEGER`. -/
def maxSafe : Int := 2 ^ 53 - 1

/-- The longest array there is. -/
def maxArray : Nat := 2 ^ 32 - 1

inductive RangeError where
  | unsigned (value : Int)
  | signed (value : Int)
deriving DecidableEq

def RangeError.message : RangeError → String
  | .unsigned value => "bincode: expected non-negative safe integer, received " ++ toString value
  | .signed value => "bincode: expected safe integer, received " ++ toString value

inductive DecodeError where
  | truncated (need offset left : Nat)
  | badBool (byte offset : Nat)
  | badOption (byte offset : Nat)
  | u128
  | badMarker (marker : Nat)
  | unsignedTooBig (value : Nat)
  | signedTooBig (value : Int)
  | trailing (left length : Nat)
  /-- The range error of an array that would be too long. -/
  | arrayLength
deriving DecidableEq

def hex (byte : Nat) : String := String.ofList (Nat.toDigits 16 byte)

def DecodeError.message : DecodeError → String
  | .truncated need offset left =>
    "bincode: truncated buffer (need " ++ toString need ++ " bytes at offset " ++ toString offset ++
      ", have " ++ toString left ++ ")"
  | .badBool byte offset => "bincode: invalid bool byte 0x" ++ hex byte ++ " at offset " ++ toString offset
  | .badOption byte offset => "bincode: invalid Option tag 0x" ++ hex byte ++ " at offset " ++ toString offset
  | .u128 => "bincode: u128 varint unsupported"
  | .badMarker marker => "bincode: unknown varint marker " ++ toString marker
  | .unsignedTooBig value =>
    "bincode: u64 value " ++ toString value ++ " exceeds Number.MAX_SAFE_INTEGER; caller should read as BigInt"
  | .signedTooBig value => "bincode: i64 value " ++ toString value ++ " outside Number.MAX_SAFE_INTEGER range"
  | .trailing left length =>
    "bincode: " ++ toString left ++ " trailing bytes after decoding " ++ toString length ++ " entries"
  | .arrayLength => "Invalid array length"

section Writing

/-- What a writer appends. -/
abbrev Written := Except RangeError Bytes

def writeVarintU64 (value : Int) : Written :=
  if maxSafe < value ∨ value < 0 then .error (.unsigned value) else .ok (encodeUInt value.toNat)

def zigzag (value : Int) : Nat := (if value ≥ 0 then value * 2 else -value * 2 - 1).toNat

def writeVarintI64 (value : Int) : Written :=
  if maxSafe < value ∨ value < -maxSafe then .error (.signed value) else .ok (encodeUInt (zigzag value))

def writeBool (value : Bool) : Written := .ok [if value then 1 else 0]

def writeString (value : Text) : Written := do
  let encoded := utf8.text value
  let length ← writeVarintU64 encoded.length
  return length ++ encoded

def writeOption {α : Type} (writeSome : α → Written) : Option α → Written
  | none => .ok [0]
  | some value => do
    let bytes ← writeSome value
    return 1 :: bytes

def writeAll {α : Type} (write : α → Written) : List α → Written
  | [] => .ok []
  | value :: rest => do
    let head ← write value
    let tail ← writeAll write rest
    return head ++ tail

def writeVec {α : Type} (write : α → Written) (values : List α) : Written := do
  let length ← writeVarintU64 values.length
  let elements ← writeAll write values
  return length ++ elements

def writeClientEntry (entry : ClientEntry) : Written := do
  let id ← writeVarintU64 entry.id
  let parentId ← writeOption writeVarintU64 entry.parentId
  let name ← writeString entry.name
  let size ← writeVarintU64 entry.size
  let mtimeMs ← writeVarintI64 entry.mtimeMs
  let ctimeMs ← writeVarintI64 entry.ctimeMs
  let symlinkTargetIsDir ← writeOption writeBool entry.symlinkTargetIsDir
  let pathSegments ← writeOption (writeVec writeString) entry.pathSegments
  let isIgnored ← writeBool entry.isIgnored
  let isReadonly ← writeBool entry.isReadonly
  let isHidden ← writeBool entry.isHidden
  return id ++ (parentId ++ (name ++ ([entry.kind] ++ (size ++ (mtimeMs ++ (ctimeMs ++
    (symlinkTargetIsDir ++ (pathSegments ++ (isIgnored ++ (isReadonly ++ isHidden))))))))))

def encodeClientEntries (entries : List ClientEntry) : Written := writeVec writeClientEntry entries

end Writing

section Reading

abbrev Read (α : Type) := Reader DecodeError α

def readBytes (count : Nat) : Read Bytes :=
  Reader.ensure count (.truncated count) >>= fun _ => Reader.raw count

/-- A little-endian integer of a fixed width. -/
def readFixed (width : Nat) : Read Nat := do
  let bytes ← readBytes width
  return leValue bytes

def readU8 : Read Nat := readFixed 1

def readBool : Read Bool := do
  let byte ← readU8
  if byte ≠ 0 ∧ byte ≠ 1 then
    let position ← Reader.position
    Reader.throw (.badBool byte (position - 1))
  else return byte = 1

def readVarintU64 : Read Nat := do
  let head ← readU8
  if head < 251 then return head
  else if head = 251 then readFixed 2
  else if head = 252 then readFixed 4
  else if head = 253 then readFixed 8
  else if head = 254 then Reader.throw .u128
  else Reader.throw (.badMarker head)

def readVarintI64 : Read Int := do
  let value ← readVarintU64
  return Int.xor (value / 2 : Nat) (-(value % 2 : Nat))

def readVarintU64AsNumber : Read Int := do
  let value ← readVarintU64
  if maxSafe < value then Reader.throw (.unsignedTooBig value) else return value

def readVarintI64AsNumber : Read Int := do
  let value ← readVarintI64
  if maxSafe < value ∨ value < -maxSafe then Reader.throw (.signedTooBig value) else return value

/-- `TextDecoder('utf-8')`: the byte order mark is not kept. -/
def readString : Read Text := do
  let length ← readVarintU64
  let slice ← readBytes length
  return Utf8.decode false slice

def readOption {α : Type} (readSome : Read α) : Read (Option α) := do
  let tag ← readU8
  if tag = 0 then return none
  else if tag = 1 then
    let value ← readSome
    return some value
  else
    let position ← Reader.position
    Reader.throw (.badOption tag (position - 1))

/-- `new Array(length)`, filled by one read after the other. -/
def readArray {α : Type} (readElem : Read α) (length : Nat) : Read (List α) :=
  if maxArray < length then Reader.throw .arrayLength else readElem.times length

def readVec {α : Type} (readElem : Read α) : Read (List α) := do
  let length ← readVarintU64
  readArray readElem length

def readClientEntry : Read ClientEntry := do
  let id ← readVarintU64AsNumber
  let parentId ← readOption readVarintU64AsNumber
  let name ← readString
  let kind ← readU8
  let size ← readVarintU64AsNumber
  let mtimeMs ← readVarintI64AsNumber
  let ctimeMs ← readVarintI64AsNumber
  let symlinkTargetIsDir ← readOption readBool
  let pathSegments ← readOption (readVec readString)
  let isIgnored ← readBool
  let isReadonly ← readBool
  let isHidden ← readBool
  return ⟨id, parentId, name, UInt8.ofNat kind, size, mtimeMs, ctimeMs, symlinkTargetIsDir, pathSegments,
    isIgnored, isReadonly, isHidden⟩

def readClientEntries : Read (List ClientEntry) := do
  let length ← readVarintU64AsNumber
  readArray readClientEntry length.toNat

def decodeClientEntries (bytes : Bytes) : Except (Fault DecodeError) (List ClientEntry) :=
  match readClientEntries bytes 0 with
  | .error fault => .error fault
  | .ok (entries, position) =>
    if bytes.length - position ≠ 0 then .error (.thrown (.trailing (bytes.length - position) entries.length))
    else .ok entries

end Reading

section Bounds

theorem safe_readFixed (width : Nat) : Safe (readFixed width) :=
  (Safe.checked width _).bind fun _ => Safe.pure _

theorem safe_readBool : Safe readBool := by
  apply Safe.bind (safe_readFixed 1)
  intro byte
  split
  · exact Safe.position.bind fun _ => Safe.throw _
  · exact Safe.pure _

theorem safe_readVarintU64 : Safe readVarintU64 := by
  apply Safe.bind (safe_readFixed 1)
  intro head
  repeat' split
  · exact Safe.pure _
  · exact safe_readFixed 2
  · exact safe_readFixed 4
  · exact safe_readFixed 8
  · exact Safe.throw _
  · exact Safe.throw _

theorem safe_readVarintU64AsNumber : Safe readVarintU64AsNumber := by
  apply Safe.bind safe_readVarintU64
  intro value
  split
  · exact Safe.throw _
  · exact Safe.pure _

theorem safe_readVarintI64AsNumber : Safe readVarintI64AsNumber := by
  apply Safe.bind (.bind safe_readVarintU64 fun _ => Safe.pure _)
  intro value
  split
  · exact Safe.throw _
  · exact Safe.pure _

theorem safe_readString : Safe readString :=
  .bind safe_readVarintU64 fun _ => .bind (.checked _ _) fun _ => .pure _

theorem safe_readOption {α : Type} {readSome : Read α} (safe : Safe readSome) : Safe (readOption readSome) := by
  apply Safe.bind (safe_readFixed 1)
  intro tag
  repeat' split
  · exact Safe.pure _
  · exact safe.bind fun _ => Safe.pure _
  · exact Safe.position.bind fun _ => Safe.throw _

theorem safe_readArray {α : Type} {readElem : Read α} (safe : Safe readElem) (length : Nat) :
    Safe (readArray readElem length) := by
  rw [readArray]
  split
  · exact Safe.throw _
  · exact safe.times length

theorem safe_readClientEntry : Safe readClientEntry :=
  .bind safe_readVarintU64AsNumber fun _ =>
  .bind (safe_readOption safe_readVarintU64AsNumber) fun _ =>
  .bind safe_readString fun _ =>
  .bind (safe_readFixed 1) fun _ =>
  .bind safe_readVarintU64AsNumber fun _ =>
  .bind safe_readVarintI64AsNumber fun _ =>
  .bind safe_readVarintI64AsNumber fun _ =>
  .bind (safe_readOption safe_readBool) fun _ =>
  .bind (safe_readOption (.bind safe_readVarintU64 fun _ => safe_readArray safe_readString _)) fun _ =>
  .bind safe_readBool fun _ =>
  .bind safe_readBool fun _ =>
  .bind safe_readBool fun _ => Safe.pure _

theorem safe_readClientEntries : Safe readClientEntries :=
  .bind safe_readVarintU64AsNumber fun _ => safe_readArray safe_readClientEntry _

theorem decodeClientEntries_inside (bytes : Bytes) : decodeClientEntries bytes ≠ .error .outside := by
  intro outside
  rw [decodeClientEntries] at outside
  split at outside
  · next fault reads =>
    cases outside
    exact Safe.inside safe_readClientEntries bytes 0 (Nat.zero_le _) reads
  · split at outside <;> cases outside

theorem decodeClientEntries_trailing {bytes more : Bytes} {entries : List ClientEntry}
    (accepted : decodeClientEntries bytes = .ok entries) (nonempty : more ≠ []) :
    decodeClientEntries (bytes ++ more) = .error (.thrown (.trailing more.length entries.length)) := by
  rw [decodeClientEntries] at accepted ⊢
  split at accepted
  · cases accepted
  · next read position reads =>
    split at accepted
    · cases accepted
    · next whole =>
      cases accepted
      have within := (Safe.forward safe_readClientEntries bytes 0 _ _ (Nat.zero_le _) reads).2
      have last : position = bytes.length := by omega
      have positive := List.length_pos_iff.mpr nonempty
      rw [Safe.stable safe_readClientEntries bytes more 0 _ _ (Nat.zero_le _) reads]
      simp only [last, List.length_append, Nat.add_sub_cancel_left]
      rw [if_pos (by omega)]

end Bounds

section RoundTrip

variable {α β : Type}

/-- What is written is read as a value. -/
def Carries (written : Written) (reader : Read α) (value : α) : Prop :=
  ∃ bytes, written = .ok bytes ∧ Reads reader bytes value

theorem reads_readFixed (width value : Nat) (fits : value < 256 ^ width) :
    Reads (readFixed width) (leBytes width value) value := by
  have raw : Reads (readBytes width) (leBytes width value) (leBytes width value) := by
    have checked := @Reads.checked DecodeError (leBytes width value) (.truncated width)
    rwa [Bincode.length_leBytes] at checked
  have read := raw.build leValue
  rwa [Bincode.leValue_leBytes width value fits] at read

theorem reads_readU8 (byte : UInt8) : Reads readU8 [byte] byte.toNat := by
  have read := @Reads.checked DecodeError [byte] (.truncated 1)
  exact read.build leValue

theorem reads_readVarintU64 {value : Nat} (fits : value < 2 ^ 64) :
    Reads readVarintU64 (encodeUInt value) value := by
  rw [encodeUInt]
  split
  · next tiny =>
    have low : (UInt8.ofNat value).toNat = value := Utf8.toNat_ofNat (by omega)
    refine (reads_readU8 _).map ?_
    rw [low, if_pos tiny]
    exact Reads.pure _
  · split
    · next short => exact (reads_readU8 251).bind (reads_readFixed 2 value (by omega))
    · split
      · next middle => exact (reads_readU8 252).bind (reads_readFixed 4 value (by omega))
      · exact (reads_readU8 253).bind (reads_readFixed 8 value (by omega))

theorem carries_unsigned {value : Int} (positive : 0 ≤ value) (safe : value ≤ maxSafe) :
    Carries (writeVarintU64 value) readVarintU64AsNumber value := by
  have bound : value ≤ 2 ^ 53 - 1 := safe
  refine ⟨_, if_neg (by omega), (reads_readVarintU64 (by omega)).map ?_⟩
  have same : (value.toNat : Int) = value := Int.toNat_of_nonneg positive
  rw [same, if_neg (by omega)]
  exact Reads.pure value

theorem xor_zigzag (value : Int) :
    Int.xor (zigzag value / 2 : Nat) (-(zigzag value % 2 : Nat)) = value := by
  rw [zigzag]
  split
  · next positive =>
    obtain ⟨size, rfl⟩ := Int.eq_ofNat_of_zero_le positive
    have half : ((size : Int) * 2).toNat / 2 = size := by omega
    have even : ((size : Int) * 2).toNat % 2 = 0 := by omega
    rw [half, even]
    simp [Int.xor]
  · next negative =>
    obtain ⟨size, rfl⟩ := Int.eq_negSucc_of_lt_zero (by omega : value < 0)
    have half : (-Int.negSucc size * 2 - 1).toNat / 2 = size := by omega
    have odd : (-Int.negSucc size * 2 - 1).toNat % 2 = 1 := by omega
    rw [half, odd]
    exact congrArg Int.negSucc (Nat.xor_zero size)

theorem carries_signed {value : Int} (low : -maxSafe ≤ value) (high : value ≤ maxSafe) :
    Carries (writeVarintI64 value) readVarintI64AsNumber value := by
  have below : value ≤ 2 ^ 53 - 1 := high
  have above : -(2 ^ 53 - 1) ≤ value := low
  have fits : zigzag value < 2 ^ 64 := by
    rw [zigzag]
    split <;> omega
  have unfolded : Reads readVarintI64 (encodeUInt (zigzag value)) value := by
    have read := (reads_readVarintU64 fits).build fun read => Int.xor (read / 2 : Nat) (-(read % 2 : Nat))
    rwa [xor_zigzag] at read
  refine ⟨_, if_neg (by omega), unfolded.map ?_⟩
  rw [if_neg (by omega)]
  exact Reads.pure value

theorem carries_bool (value : Bool) : Carries (writeBool value) readBool value := by
  refine ⟨_, rfl, (reads_readU8 _).map ?_⟩
  cases value <;> exact Reads.pure _

theorem carries_option {writeSome : α → Written} {readSome : Read β} (value : α → β) (option : Option α)
    (carries : ∀ item ∈ option, Carries (writeSome item) readSome (value item)) :
    Carries (writeOption writeSome option) (readOption readSome) (option.map value) := by
  cases option with
  | none => exact ⟨_, rfl, (reads_readU8 0).map (Reads.pure none)⟩
  | some item =>
    obtain ⟨bytes, written, reads⟩ := carries item rfl
    refine ⟨1 :: bytes, ?_, (reads_readU8 1).bind (reads.map (Reads.pure _))⟩
    rw [writeOption, written]
    rfl

/-- A string whose bytes fit a typed array. -/
def TextFits (text : Text) : Prop := ((utf8.text text).length : Int) ≤ maxSafe

instance (text : Text) : Decidable (TextFits text) := inferInstanceAs (Decidable (_ ≤ _))

theorem carries_string {text : Text} (fits : TextFits text) :
    Carries (writeString text) readString (Utf8.dropMark text) := by
  have bound : ((utf8.text text).length : Int) ≤ 2 ^ 53 - 1 := fits
  have length : writeVarintU64 (utf8.text text).length = .ok (encodeUInt (utf8.text text).length) :=
    if_neg (by rw [maxSafe]; omega)
  refine ⟨encodeUInt (utf8.text text).length ++ utf8.text text, ?_, ?_⟩
  · rw [writeString, length]
    rfl
  · refine (reads_readVarintU64 (by omega)).bind ?_
    have slice := @Reads.checked DecodeError (utf8.text text) (.truncated (utf8.text text).length)
    have decoded := slice.build (Utf8.decode false)
    rwa [Utf8.decode_text] at decoded

theorem carries_all {write : α → Written} {readElem : Read β} {value : α → β} (items : List α)
    (carries : ∀ item ∈ items, Carries (write item) readElem (value item)) :
    Carries (writeAll write items) (readElem.times items.length) (items.map value) := by
  induction items with
  | nil => exact ⟨[], rfl, Reads.pure []⟩
  | cons item rest ih =>
    obtain ⟨head, written, reads⟩ := carries item List.mem_cons_self
    obtain ⟨tail, writtenRest, readsRest⟩ := ih fun other member => carries other (List.mem_cons_of_mem _ member)
    refine ⟨head ++ tail, ?_, reads.bind (readsRest.map (Reads.pure _))⟩
    rw [writeAll, written, writtenRest]
    rfl

theorem carries_array {write : α → Written} {readElem : Read β} (value : α → β) {items : List α}
    (short : items.length ≤ maxArray)
    (carries : ∀ item ∈ items, Carries (write item) readElem (value item)) :
    ∃ elements, writeVec write items = .ok (encodeUInt items.length ++ elements) ∧
      Reads (readArray readElem items.length) elements (items.map value) := by
  obtain ⟨elements, written, reads⟩ := carries_all items carries
  have bound : items.length ≤ 2 ^ 32 - 1 := short
  have length : writeVarintU64 items.length = .ok (encodeUInt items.length) :=
    if_neg (by rw [maxSafe]; omega)
  refine ⟨elements, ?_, ?_⟩
  · rw [writeVec, length, written]
    rfl
  · rw [readArray, if_neg (Nat.not_lt.mpr short)]
    exact reads

theorem carries_vec {write : α → Written} {readElem : Read β} (value : α → β) {items : List α}
    (short : items.length ≤ maxArray)
    (carries : ∀ item ∈ items, Carries (write item) readElem (value item)) :
    Carries (writeVec write items) (readVec readElem) (items.map value) := by
  obtain ⟨elements, written, reads⟩ := carries_array value short carries
  have bound : items.length ≤ 2 ^ 32 - 1 := short
  exact ⟨_, written, (reads_readVarintU64 (by omega)).bind reads⟩

/-- Ids and sizes are non-negative and safe, times are safe, and strings and arrays are no
longer than strings and arrays can be. -/
structure ClientEntry.Valid (entry : ClientEntry) : Prop where
  id : 0 ≤ entry.id ∧ entry.id ≤ maxSafe
  parentId : ∀ id ∈ entry.parentId, 0 ≤ id ∧ id ≤ maxSafe
  name : TextFits entry.name
  size : 0 ≤ entry.size ∧ entry.size ≤ maxSafe
  mtimeMs : -maxSafe ≤ entry.mtimeMs ∧ entry.mtimeMs ≤ maxSafe
  ctimeMs : -maxSafe ≤ entry.ctimeMs ∧ entry.ctimeMs ≤ maxSafe
  pathSegments : ∀ segments ∈ entry.pathSegments,
    segments.length ≤ maxArray ∧ ∀ segment ∈ segments, TextFits segment

/-- The entry as it arrives: its strings lose a leading byte order mark. -/
def ClientEntry.unmarked (entry : ClientEntry) : ClientEntry :=
  { entry with
    name := Utf8.dropMark entry.name
    pathSegments := entry.pathSegments.map (List.map Utf8.dropMark) }

theorem carries_entry {entry : ClientEntry} (valid : entry.Valid) :
    Carries (writeClientEntry entry) readClientEntry entry.unmarked := by
  obtain ⟨id, writesId, readsId⟩ := carries_unsigned valid.id.1 valid.id.2
  obtain ⟨parentId, writesParentId, readsParentId⟩ := carries_option (fun id => id) entry.parentId
    fun id member => carries_unsigned (valid.parentId id member).1 (valid.parentId id member).2
  obtain ⟨name, writesName, readsName⟩ := carries_string valid.name
  obtain ⟨size, writesSize, readsSize⟩ := carries_unsigned valid.size.1 valid.size.2
  obtain ⟨mtime, writesMtime, readsMtime⟩ := carries_signed valid.mtimeMs.1 valid.mtimeMs.2
  obtain ⟨ctime, writesCtime, readsCtime⟩ := carries_signed valid.ctimeMs.1 valid.ctimeMs.2
  obtain ⟨symlink, writesSymlink, readsSymlink⟩ := carries_option (fun flag => flag) entry.symlinkTargetIsDir
    fun flag _ => carries_bool flag
  obtain ⟨segments, writesSegments, readsSegments⟩ := carries_option (List.map Utf8.dropMark) entry.pathSegments
    fun list member => carries_vec Utf8.dropMark (valid.pathSegments list member).1
      fun segment inList => carries_string ((valid.pathSegments list member).2 segment inList)
  obtain ⟨ignored, writesIgnored, readsIgnored⟩ := carries_bool entry.isIgnored
  obtain ⟨readonly, writesReadonly, readsReadonly⟩ := carries_bool entry.isReadonly
  obtain ⟨hidden, writesHidden, readsHidden⟩ := carries_bool entry.isHidden
  refine ⟨id ++ (parentId ++ (name ++ ([entry.kind] ++ (size ++ (mtime ++ (ctime ++ (symlink ++
    (segments ++ (ignored ++ (readonly ++ hidden)))))))))), ?_, ?_⟩
  · rw [writeClientEntry, writesId, writesParentId, writesName, writesSize, writesMtime, writesCtime,
      writesSymlink, writesSegments, writesIgnored, writesReadonly, writesHidden]
    rfl
  · rw [Option.map_id'] at readsParentId readsSymlink
    have kind : UInt8.ofNat entry.kind.toNat = entry.kind := UInt8.ofNat_toNat
    have built : entry.unmarked = ⟨entry.id, entry.parentId, Utf8.dropMark entry.name,
        UInt8.ofNat entry.kind.toNat, entry.size, entry.mtimeMs, entry.ctimeMs, entry.symlinkTargetIsDir,
        entry.pathSegments.map (List.map Utf8.dropMark), entry.isIgnored, entry.isReadonly, entry.isHidden⟩ := by
      rw [kind]
      rfl
    rw [built, readClientEntry]
    exact readsId.bind (readsParentId.bind (readsName.bind ((reads_readU8 entry.kind).bind
      (readsSize.bind (readsMtime.bind (readsCtime.bind (readsSymlink.bind (readsSegments.bind
      (readsIgnored.bind (readsReadonly.bind (readsHidden.map (Reads.pure _))))))))))))

theorem decode_encode {entries : List ClientEntry} (short : entries.length ≤ maxArray)
    (valid : ∀ entry ∈ entries, entry.Valid) :
    ∃ bytes, encodeClientEntries entries = .ok bytes ∧
      decodeClientEntries bytes = .ok (entries.map ClientEntry.unmarked) := by
  obtain ⟨elements, written, reads⟩ := carries_array ClientEntry.unmarked short
    fun entry member => carries_entry (valid entry member)
  have bound : entries.length ≤ 2 ^ 32 - 1 := short
  have number : Reads readVarintU64AsNumber (encodeUInt entries.length) entries.length := by
    refine (reads_readVarintU64 (by omega)).map ?_
    rw [if_neg (by rw [maxSafe]; omega)]
    exact Reads.pure _
  have whole : Reads readClientEntries (encodeUInt entries.length ++ elements)
      (entries.map ClientEntry.unmarked) := number.bind reads
  refine ⟨_, written, ?_⟩
  have read := whole [] []
  simp only [List.nil_append, List.append_nil, List.length_nil, Nat.zero_add] at read
  rw [decodeClientEntries, read]
  simp

/-- The strings of an entry. -/
def ClientEntry.texts (entry : ClientEntry) : List Text := entry.name :: entry.pathSegments.getD []

theorem map_eq_self {items : List α} {change : α → α} : items.map change = items ↔ ∀ item ∈ items, change item = item := by
  have same := @List.map_inj_left _ _ items change id
  rwa [List.map_id] at same

theorem unmarked_eq_self (entry : ClientEntry) :
    entry.unmarked = entry ↔ ∀ text ∈ entry.texts, text.head? ≠ some Utf8.byteOrderMark := by
  simp only [← Utf8.dropMark_eq_self]
  obtain ⟨id, parentId, name, kind, size, mtimeMs, ctimeMs, symlinkTargetIsDir, pathSegments, ignored,
    readonly, hidden⟩ := entry
  have segments : pathSegments.map (List.map Utf8.dropMark) = pathSegments ↔
      ∀ text ∈ pathSegments.getD [], Utf8.dropMark text = text := by
    cases pathSegments with
    | none => simp
    | some list => simp [map_eq_self]
  simp [ClientEntry.unmarked, ClientEntry.texts, segments]

/-- What is encoded is read back. -/
def RoundTrips (entries : List ClientEntry) : Prop :=
  ∃ bytes, encodeClientEntries entries = .ok bytes ∧ decodeClientEntries bytes = .ok entries

/-- The decoder stays inside this buffer, and refuses it with more bytes behind. -/
def Bounded (bytes : Bytes) : Prop :=
  decodeClientEntries bytes ≠ .error .outside ∧
    ∀ entries more, decodeClientEntries bytes = .ok entries → more ≠ [] →
      ∃ error, decodeClientEntries (bytes ++ more) = .error (.thrown error)

/-- Entries come back as they were exactly when none of their strings starts with a byte order
mark; the decoder is bounded on every buffer. -/
theorem roundTrips_iff {entries : List ClientEntry} (short : entries.length ≤ maxArray)
    (valid : ∀ entry ∈ entries, entry.Valid) :
    RoundTrips entries ∧ (∀ bytes, Bounded bytes) ↔
      ∀ entry ∈ entries, ∀ text ∈ entry.texts, text.head? ≠ some Utf8.byteOrderMark := by
  obtain ⟨bytes, written, read⟩ := decode_encode short valid
  have bounded : ∀ bytes, Bounded bytes := by
    intro bytes
    refine ⟨decodeClientEntries_inside bytes, ?_⟩
    intro entries more accepted nonempty
    exact ⟨_, decodeClientEntries_trailing accepted nonempty⟩
  have same : RoundTrips entries ↔ entries.map ClientEntry.unmarked = entries := by
    constructor
    · rintro ⟨others, writtenOthers, readOthers⟩
      rw [written] at writtenOthers
      cases writtenOthers
      rw [read] at readOthers
      exact Except.ok.inj readOthers
    · intro unchanged
      exact ⟨bytes, written, by rw [read, unchanged]⟩
  rw [and_iff_left bounded, same, map_eq_self]
  simp only [unmarked_eq_self]

/-- A file on its own in the root. -/
def sampleEntry (name : Text) : ClientEntry where
  id := 7
  parentId := some 1
  name := name
  kind := 0
  size := 300
  mtimeMs := -1
  ctimeMs := 70000
  symlinkTargetIsDir := none
  pathSegments := some [name]
  isIgnored := false
  isReadonly := true
  isHidden := false

theorem sampleEntry_valid {name : Text} (fits : TextFits name) : (sampleEntry name).Valid where
  id := by simp [sampleEntry, maxSafe]
  parentId := by simp [sampleEntry, maxSafe]
  name := fits
  size := by simp [sampleEntry, maxSafe]
  mtimeMs := by simp [sampleEntry, maxSafe]
  ctimeMs := by simp [sampleEntry, maxSafe]
  pathSegments := by
    rintro segments ⟨⟩
    refine ⟨by simp [maxArray], ?_⟩
    intro segment member
    rw [List.mem_singleton.mp member]
    exact fits

theorem roundTrips_iff_plain :
    RoundTrips [sampleEntry ['a']] ∧ (∀ bytes, Bounded bytes) ↔
      ∀ entry ∈ [sampleEntry ['a']], ∀ text ∈ entry.texts, text.head? ≠ some Utf8.byteOrderMark :=
  roundTrips_iff (by simp [maxArray]) (by
    intro entry member
    rw [List.mem_singleton.mp member]
    exact sampleEntry_valid (by decide))

/-- A name that starts with U+FEFF comes back without it. -/
theorem byteOrderMark_lost :
    (sampleEntry ['\uFEFF', 'a']).Valid ∧ ¬RoundTrips [sampleEntry ['\uFEFF', 'a']] := by
  refine ⟨sampleEntry_valid (by decide), ?_⟩
  rintro ⟨bytes, written, read⟩
  have loses : (encodeClientEntries [sampleEntry ['\uFEFF', 'a']]).toOption.map decodeClientEntries =
      some (.ok [sampleEntry ['a']]) := by decide
  rw [written] at loses
  rw [Except.toOption, Option.map_some, read] at loses
  exact absurd loses (by decide)

end RoundTrip

end Mille.EntryCodec
