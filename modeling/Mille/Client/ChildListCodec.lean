import Mille.Client.EntryCodec
import Mille.Lib.Float64

/-! The packed codec of child lists: a header, then for each parent a record of its id, its
children in one of two widths, and padding to the next eight bytes. Lists are decoded as
typed views of the buffer. -/

namespace Mille.ChildListCodec

open Bincode (Bytes leBytes leValue)
open EntryCodec (maxSafe maxArray)

def magic : Nat := 0x314c434d

def headerBytes : Nat := 8

def recordHeaderBytes : Nat := 16

def maxUint32 : Nat := 0xffffffff

def align8 (value : Nat) : Nat := (value + 7) / 8 * 8

section Encoding

inductive EncodeError where
  | badId (label : String) (value : Int)
  /-- A write past the end of the buffer. -/
  | outside
deriving DecidableEq

def EncodeError.message : EncodeError → String
  | .badId label value => label ++ ": expected a non-negative safe integer, received " ++ toString value
  | .outside => "Offset is outside the bounds of the DataView"

def assertId (label : String) (value : Int) : Except EncodeError Unit :=
  if maxSafe < value ∨ value < 0 then .error (.badId label value) else .ok ()

def assertIds (label : String) : List Int → Except EncodeError Unit
  | [] => .ok ()
  | id :: rest => do
    assertId label id
    assertIds label rest

structure Record where
  parentId : Nat
  ids : List Nat
  width : Nat

/-- Four bytes for each child, unless one of them needs eight. -/
def childWidth (ids : List Int) : Nat := if ids.any fun id => maxUint32 < id then 8 else 4

def recordOf (list : Int × List Int) : Except EncodeError Record := do
  assertId "child-list parent id" list.1
  assertIds "child-list child id" list.2
  return ⟨list.1.toNat, list.2.map Int.toNat, childWidth list.2⟩

def recordsOf : List (Int × List Int) → Except EncodeError (List Record)
  | [] => .ok []
  | list :: rest => do
    let record ← recordOf list
    let records ← recordsOf rest
    return record :: records

def Record.bytes (record : Record) : Nat := recordHeaderBytes + record.ids.length * record.width

def byteLength (records : List Record) : Nat :=
  headerBytes + (records.map fun record => align8 record.bytes).sum

/-- A write through a data view. -/
def put (buffer : Bytes) (offset : Nat) (bytes : Bytes) : Except EncodeError Bytes :=
  if offset + bytes.length ≤ buffer.length then
    .ok (buffer.take offset ++ bytes ++ buffer.drop (offset + bytes.length))
  else .error .outside

def childBytes (width id : Nat) : Bytes :=
  if width = 4 then leBytes 4 id else leBytes 8 (Float64.ofNat id)

def putIds (width : Nat) (buffer : Bytes) (childOffset : Nat) : List Nat → Except EncodeError Bytes
  | [] => .ok buffer
  | id :: rest => do
    let buffer ← put buffer childOffset (childBytes width id)
    putIds width buffer (childOffset + width) rest

def putRecord (buffer : Bytes) (offset : Nat) (record : Record) : Except EncodeError Bytes := do
  let buffer ← put buffer offset (leBytes 8 (Float64.ofNat record.parentId))
  let buffer ← put buffer (offset + 8) (leBytes 4 record.ids.length)
  let buffer ← put buffer (offset + 12) (leBytes 1 record.width)
  putIds record.width buffer (offset + recordHeaderBytes) record.ids

def putRecords (buffer : Bytes) (offset : Nat) : List Record → Except EncodeError Bytes
  | [] => .ok buffer
  | record :: rest => do
    let buffer ← putRecord buffer offset record
    putRecords buffer (offset + align8 record.bytes) rest

/-- The entries of the map, in its order. -/
def encodeChildLists (lists : List (Int × List Int)) : Except EncodeError Bytes := do
  let records ← recordsOf lists
  let buffer ← put (List.replicate (byteLength records) 0) 0 (leBytes 4 magic)
  let buffer ← put buffer 4 (leBytes 4 records.length)
  putRecords buffer headerBytes records

end Encoding

section Decoding

inductive DecodeError where
  | truncatedHeader
  | badMagic
  | truncatedRecord (index : Nat)
  | badParent (bits : Nat)
  | badWidth (width : Nat)
  | truncatedChildren (parent : Nat)
  | badChild (bits : Nat)
  | duplicate (parent : Nat)
  | trailing (left : Nat)
deriving DecidableEq

/-- The message; `number` prints the double of some bits. -/
def DecodeError.message (number : Nat → String) : DecodeError → String
  | .truncatedHeader => "child-list: truncated header"
  | .badMagic => "child-list: invalid magic"
  | .truncatedRecord index => "child-list: truncated record " ++ toString index
  | .badParent bits => "child-list: invalid parent id " ++ number bits
  | .badWidth width => "child-list: invalid id width " ++ toString width
  | .truncatedChildren parent => "child-list: truncated children for parent " ++ toString parent
  | .badChild bits => "child-list: invalid child id " ++ number bits
  | .duplicate parent => "child-list: duplicate parent " ++ toString parent
  | .trailing left => "child-list: " ++ toString left ++ " trailing bytes"

inductive Failure where
  | decode (error : DecodeError)
  /-- A read past the end of the buffer, or a view that is not aligned. -/
  | range
deriving DecidableEq

/-- Some bytes of a buffer. -/
structure ByteView where
  buffer : Bytes
  byteOffset : Nat
  byteLength : Nat
  fits : byteOffset + byteLength ≤ buffer.length

inductive Packed where
  | arrayBuffer (buffer : Bytes)
  | uint8Array (view : ByteView)

def ByteView.whole (buffer : Bytes) : ByteView := ⟨buffer, 0, buffer.length, by omega⟩

/-- The bytes at the start of a buffer of their own. -/
def ByteView.copy (view : ByteView) : ByteView where
  buffer := (view.buffer.drop view.byteOffset).take view.byteLength
  byteOffset := 0
  byteLength := view.byteLength
  fits := by
    have := view.fits
    rw [List.length_take, List.length_drop]
    omega

def exactAlignedBytes : Packed → ByteView
  | .arrayBuffer buffer => .whole buffer
  | .uint8Array view =>
    if view.byteOffset % 8 = 0 ∧ view.byteLength = view.buffer.length then view else view.copy

/-- Some little-endian bytes of a buffer. -/
def bitsAt (buffer : Bytes) (byteOffset width : Nat) : Nat :=
  leValue ((buffer.drop byteOffset).take width)

/-- A read through the data view of the bytes. -/
def ByteView.get (view : ByteView) (offset width : Nat) : Except Failure Nat :=
  if offset + width ≤ view.byteLength then .ok (bitsAt view.buffer (view.byteOffset + offset) width)
  else .error .range

/-- The elements of a typed array, as bits. -/
def elementsAt (buffer : Bytes) (byteOffset width count : Nat) : List Nat :=
  (List.range count).map fun index => bitsAt buffer (byteOffset + index * width) width

/-- A typed array over the buffer. -/
def typedArray (buffer : Bytes) (byteOffset count width : Nat) : Except Failure (List Nat) :=
  if byteOffset % width = 0 ∧ byteOffset + count * width ≤ buffer.length then
    .ok (elementsAt buffer byteOffset width count)
  else .error .range

/-- A decoded list: a view of the buffer and the ids in it. -/
structure ChildIdList where
  width : Nat
  byteOffset : Nat
  ids : List Nat
deriving DecidableEq

def safeIds : List Nat → Except Failure (List Nat)
  | [] => .ok []
  | bits :: rest =>
    match Float64.safeNat? bits with
    | none => .error (.decode (.badChild bits))
    | some id => do
      let ids ← safeIds rest
      return id :: ids

/-- The ids in a typed array of 32-bit integers or of doubles. -/
def idsOf (width : Nat) (elements : List Nat) : Except Failure (List Nat) :=
  if width = 4 then .ok elements else safeIds elements

/-- One record: its parent, its list and where the next one starts. -/
def decodeRecord (view : ByteView) (index offset : Nat) (lists : List (Nat × ChildIdList)) :
    Except Failure (Nat × ChildIdList × Nat) :=
  if offset + recordHeaderBytes > view.byteLength then .error (.decode (.truncatedRecord index))
  else do
    let parentBits ← view.get offset 8
    match Float64.safeNat? parentBits with
    | none => .error (.decode (.badParent parentBits))
    | some parent =>
      let count ← view.get (offset + 8) 4
      let width ← view.get (offset + 12) 1
      if width ≠ 4 ∧ width ≠ 8 then .error (.decode (.badWidth width))
      else
        let next := offset + align8 (recordHeaderBytes + count * width)
        if next > view.byteLength then .error (.decode (.truncatedChildren parent))
        else
          let byteOffset := view.byteOffset + offset + recordHeaderBytes
          let elements ← typedArray view.buffer byteOffset count width
          let ids ← idsOf width elements
          if lists.any fun list => list.1 = parent then .error (.decode (.duplicate parent))
          else .ok (parent, ⟨width, byteOffset, ids⟩, next)

def decodeRecords (view : ByteView) : Nat → Nat → Nat → List (Nat × ChildIdList) →
    Except Failure (List (Nat × ChildIdList) × Nat)
  | 0, _, offset, lists => .ok (lists, offset)
  | left + 1, index, offset, lists => do
    let (parent, ids, next) ← decodeRecord view index offset lists
    decodeRecords view left (index + 1) next (lists ++ [(parent, ids)])

def decodeChildLists (packed : Packed) : Except Failure (List (Nat × ChildIdList)) :=
  let bytes := exactAlignedBytes packed
  if bytes.byteLength < headerBytes then .error (.decode .truncatedHeader)
  else do
    let found ← bytes.get 0 4
    if found ≠ magic then .error (.decode .badMagic)
    else
      let parentCount ← bytes.get 4 4
      let (lists, offset) ← decodeRecords bytes parentCount 0 headerBytes []
      if offset ≠ bytes.byteLength then .error (.decode (.trailing (bytes.byteLength - offset)))
      else .ok lists

end Decoding

section Layout

/-- A record a decoder can read back. -/
structure Record.Good (record : Record) : Prop where
  parent : record.parentId < 2 ^ 53
  children : ∀ id ∈ record.ids, id < 2 ^ 53
  width : record.width = 4 ∧ (∀ id ∈ record.ids, id < 2 ^ 32) ∨ record.width = 8
  short : record.ids.length < 2 ^ 32

def Record.children (record : Record) : Bytes := record.ids.flatMap (childBytes record.width)

/-- The bytes of a record, padding included. -/
def Record.layout (record : Record) : Bytes :=
  leBytes 8 (Float64.ofNat record.parentId) ++ (leBytes 4 record.ids.length ++ (leBytes 1 record.width ++
    (List.replicate 3 0 ++ (record.children ++ List.replicate (align8 record.bytes - record.bytes) 0))))

theorem align8_bounds (value : Nat) :
    value ≤ align8 value ∧ align8 value < value + 8 ∧ align8 value % 8 = 0 := by
  rw [align8]
  omega

theorem length_childBytes {width : Nat} (known : width = 4 ∨ width = 8) (id : Nat) :
    (childBytes width id).length = width := by
  rcases known with rfl | rfl <;> simp [childBytes]

theorem length_children {record : Record} (known : record.width = 4 ∨ record.width = 8) :
    record.children.length = record.ids.length * record.width := by
  rw [Record.children, List.length_flatMap]
  simp only [length_childBytes known]
  rw [List.map_const', List.sum_replicate]
  rfl

theorem length_layout {record : Record} (known : record.width = 4 ∨ record.width = 8) :
    record.layout.length = align8 record.bytes := by
  have padded := (align8_bounds record.bytes).1
  have whole : record.bytes = 16 + record.ids.length * record.width := rfl
  simp only [Record.layout, List.length_append, Bincode.length_leBytes, List.length_replicate,
    length_children known]
  omega

theorem put_zeros (written bytes : Bytes) (rest : Nat) :
    put (written ++ List.replicate (bytes.length + rest) 0) written.length bytes =
      .ok (written ++ bytes ++ List.replicate rest 0) := by
  rw [put, if_pos (by simp), List.take_left' rfl, ← List.drop_drop, List.drop_left' rfl, List.drop_replicate,
    Nat.add_sub_cancel_left]

theorem putIds_zeros {width : Nat} (known : width = 4 ∨ width = 8) (ids : List Nat) (written : Bytes) (rest : Nat) :
    putIds width (written ++ List.replicate (ids.length * width + rest) 0) written.length ids =
      .ok (written ++ ids.flatMap (childBytes width) ++ List.replicate rest 0) := by
  induction ids generalizing written with
  | nil => simp [putIds]
  | cons id others ih =>
    have size := length_childBytes known id
    have zeros : (id :: others).length * width + rest =
        (childBytes width id).length + (others.length * width + rest) := by
      rw [size, List.length_cons]
      ring
    have later := ih (written ++ childBytes width id)
    rw [List.length_append, size] at later
    rw [zeros, putIds, put_zeros]
    simp only [bind, Except.bind]
    rw [later]
    simp

theorem putRecord_zeros {record : Record} (known : record.width = 4 ∨ record.width = 8) (written : Bytes)
    (rest : Nat) :
    putRecord (written ++ List.replicate (align8 record.bytes + rest) 0) written.length record =
      .ok (written ++ record.layout ++ List.replicate rest 0) := by
  have padded := (align8_bounds record.bytes).1
  have whole : record.bytes = 16 + record.ids.length * record.width := rfl
  obtain ⟨padding, total⟩ : ∃ padding, align8 record.bytes - record.bytes = padding := ⟨_, rfl⟩
  have parent := put_zeros written (leBytes 8 (Float64.ofNat record.parentId))
    (4 + (1 + (3 + record.ids.length * record.width + padding + rest)))
  have count := put_zeros (written ++ leBytes 8 (Float64.ofNat record.parentId))
    (leBytes 4 record.ids.length) (1 + (3 + record.ids.length * record.width + padding + rest))
  have width := put_zeros (written ++ leBytes 8 (Float64.ofNat record.parentId) ++
    leBytes 4 record.ids.length) (leBytes 1 record.width) (3 + record.ids.length * record.width + padding + rest)
  have children := putIds_zeros known record.ids (written ++ leBytes 8 (Float64.ofNat record.parentId) ++
    leBytes 4 record.ids.length ++ leBytes 1 record.width ++ List.replicate 3 0) (padding + rest)
  simp only [List.length_append, Bincode.length_leBytes, List.length_replicate] at parent count width children
  have zeros : align8 record.bytes + rest =
      8 + (4 + (1 + (3 + record.ids.length * record.width + padding + rest))) := by omega
  -- the reserved bytes stay zero
  have reserved : List.replicate (3 + record.ids.length * record.width + padding + rest) (0 : UInt8) =
      List.replicate 3 0 ++ List.replicate (record.ids.length * record.width + (padding + rest)) 0 := by
    rw [List.replicate_append_replicate]
    congr 1
    omega
  have start : written.length + recordHeaderBytes = written.length + 8 + 4 + 1 + 3 := rfl
  rw [putRecord, zeros, parent]
  simp only [bind, Except.bind]
  rw [count]
  simp only
  rw [width]
  simp only
  rw [reserved, ← List.append_assoc, start, children, Record.layout, total, Record.children,
    ← List.replicate_append_replicate]
  simp only [List.append_assoc]

theorem putRecords_zeros (records : List Record) (good : ∀ record ∈ records, record.width = 4 ∨ record.width = 8)
    (written : Bytes) :
    putRecords (written ++ List.replicate (records.map fun record => align8 record.bytes).sum 0) written.length
      records = .ok (written ++ records.flatMap Record.layout) := by
  induction records generalizing written with
  | nil => simp [putRecords]
  | cons record rest ih =>
    have known := good record List.mem_cons_self
    have later := ih (fun other member => good other (List.mem_cons_of_mem _ member)) (written ++ record.layout)
    rw [List.length_append, length_layout known] at later
    rw [List.map_cons, List.sum_cons, putRecords, putRecord_zeros known]
    simp only [bind, Except.bind]
    rw [later]
    simp

theorem encode_records {lists : List (Int × List Int)} {records : List Record} (made : recordsOf lists = .ok records)
    (good : ∀ record ∈ records, record.width = 4 ∨ record.width = 8) :
    encodeChildLists lists =
      .ok (leBytes 4 magic ++ leBytes 4 records.length ++ records.flatMap Record.layout) := by
  have first := put_zeros [] (leBytes 4 magic) (4 + (records.map fun record => align8 record.bytes).sum)
  have second := put_zeros (leBytes 4 magic) (leBytes 4 records.length)
    (records.map fun record => align8 record.bytes).sum
  have third := putRecords_zeros records good (leBytes 4 magic ++ leBytes 4 records.length)
  simp only [List.length_append, Bincode.length_leBytes, List.nil_append, List.length_nil] at first second third
  have zeros : byteLength records = 4 + (4 + (records.map fun record => align8 record.bytes).sum) := by
    rw [byteLength, headerBytes]
    omega
  rw [encodeChildLists, made]
  simp only [bind, Except.bind]
  rw [zeros, first]
  simp only
  rw [second]
  exact third

end Layout

section RoundTrip

theorem bitsAt_append (before bytes after : Bytes) :
    bitsAt (before ++ (bytes ++ after)) before.length bytes.length = leValue bytes := by
  rw [bitsAt, List.drop_left' rfl, List.take_left' rfl]

theorem get_ok {view : ByteView} {offset width : Nat} (inside : offset + width ≤ view.byteLength) :
    view.get offset width = .ok (bitsAt view.buffer (view.byteOffset + offset) width) :=
  if_pos inside

theorem elementsAt_children {width : Nat} (known : width = 4 ∨ width = 8) (ids : List Nat) (before after : Bytes) :
    elementsAt (before ++ (ids.flatMap (childBytes width) ++ after)) before.length width ids.length =
      ids.map fun id => leValue (childBytes width id) := by
  induction ids generalizing before with
  | nil => rfl
  | cons id rest ih =>
    have size := length_childBytes known id
    have first := bitsAt_append before (childBytes width id) (rest.flatMap (childBytes width) ++ after)
    have later := ih (before ++ childBytes width id)
    rw [size] at first
    rw [elementsAt, List.length_append, size] at later
    rw [elementsAt, List.length_cons, List.range_succ_eq_map, List.map_cons, List.map_cons, List.map_map,
      List.flatMap_cons, List.append_assoc, Nat.zero_mul, Nat.add_zero, first, ← later, List.append_assoc]
    congr 1
    apply List.map_congr_left
    intro index _
    rw [Function.comp_apply, Nat.succ_mul, Nat.add_comm (index * width), Nat.add_assoc]

theorem leValue_child32 {id : Nat} (small : id < 2 ^ 32) : leValue (childBytes 4 id) = id := by
  rw [childBytes, if_pos rfl, Bincode.leValue_leBytes 4 id (by omega)]

theorem leValue_child64 {id : Nat} (safe : id < 2 ^ 53) : leValue (childBytes 8 id) = Float64.ofNat id := by
  have bits := Float64.ofNat_lt safe
  rw [childBytes, if_neg (by decide), Bincode.leValue_leBytes 8 _ (by omega)]

theorem safeIds_ofNat {ids : List Nat} (safe : ∀ id ∈ ids, id < 2 ^ 53) :
    safeIds (ids.map Float64.ofNat) = .ok ids := by
  induction ids with
  | nil => rfl
  | cons id rest ih =>
    rw [List.map_cons, safeIds, Float64.safeNat?_ofNat (safe id List.mem_cons_self)]
    simp only [bind, Except.bind]
    rw [ih fun other member => safe other (List.mem_cons_of_mem _ member)]
    rfl

theorem ids_of_elements {record : Record} (good : record.Good) (before after : Bytes) :
    idsOf record.width (elementsAt (before ++ (record.children ++ after)) before.length record.width
      record.ids.length) = .ok record.ids := by
  have known : record.width = 4 ∨ record.width = 8 := good.width.imp And.left id
  rw [Record.children, elementsAt_children known, idsOf]
  rcases good.width with ⟨narrow, small⟩ | wide
  · rw [narrow, if_pos rfl]
    congr 1
    rw [EntryCodec.map_eq_self]
    intro id member
    exact leValue_child32 (small id member)
  · rw [wide, if_neg (by decide)]
    have bits : (record.ids.map fun id => leValue (childBytes 8 id)) = record.ids.map Float64.ofNat := by
      apply List.map_congr_left
      intro id member
      exact leValue_child64 (good.children id member)
    rw [bits]
    exact safeIds_ofNat good.children

/-- A good record is read back where it stands. -/
theorem decodeRecord_layout {record : Record} (good : record.Good) (before after : Bytes) (index : Nat)
    (lists : List (Nat × ChildIdList)) (aligned : before.length % 8 = 0)
    (fresh : ∀ list ∈ lists, list.1 ≠ record.parentId) :
    decodeRecord (.whole (before ++ (record.layout ++ after))) index before.length lists =
      .ok (record.parentId, ⟨record.width, before.length + recordHeaderBytes, record.ids⟩,
        before.length + align8 record.bytes) := by
  have known : record.width = 4 ∨ record.width = 8 := good.width.imp And.left id
  have size := length_layout known
  have padded := (align8_bounds record.bytes).1
  have whole : record.bytes = 16 + record.ids.length * record.width := rfl
  obtain ⟨padding, total⟩ : ∃ padding, List.replicate (align8 record.bytes - record.bytes) (0 : UInt8) = padding :=
    ⟨_, rfl⟩
  obtain ⟨buffer, same⟩ : ∃ buffer, before ++ (record.layout ++ after) = buffer := ⟨_, rfl⟩
  have length : buffer.length = before.length + (align8 record.bytes + after.length) := by
    rw [← same, List.length_append, List.length_append, size]
  have parentBits : bitsAt buffer before.length 8 = Float64.ofNat record.parentId := by
    have read := bitsAt_append before (leBytes 8 (Float64.ofNat record.parentId))
      (leBytes 4 record.ids.length ++ (leBytes 1 record.width ++ (List.replicate 3 0 ++
        (record.children ++ padding))) ++ after)
    have bits := Float64.ofNat_lt good.parent
    rw [Bincode.length_leBytes, Bincode.leValue_leBytes 8 _ (by omega)] at read
    rw [← read, ← same, Record.layout, total]
    simp only [List.append_assoc]
  have count : bitsAt buffer (before.length + 8) 4 = record.ids.length := by
    have read := bitsAt_append (before ++ leBytes 8 (Float64.ofNat record.parentId))
      (leBytes 4 record.ids.length) (leBytes 1 record.width ++ (List.replicate 3 0 ++
        (record.children ++ padding)) ++ after)
    have bound := good.short
    rw [Bincode.length_leBytes, Bincode.leValue_leBytes 4 _ (by omega), List.length_append,
      Bincode.length_leBytes] at read
    conv_rhs => rw [← read]
    rw [← same, Record.layout, total]
    simp only [List.append_assoc]
  have width : bitsAt buffer (before.length + 12) 1 = record.width := by
    have read := bitsAt_append (before ++ leBytes 8 (Float64.ofNat record.parentId) ++
      leBytes 4 record.ids.length) (leBytes 1 record.width) (List.replicate 3 0 ++
        (record.children ++ padding) ++ after)
    rw [Bincode.length_leBytes, Bincode.leValue_leBytes 1 _ (by omega), List.length_append, List.length_append,
      Bincode.length_leBytes, Bincode.length_leBytes] at read
    conv_rhs => rw [← read]
    rw [← same, Record.layout, total]
    simp only [List.append_assoc]
  have children := ids_of_elements good (before ++ leBytes 8 (Float64.ofNat record.parentId) ++
    leBytes 4 record.ids.length ++ leBytes 1 record.width ++ List.replicate 3 0) (padding ++ after)
  have split : before ++ leBytes 8 (Float64.ofNat record.parentId) ++ leBytes 4 record.ids.length ++
      leBytes 1 record.width ++ List.replicate 3 0 ++ (record.children ++ (padding ++ after)) = buffer := by
    rw [← same, Record.layout, total]
    simp only [List.append_assoc]
  have start : (before ++ leBytes 8 (Float64.ofNat record.parentId) ++ leBytes 4 record.ids.length ++
      leBytes 1 record.width ++ List.replicate 3 0).length = before.length + 16 := by
    simp only [List.length_append, Bincode.length_leBytes, List.length_replicate]
  rw [split, start] at children
  have array : typedArray buffer (before.length + 16) record.ids.length record.width =
      .ok (elementsAt buffer (before.length + 16) record.width record.ids.length) := by
    apply if_pos
    constructor
    · rcases known with narrow | wide
      · rw [narrow]
        omega
      · rw [wide]
        omega
    · omega
  have view : ∀ offset width, offset + width ≤ buffer.length →
      (ByteView.whole buffer).get offset width = .ok (bitsAt buffer offset width) := by
    intro offset width inside
    have read := @get_ok (.whole buffer) offset width inside
    rwa [show (ByteView.whole buffer).byteOffset = 0 from rfl, Nat.zero_add] at read
  have notSeen : lists.any (fun list => list.1 = record.parentId) = false := by
    rw [List.any_eq_false]
    intro list member
    simpa using fresh list member
  have offset : (ByteView.whole buffer).byteOffset + before.length + recordHeaderBytes = before.length + 16 := by
    simp [ByteView.whole, recordHeaderBytes]
  have entire : (ByteView.whole buffer).byteLength = buffer.length := rfl
  have bytes : (ByteView.whole buffer).buffer = buffer := rfl
  have header : recordHeaderBytes + record.ids.length * record.width = record.bytes := rfl
  rw [same, decodeRecord, if_neg (by rw [entire, recordHeaderBytes]; omega)]
  simp only [bind, Except.bind]
  rw [view _ 8 (by omega), parentBits]
  simp only
  rw [Float64.safeNat?_ofNat good.parent]
  simp only
  rw [view _ 4 (by omega), count]
  simp only
  rw [view _ 1 (by omega), width]
  simp only
  rw [if_neg (by omega), header, if_neg (by rw [entire]; omega), offset, bytes, array]
  simp only
  rw [children]
  simp only [notSeen]
  rfl

theorem decodeRecords_layout (records : List Record) (good : ∀ record ∈ records, record.Good)
    (distinct : (records.map Record.parentId).Nodup) (before : Bytes) (index : Nat)
    (lists : List (Nat × ChildIdList)) (aligned : before.length % 8 = 0)
    (fresh : ∀ list ∈ lists, ∀ record ∈ records, list.1 ≠ record.parentId) :
    ∃ found, decodeRecords (.whole (before ++ records.flatMap Record.layout)) records.length index before.length
        lists = .ok (lists ++ found, (before ++ records.flatMap Record.layout).length) ∧
      found.map (fun list => (list.1, list.2.ids)) = records.map fun record => (record.parentId, record.ids) := by
  induction records generalizing before index lists with
  | nil => exact ⟨[], by simp [decodeRecords], rfl⟩
  | cons record rest ih =>
    have here := good record List.mem_cons_self
    have known : record.width = 4 ∨ record.width = 8 := here.width.imp And.left id
    have padded := (align8_bounds record.bytes).2.2
    rw [List.map_cons, List.nodup_cons] at distinct
    have first := decodeRecord_layout here before (rest.flatMap Record.layout) index lists aligned
      fun list member => fresh list member record List.mem_cons_self
    obtain ⟨found, decoded, same⟩ := ih (fun other member => good other (List.mem_cons_of_mem _ member)) distinct.2
      (before ++ record.layout) (index + 1)
      (lists ++ [(record.parentId, ⟨record.width, before.length + recordHeaderBytes, record.ids⟩)])
      (by rw [List.length_append, length_layout known]; omega) (by
        intro list member other inRest
        rcases List.mem_append.mp member with earlier | last
        · exact fresh list earlier other (List.mem_cons_of_mem _ inRest)
        · rw [List.mem_singleton.mp last]
          intro equal
          exact distinct.1 (List.mem_map.mpr ⟨other, inRest, equal.symm⟩))
    refine ⟨(record.parentId, ⟨record.width, before.length + recordHeaderBytes, record.ids⟩) :: found, ?_, ?_⟩
    · rw [List.length_append, length_layout known, List.append_assoc, List.append_assoc] at decoded
      rw [List.flatMap_cons, List.length_cons, decodeRecords, first]
      simp only [bind, Except.bind]
      rw [decoded]
      rfl
    · rw [List.map_cons, List.map_cons, same]

/-- Lists of safe ids, one for each parent, no longer than arrays can be. -/
structure SafeLists where
  entries : List (Nat × List Nat)
  distinct : (entries.map Prod.fst).Nodup
  parents : ∀ entry ∈ entries, entry.1 < 2 ^ 53
  children : ∀ entry ∈ entries, ∀ id ∈ entry.2, id < 2 ^ 53
  few : entries.length ≤ maxArray
  short : ∀ entry ∈ entries, entry.2.length ≤ maxArray

def SafeLists.numbers (lists : SafeLists) : List (Int × List Int) :=
  lists.entries.map fun entry => ((entry.1 : Int), entry.2.map Int.ofNat)

theorem assertId_ok (label : String) {value : Nat} (safe : value < 2 ^ 53) : assertId label value = .ok () := by
  have bound : (value : Int) ≤ 2 ^ 53 - 1 := by omega
  exact if_neg (by rw [maxSafe]; omega)

theorem assertIds_ok (label : String) {ids : List Nat} (safe : ∀ id ∈ ids, id < 2 ^ 53) :
    assertIds label (ids.map Int.ofNat) = .ok () := by
  induction ids with
  | nil => rfl
  | cons id rest ih =>
    have first : assertId label (Int.ofNat id) = .ok () := assertId_ok label (safe id List.mem_cons_self)
    rw [List.map_cons, assertIds, first]
    exact ih fun other member => safe other (List.mem_cons_of_mem _ member)

theorem childWidth_cases (ids : List Nat) :
    childWidth (ids.map Int.ofNat) = 4 ∧ (∀ id ∈ ids, id < 2 ^ 32) ∨ childWidth (ids.map Int.ofNat) = 8 := by
  rw [childWidth]
  split
  · exact .inr rfl
  · next narrow =>
    refine .inl ⟨rfl, ?_⟩
    intro id member
    by_contra wide
    refine narrow (List.any_eq_true.mpr ⟨Int.ofNat id, List.mem_map_of_mem member, ?_⟩)
    have bound : (maxUint32 : Int) < Int.ofNat id := by
      rw [maxUint32, Int.ofNat_eq_natCast]
      omega
    exact decide_eq_true bound

theorem recordOf_safe {entry : Nat × List Nat} (parent : entry.1 < 2 ^ 53) (children : ∀ id ∈ entry.2, id < 2 ^ 53) :
    recordOf ((entry.1 : Int), entry.2.map Int.ofNat) =
      .ok ⟨entry.1, entry.2, childWidth (entry.2.map Int.ofNat)⟩ := by
  have back : (entry.2.map Int.ofNat).map Int.toNat = entry.2 := by
    rw [List.map_map]
    exact List.map_id _
  rw [recordOf, assertId_ok _ parent, assertIds_ok _ children, back]
  rfl

theorem recordsOf_safe (entries : List (Nat × List Nat)) (parents : ∀ entry ∈ entries, entry.1 < 2 ^ 53)
    (children : ∀ entry ∈ entries, ∀ id ∈ entry.2, id < 2 ^ 53) :
    recordsOf (entries.map fun entry => ((entry.1 : Int), entry.2.map Int.ofNat)) =
      .ok (entries.map fun entry => ⟨entry.1, entry.2, childWidth (entry.2.map Int.ofNat)⟩) := by
  induction entries with
  | nil => rfl
  | cons entry rest ih =>
    have later := ih (fun other member => parents other (List.mem_cons_of_mem _ member))
      fun other member => children other (List.mem_cons_of_mem _ member)
    rw [List.map_cons, recordsOf, recordOf_safe (parents entry List.mem_cons_self)
      (children entry List.mem_cons_self), later]
    rfl

theorem bitsAt_first (first : Nat) (after : Bytes) (small : first < 2 ^ 32) :
    bitsAt (leBytes 4 first ++ after) 0 4 = first := by
  have read := bitsAt_append [] (leBytes 4 first) after
  rwa [Bincode.length_leBytes, Bincode.leValue_leBytes 4 first (by omega)] at read

theorem bitsAt_second (first second : Nat) (after : Bytes) (small : second < 2 ^ 32) :
    bitsAt (leBytes 4 first ++ (leBytes 4 second ++ after)) 4 4 = second := by
  have read := bitsAt_append (leBytes 4 first) (leBytes 4 second) after
  rwa [Bincode.length_leBytes, Bincode.length_leBytes, Bincode.leValue_leBytes 4 second (by omega)] at read

/-- What is encoded is decoded, in the same order. -/
theorem decode_encode (lists : SafeLists) :
    ∃ bytes found, encodeChildLists lists.numbers = .ok bytes ∧
      decodeChildLists (.arrayBuffer bytes) = .ok found ∧
      found.map (fun list => (list.1, list.2.ids)) = lists.entries := by
  obtain ⟨records, same⟩ : ∃ records, lists.entries.map (fun entry =>
      (⟨entry.1, entry.2, childWidth (entry.2.map Int.ofNat)⟩ : Record)) = records := ⟨_, rfl⟩
  have made : recordsOf lists.numbers = .ok records := by
    rw [← same]
    exact recordsOf_safe lists.entries lists.parents lists.children
  have good : ∀ record ∈ records, record.Good := by
    intro record member
    rw [← same] at member
    obtain ⟨entry, inLists, rfl⟩ := List.mem_map.mp member
    have short : entry.2.length ≤ 2 ^ 32 - 1 := lists.short entry inLists
    exact ⟨lists.parents entry inLists, lists.children entry inLists, childWidth_cases entry.2,
      by simp only; omega⟩
  have distinct : (records.map Record.parentId).Nodup := by
    rw [← same, List.map_map]
    exact lists.distinct
  have count : records.length < 2 ^ 32 := by
    have few : lists.entries.length ≤ 2 ^ 32 - 1 := lists.few
    rw [← same, List.length_map]
    omega
  have header : (leBytes 4 magic ++ leBytes 4 records.length).length = 8 := by simp
  obtain ⟨found, decoded, contents⟩ := decodeRecords_layout records good distinct
    (leBytes 4 magic ++ leBytes 4 records.length) 0 [] (by rw [header]) (by
      intro list member
      cases member)
  obtain ⟨buffer, whole⟩ : ∃ buffer, leBytes 4 magic ++ leBytes 4 records.length ++
      records.flatMap Record.layout = buffer := ⟨_, rfl⟩
  have long : 8 ≤ buffer.length := by
    rw [← whole, List.length_append, header]
    omega
  have magicBits : bitsAt buffer 0 4 = magic := by
    rw [← whole, List.append_assoc]
    exact bitsAt_first magic _ (by decide)
  have countBits : bitsAt buffer 4 4 = records.length := by
    rw [← whole, List.append_assoc]
    exact bitsAt_second magic records.length _ count
  refine ⟨buffer, found, ?_, ?_, ?_⟩
  · rw [← whole]
    exact encode_records made fun record member => (good record member).width.imp And.left id
  · have view : ∀ offset width, offset + width ≤ buffer.length →
        (ByteView.whole buffer).get offset width = .ok (bitsAt buffer offset width) := by
      intro offset width inside
      have read := @get_ok (.whole buffer) offset width inside
      rwa [show (ByteView.whole buffer).byteOffset = 0 from rfl, Nat.zero_add] at read
    have entire : (ByteView.whole buffer).byteLength = buffer.length := rfl
    rw [header, whole, List.nil_append] at decoded
    rw [decodeChildLists, exactAlignedBytes]
    simp only [entire]
    rw [if_neg (by rw [headerBytes]; omega)]
    simp only [bind, Except.bind]
    rw [view 0 4 (by omega), magicBits]
    simp only
    rw [if_neg (not_not.mpr rfl), view 4 4 (by omega), countBits]
    simp only
    rw [show headerBytes = 8 from rfl, decoded]
    simp
  · rw [contents, ← same, List.map_map]
    exact List.map_id _

example : (encodeChildLists [(9, []), (1, [2, 4294967296])]).toOption.map
    (fun bytes => decodeChildLists (.arrayBuffer bytes)) =
      some (.ok [(9, ⟨4, 24, []⟩), (1, ⟨8, 40, [2, 4294967296]⟩)]) := by
  decide +kernel

end RoundTrip

section Accepted

/-- Records fill the bytes from an offset to their end: each is read where it stands, its ids
start aligned behind its header, and less than eight bytes of padding follow. -/
inductive Tiled (view : ByteView) : Nat → List (Nat × ChildIdList) → Prop where
  | done : Tiled view view.byteLength []
  | record {offset padding : Nat} {parent : Nat} {list : ChildIdList} {rest : List (Nat × ChildIdList)}
      (parentRead : Float64.safeNat? (bitsAt view.buffer (view.byteOffset + offset) 8) = some parent)
      (countRead : bitsAt view.buffer (view.byteOffset + offset + 8) 4 = list.ids.length)
      (widthRead : bitsAt view.buffer (view.byteOffset + offset + 12) 1 = list.width)
      (known : list.width = 4 ∨ list.width = 8)
      (starts : list.byteOffset = view.byteOffset + offset + recordHeaderBytes)
      (aligned : list.byteOffset % list.width = 0)
      (idsRead : idsOf list.width (elementsAt view.buffer list.byteOffset list.width list.ids.length) =
        .ok list.ids)
      (padded : padding < 8)
      (inside : offset + recordHeaderBytes + list.ids.length * list.width + padding ≤ view.byteLength)
      (more : Tiled view (offset + recordHeaderBytes + list.ids.length * list.width + padding) rest) :
      Tiled view offset ((parent, list) :: rest)

/-- What may come of decoding: an error of the codec, or lists of safe ids under different
parents, whose records make up the buffer behind its header. -/
def Accepted (packed : Packed) : Except Failure (List (Nat × ChildIdList)) → Prop
  | .error (.decode _) => True
  | .error .range => False
  | .ok lists =>
    (lists.map Prod.fst).Nodup ∧ (∀ list ∈ lists, list.1 < 2 ^ 53 ∧ ∀ id ∈ list.2.ids, id < 2 ^ 53) ∧
      headerBytes ≤ (exactAlignedBytes packed).byteLength ∧ Tiled (exactAlignedBytes packed) headerBytes lists

theorem exactAlignedBytes_aligned (packed : Packed) : (exactAlignedBytes packed).byteOffset % 8 = 0 := by
  cases packed with
  | arrayBuffer buffer => rfl
  | uint8Array view =>
    rw [exactAlignedBytes]
    split
    · next whole => exact whole.1
    · rfl

theorem leValue_lt (bytes : Bytes) : leValue bytes < 256 ^ bytes.length := by
  induction bytes with
  | nil => simp [leValue]
  | cons byte rest ih =>
    have low := byte.toNat_lt
    rw [leValue, List.length_cons, pow_succ]
    omega

theorem bitsAt_lt (buffer : Bytes) (byteOffset : Nat) : bitsAt buffer byteOffset 4 < 2 ^ 32 := by
  have bound := leValue_lt ((buffer.drop byteOffset).take 4)
  have size : ((buffer.drop byteOffset).take 4).length ≤ 4 := List.length_take_le _ _
  calc
    bitsAt buffer byteOffset 4 < 256 ^ ((buffer.drop byteOffset).take 4).length := bound
    _ ≤ 256 ^ 4 := Nat.pow_le_pow_right (by decide) size
    _ = 2 ^ 32 := by norm_num

theorem safeIds_cases (bits : List Nat) :
    (∃ error, safeIds bits = .error (.decode error)) ∨
      ∃ ids, safeIds bits = .ok ids ∧ ids.length = bits.length ∧ ∀ id ∈ ids, id < 2 ^ 53 := by
  induction bits with
  | nil => exact .inr ⟨[], rfl, rfl, by simp⟩
  | cons first rest ih =>
    rw [safeIds]
    cases safe : Float64.safeNat? first with
    | none => exact .inl ⟨_, rfl⟩
    | some id =>
      rcases ih with ⟨error, fails⟩ | ⟨ids, read, size, small⟩
      · exact .inl ⟨error, by simp only [bind, Except.bind, fails]⟩
      · refine .inr ⟨id :: ids, by simp only [bind, Except.bind, read]; rfl, by simp [size], ?_⟩
        intro other member
        rcases List.mem_cons.mp member with rfl | later
        · exact Float64.safeNat?_lt safe
        · exact small other later

theorem idsOf_cases {width : Nat} (known : width = 4 ∨ width = 8) (buffer : Bytes) (byteOffset count : Nat) :
    (∃ error, idsOf width (elementsAt buffer byteOffset width count) = .error (.decode error)) ∨
      ∃ ids, idsOf width (elementsAt buffer byteOffset width count) = .ok ids ∧ ids.length = count ∧
        ∀ id ∈ ids, id < 2 ^ 53 := by
  have size : (elementsAt buffer byteOffset width count).length = count := by simp [elementsAt]
  rw [idsOf]
  rcases known with rfl | rfl
  · rw [if_pos rfl]
    refine .inr ⟨_, rfl, size, ?_⟩
    intro id member
    obtain ⟨index, _, rfl⟩ := List.mem_map.mp member
    exact (bitsAt_lt buffer _).trans (by norm_num)
  · rw [if_neg (by decide)]
    rcases safeIds_cases (elementsAt buffer byteOffset 8 count) with fails | ⟨ids, read, same, small⟩
    · exact .inl fails
    · exact .inr ⟨ids, read, same.trans size, small⟩

/-- A record is refused, or read where it stands. -/
theorem decodeRecord_cases {view : ByteView} {index offset : Nat} {lists : List (Nat × ChildIdList)}
    (base : view.byteOffset % 8 = 0) (aligned : offset % 8 = 0) :
    (∃ error, decodeRecord view index offset lists = .error (.decode error)) ∨
      ∃ parent list padding,
        decodeRecord view index offset lists =
          .ok (parent, list, offset + recordHeaderBytes + list.ids.length * list.width + padding) ∧
        (offset + recordHeaderBytes + list.ids.length * list.width + padding) % 8 = 0 ∧
        parent < 2 ^ 53 ∧ (∀ id ∈ list.ids, id < 2 ^ 53) ∧ (∀ other ∈ lists, other.1 ≠ parent) ∧
        ∀ rest, Tiled view (offset + recordHeaderBytes + list.ids.length * list.width + padding) rest →
          Tiled view offset ((parent, list) :: rest) := by
  have fits := view.fits
  rw [decodeRecord]
  by_cases short : offset + recordHeaderBytes > view.byteLength
  · exact .inl ⟨_, if_pos short⟩
  · have room : offset + 16 ≤ view.byteLength := Nat.not_lt.mp short
    rw [if_neg short, get_ok (by omega), get_ok (by omega), get_ok (by omega)]
    simp only [bind, Except.bind]
    cases parentRead : Float64.safeNat? (bitsAt view.buffer (view.byteOffset + offset) 8) with
    | none => exact .inl ⟨_, rfl⟩
    | some parent =>
      obtain ⟨count, countRead⟩ : ∃ count, bitsAt view.buffer (view.byteOffset + (offset + 8)) 4 = count := ⟨_, rfl⟩
      obtain ⟨width, widthRead⟩ : ∃ width, bitsAt view.buffer (view.byteOffset + (offset + 12)) 1 = width := ⟨_, rfl⟩
      simp only [countRead, widthRead]
      by_cases unknown : width ≠ 4 ∧ width ≠ 8
      · exact .inl ⟨_, if_pos unknown⟩
      · have known : width = 4 ∨ width = 8 := by omega
        rw [if_neg unknown]
        by_cases beyond : offset + align8 (recordHeaderBytes + count * width) > view.byteLength
        · exact .inl ⟨_, if_pos beyond⟩
        · obtain ⟨padding, padded⟩ := Nat.le.dest (align8_bounds (recordHeaderBytes + count * width)).1
          obtain ⟨_, tight, rounded⟩ := align8_bounds (recordHeaderBytes + count * width)
          have next : offset + align8 (recordHeaderBytes + count * width) =
              offset + recordHeaderBytes + count * width + padding := by omega
          have starts : (view.byteOffset + offset + recordHeaderBytes) % width = 0 := by
            have header : recordHeaderBytes = 16 := rfl
            rcases known with rfl | rfl <;> omega
          have array : typedArray view.buffer (view.byteOffset + offset + recordHeaderBytes) count width =
              .ok (elementsAt view.buffer (view.byteOffset + offset + recordHeaderBytes) width count) :=
            if_pos ⟨starts, by omega⟩
          rw [if_neg beyond, array]
          simp only
          rcases idsOf_cases known view.buffer (view.byteOffset + offset + recordHeaderBytes) count with
            ⟨error, fails⟩ | ⟨ids, idsRead, size, small⟩
          · exact .inl ⟨error, by rw [fails]⟩
          · rw [idsRead]
            simp only
            by_cases seen : (lists.any fun list => list.1 = parent) = true
            · exact .inl ⟨_, if_pos seen⟩
            · refine .inr ⟨parent, ⟨width, view.byteOffset + offset + recordHeaderBytes, ids⟩, padding, ?_, ?_,
                Float64.safeNat?_lt parentRead, small, ?_, ?_⟩
              · rw [if_neg seen, next, size]
              · simp only [size]
                omega
              · intro other member same
                exact seen (List.any_eq_true.mpr ⟨other, member, decide_eq_true same⟩)
              · intro rest more
                rw [← size] at idsRead
                exact .record parentRead (countRead.trans size.symm) widthRead known rfl starts idsRead (by omega)
                  (by simp only [size]; omega) more

theorem decodeRecords_cases {view : ByteView} (base : view.byteOffset % 8 = 0) (left index offset : Nat)
    (lists : List (Nat × ChildIdList)) (aligned : offset % 8 = 0) (distinct : (lists.map Prod.fst).Nodup) :
    (∃ error, decodeRecords view left index offset lists = .error (.decode error)) ∨
      ∃ found last, decodeRecords view left index offset lists = .ok (lists ++ found, last) ∧
        ((lists ++ found).map Prod.fst).Nodup ∧
        (∀ list ∈ found, list.1 < 2 ^ 53 ∧ ∀ id ∈ list.2.ids, id < 2 ^ 53) ∧
        (last = view.byteLength → Tiled view offset found) := by
  induction left generalizing index offset lists with
  | zero =>
    refine .inr ⟨[], offset, by simp [decodeRecords], by simpa using distinct, by simp, ?_⟩
    rintro rfl
    exact .done
  | succ left ih =>
    rw [decodeRecords]
    rcases @decodeRecord_cases view index offset lists base aligned with
      ⟨error, fails⟩ | ⟨parent, list, padding, read, rounded, safe, small, fresh, tiles⟩
    · exact .inl ⟨error, by simp only [bind, Except.bind, fails]⟩
    · have extended : ((lists ++ [(parent, list)]).map Prod.fst).Nodup := by
        rw [List.map_append, List.nodup_append]
        refine ⟨distinct, List.nodup_singleton _, ?_⟩
        intro key member other last same
        obtain ⟨earlier, inLists, rfl⟩ := List.mem_map.mp member
        exact fresh earlier inLists (same.trans (List.mem_singleton.mp last))
      rcases ih (index + 1) _ (lists ++ [(parent, list)]) rounded extended with
        ⟨error, fails⟩ | ⟨found, last, decoded, nodup, allSafe, tiled⟩
      · exact .inl ⟨error, by simp only [bind, Except.bind, read, fails]⟩
      · refine .inr ⟨(parent, list) :: found, last, ?_, ?_, ?_, ?_⟩
        · simp only [bind, Except.bind, read, decoded, List.append_assoc, List.singleton_append]
        · rwa [List.append_assoc, List.singleton_append] at nodup
        · intro other member
          rcases List.mem_cons.mp member with rfl | later
          · exact ⟨safe, small⟩
          · exact allSafe other later
        · intro whole
          exact tiles found (tiled whole)

theorem decode_accepted (packed : Packed) : Accepted packed (decodeChildLists packed) := by
  rw [decodeChildLists]
  generalize same : exactAlignedBytes packed = bytes
  have base : bytes.byteOffset % 8 = 0 := by
    rw [← same]
    exact exactAlignedBytes_aligned packed
  by_cases short : bytes.byteLength < headerBytes
  · simp only [if_pos short, Accepted]
  · have room : 8 ≤ bytes.byteLength := Nat.not_lt.mp short
    have first : bytes.get 0 4 = .ok (bitsAt bytes.buffer (bytes.byteOffset + 0) 4) := get_ok (by omega)
    have second : bytes.get 4 4 = .ok (bitsAt bytes.buffer (bytes.byteOffset + 4) 4) := get_ok (by omega)
    simp only [if_neg short, first, second, bind, Except.bind]
    split
    · trivial
    · rcases decodeRecords_cases base (bitsAt bytes.buffer (bytes.byteOffset + 4) 4) 0 headerBytes [] rfl
          List.nodup_nil with ⟨error, fails⟩ | ⟨found, last, decoded, nodup, safe, tiled⟩
      · simp only [fails, Accepted]
      · simp only [decoded]
        by_cases rest : last ≠ bytes.byteLength
        · simp only [if_pos rest, Accepted]
        · simp only [if_neg rest, Accepted, same]
          exact ⟨nodup, safe, room, tiled (not_not.mp rest)⟩

/-- Child lists survive the codec in their order, and every buffer is refused by an error of
the codec or made up of a header and aligned records of safe ids. -/
theorem codec_faithful :
    (∀ lists : SafeLists, ∃ bytes found, encodeChildLists lists.numbers = .ok bytes ∧
      decodeChildLists (.arrayBuffer bytes) = .ok found ∧
      found.map (fun list => (list.1, list.2.ids)) = lists.entries) ∧
    ∀ packed, Accepted packed (decodeChildLists packed) :=
  ⟨decode_encode, decode_accepted⟩

end Accepted

end Mille.ChildListCodec
