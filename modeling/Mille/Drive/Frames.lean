import Mathlib
import Mille.Lib.Bincode

/-! Frames of the sync protocol: one version byte, then a bincode body. -/

namespace Mille.Drive

open Mille.Bincode

/-- An object's name. Its bytes are written from the most significant one, so the
numeric order is the order of the bytes. -/
abbrev Blake3 := BitVec 256

instance transOrdBlake3 : Std.TransOrd Blake3 := inferInstanceAs (Std.TransOrd (BitVec 256))

namespace Blake3

def asBytes (digest : Blake3) : Bytes := (leBytes 32 digest.toNat).reverse

def fromBytes (bytes : Bytes) : Blake3 := BitVec.ofNat 256 (leValue bytes.reverse)

@[simp] theorem length_asBytes (digest : Blake3) : digest.asBytes.length = 32 := by
  simp [asBytes]

@[simp] theorem fromBytes_asBytes (digest : Blake3) : fromBytes digest.asBytes = digest := by
  have fits : digest.toNat < 256 ^ 32 := by
    have bound := digest.isLt
    norm_num at bound ⊢
    exact bound
  rw [fromBytes, asBytes, List.reverse_reverse, leValue_leBytes 32 _ fits]
  simp

end Blake3

def frameVersion : UInt8 := 1

/-- The most digests one `Want` or `Have` carries. -/
def maxDigestsPerFrame : Nat := 1024

/-- Room a frame needs beyond its payload. -/
def frameOverhead : Nat := 64

/-- The most chunks one update may be cut into. -/
def maxChunks : Nat := 2 ^ 20

/-- The most outstanding wants remembered for one peer. -/
def maxPeerWanted : Nat := 65536

/-- The allocation ceiling while one frame is decoded. -/
def frameDecodeLimit : Nat := 2 ^ 30

/-- The longest a failed holder waits to be tried again, in ticks. -/
def maxBackoffTicks : Nat := 64

/-- Ticks after which an unsettled pull counts as failed. -/
def pullExpiryTicks : Nat := 30

/-- The least value `max_frame_bytes` may have. -/
def minFrameBytes : Nat := 4096

inductive Frame where
  | hello (vv : Bytes)
  | updates (bytes : Bytes)
  | updatesChunk (id : UInt64) (seq total : UInt32) (bytes : Bytes)
  | want (digests : List Blake3)
  | haves (digests : List Blake3)
deriving DecidableEq

inductive DriveErrorCode where
  | io | notFound | mismatch | format | proto
deriving DecidableEq, Repr

/-- What the document library or the file system reports. -/
structure Refusal where
  code : DriveErrorCode
  message : String
deriving DecidableEq

/-- Why a sync call was refused, with the values its message names. -/
inductive DriveError where
  | emptyFrame
  | unknownFrameVersion (version : UInt8)
  | frameDidNotDecode
  | bytesAfterEnd
  | versionVectorDidNotDecode
  | overUpdateLimit (bytes max : Nat)
  | tooManyDigests (count : Nat)
  | chunkOutOfRange (seq total : UInt32)
  | chunkWithoutFirst
  | chunksOutOfOrder
  | updateOverLimit (max : Nat)
  /-- The document refused an update or could not export or save one. -/
  | document (refusal : Refusal)
  /-- The store refused a landed copy. -/
  | store (refusal : Refusal)
deriving DecidableEq

def DriveError.code : DriveError → DriveErrorCode
  | .emptyFrame => .proto
  | .unknownFrameVersion _ => .proto
  | .frameDidNotDecode => .format
  | .bytesAfterEnd => .format
  | .versionVectorDidNotDecode => .format
  | .overUpdateLimit _ _ => .proto
  | .tooManyDigests _ => .proto
  | .chunkOutOfRange _ _ => .proto
  | .chunkWithoutFirst => .proto
  | .chunksOutOfOrder => .proto
  | .updateOverLimit _ => .proto
  | .document refusal => refusal.code
  | .store refusal => refusal.code

def DriveError.message : DriveError → String
  | .emptyFrame => "an empty frame"
  | .unknownFrameVersion version =>
    "frame version " ++ toString version ++ "; this drive speaks " ++ toString frameVersion
  | .frameDidNotDecode => "a frame did not decode"
  | .bytesAfterEnd => "a frame has bytes after its end"
  | .versionVectorDidNotDecode => "a version vector did not decode"
  | .overUpdateLimit bytes max =>
    toString bytes ++ " bytes of update is over the drive's " ++ toString max ++ "-byte limit"
  | .tooManyDigests count =>
    "a frame names " ++ toString count ++ " digests, over " ++ toString maxDigestsPerFrame
  | .chunkOutOfRange seq total =>
    "chunk " ++ toString seq ++ " of " ++ toString total ++ " is out of range"
  | .chunkWithoutFirst => "a chunk arrived without its first"
  | .chunksOutOfOrder => "an update's chunks arrived out of order"
  | .updateOverLimit max => "an update is over the drive's " ++ toString max ++ "-byte limit"
  | .document refusal => refusal.message
  | .store refusal => refusal.message

namespace Frame

/-- The bincode body: the variant's index, then its fields. -/
def body : Frame → Bytes
  | hello vv => encodeUInt 0 ++ encodeSeq (fun byte => [byte]) vv
  | updates bytes => encodeUInt 1 ++ encodeSeq (fun byte => [byte]) bytes
  | updatesChunk id seq total bytes =>
    encodeUInt 2 ++ (encodeUInt id.toNat ++ (encodeUInt seq.toNat ++ (encodeUInt total.toNat ++
      encodeSeq (fun byte => [byte]) bytes)))
  | want digests => encodeUInt 3 ++ encodeSeq Blake3.asBytes digests
  | haves digests => encodeUInt 4 ++ encodeSeq Blake3.asBytes digests

def digest : Decoder Blake3 :=
  .bind (.many .byte 32) fun bytes => .pure (Blake3.fromBytes bytes)

def decoder : Decoder Frame :=
  .bind (.uint 4) fun
    | 0 => .bind (.seq .byte) fun vv => .pure (hello vv)
    | 1 => .bind (.seq .byte) fun bytes => .pure (updates bytes)
    | 2 => .bind (.uint 8) fun id => .bind (.uint 4) fun seq => .bind (.uint 4) fun total =>
      .bind (.seq .byte) fun bytes =>
        .pure (updatesChunk (UInt64.ofNat id) (UInt32.ofNat seq) (UInt32.ofNat total) bytes)
    | 3 => .bind (.seq digest) fun digests => .pure (want digests)
    | 4 => .bind (.seq digest) fun digests => .pure (haves digests)
    | _ => fun _ => none

end Frame

def encodeFrame (frame : Frame) : Bytes := frameVersion :: frame.body

def decodeFrame : Bytes → Except DriveError Frame
  | [] => .error .emptyFrame
  | version :: body =>
    if version ≠ frameVersion then .error (.unknownFrameVersion version)
    else
      match Frame.decoder ⟨body, frameDecodeLimit⟩ with
      | none => .error .frameDidNotDecode
      | some (frame, rest) => if rest.bytes = [] then .ok frame else .error .bytesAfterEnd

namespace Frame

/-- Bytes the decoder claims for a frame: the variant, the lengths and integers at
full width, then the payload. -/
def claimed : Frame → Nat
  | hello vv => 12 + vv.length
  | updates bytes => 12 + bytes.length
  | updatesChunk _ _ _ bytes => 28 + bytes.length
  | want digests => 12 + 32 * digests.length
  | haves digests => 12 + 32 * digests.length

/-- How many elements the frame's sequence has. -/
def count : Frame → Nat
  | hello vv => vv.length
  | updates bytes => bytes.length
  | updatesChunk _ _ _ bytes => bytes.length
  | want digests => digests.length
  | haves digests => digests.length

private theorem reads_bytes (bytes : Bytes) (short : bytes.length < 2 ^ 64) :
    Reads (.seq .byte) (encodeSeq (fun byte => [byte]) bytes) bytes (8 + 1 * bytes.length) :=
  Reads.seq bytes short fun byte _ => Reads.byte byte

private theorem reads_digest (value : Blake3) : Reads digest value.asBytes value 32 := by
  have many : Reads (.many .byte 32) value.asBytes value.asBytes (1 * 32) := by
    have raw := Reads.many value.asBytes fun byte (_ : byte ∈ value.asBytes) => Reads.byte byte
    simpa using raw
  have built := many.build Blake3.fromBytes
  rw [Blake3.fromBytes_asBytes] at built
  exact built

private theorem reads_digests (digests : List Blake3) (short : digests.length < 2 ^ 64) :
    Reads (.seq digest) (encodeSeq Blake3.asBytes digests) digests (8 + 32 * digests.length) :=
  Reads.seq digests short fun value _ => reads_digest value

/-- The decoder reads every frame back, when it may claim that much. -/
theorem reads_body (frame : Frame) (short : frame.count < 2 ^ 64) :
    Reads decoder frame.body frame frame.claimed := by
  have tag {index : Nat} (small : index < 2 ^ 32) : Reads (.uint 4) (encodeUInt index) index 4 :=
    Reads.uint (.inl small)
  cases frame with
  | hello vv =>
    have cost : claimed (hello vv) = 4 + (8 + 1 * vv.length) := by simp [claimed]; omega
    rw [cost]
    exact (tag (by decide)).bind ((reads_bytes vv short).build hello)
  | updates bytes =>
    have cost : claimed (updates bytes) = 4 + (8 + 1 * bytes.length) := by simp [claimed]; omega
    rw [cost]
    exact (tag (by decide)).bind ((reads_bytes bytes short).build updates)
  | updatesChunk id seq total bytes =>
    have cost : claimed (updatesChunk id seq total bytes) =
        4 + (8 + (4 + (4 + (8 + 1 * bytes.length)))) := by simp [claimed]; omega
    have fields := (reads_bytes bytes short).build (updatesChunk (UInt64.ofNat id.toNat)
      (UInt32.ofNat seq.toNat) (UInt32.ofNat total.toNat))
    rw [cost]
    refine (tag (by decide)).bind ?_
    refine (Reads.uint (.inr ⟨le_rfl, id.toNat_lt⟩)).bind ?_
    refine (tag seq.toNat_lt).bind ?_
    refine (tag total.toNat_lt).bind ?_
    simpa using fields
  | want digests =>
    have cost : claimed (want digests) = 4 + (8 + 32 * digests.length) := by simp [claimed]; omega
    rw [cost]
    exact (tag (by decide)).bind ((reads_digests digests short).build want)
  | haves digests =>
    have cost : claimed (haves digests) = 4 + (8 + 32 * digests.length) := by simp [claimed]; omega
    rw [cost]
    exact (tag (by decide)).bind ((reads_digests digests short).build haves)

end Frame

theorem decodeFrame_encodeFrame (frame : Frame) (short : frame.count < 2 ^ 64) :
    decodeFrame (encodeFrame frame) =
      if frame.claimed ≤ frameDecodeLimit then .ok frame else .error .frameDidNotDecode := by
  have reads := frame.reads_body short [] frameDecodeLimit
  rw [List.append_nil] at reads
  simp only [decodeFrame, encodeFrame, ne_eq, not_true_eq_false, ↓reduceIte]
  rw [reads]
  by_cases enough : frame.claimed ≤ frameDecodeLimit
  · simp [enough]
  · simp [enough]

example : decodeFrame (encodeFrame (.haves [7])) = .ok (.haves [7]) := by
  rw [decodeFrame_encodeFrame _ (by decide)]
  decide

section Lengths

private theorem length_bytes (bytes : Bytes) : (encodeSeq (fun byte => [byte]) bytes).length =
    (encodeUInt bytes.length).length + bytes.length := by
  simp [encodeSeq]

private theorem length_digests (digests : List Blake3) : (encodeSeq Blake3.asBytes digests).length =
    (encodeUInt digests.length).length + 32 * digests.length := by
  have each : digests.flatMap Blake3.asBytes = (digests.map Blake3.asBytes).flatten := rfl
  rw [encodeSeq, List.length_append, each, List.length_flatten, List.map_map]
  simp [Function.comp_def, mul_comm]

private theorem length_tag {index : Nat} (small : index < 251) : (encodeUInt index).length = 1 := by
  simp [encodeUInt, small]

theorem length_hello (vv : Bytes) :
    (encodeFrame (.hello vv)).length = 2 + (encodeUInt vv.length).length + vv.length := by
  simp only [encodeFrame, Frame.body, List.length_cons, List.length_append, length_bytes]
  rw [length_tag (by decide)]
  omega

theorem length_updates_le (bytes : Bytes) :
    (encodeFrame (.updates bytes)).length ≤ bytes.length + 11 := by
  have prefixed := length_encodeUInt_le bytes.length
  simp only [encodeFrame, Frame.body, List.length_cons, List.length_append, length_bytes]
  rw [length_tag (by decide)]
  omega

theorem length_chunk_le (id : UInt64) (seq total : UInt32) (bytes : Bytes) :
    (encodeFrame (.updatesChunk id seq total bytes)).length ≤ bytes.length + 30 := by
  have ids := length_encodeUInt_le id.toNat
  have seqs := length_encodeUInt_le_five seq.toNat_lt
  have totals := length_encodeUInt_le_five total.toNat_lt
  have prefixed := length_encodeUInt_le bytes.length
  simp only [encodeFrame, Frame.body, List.length_cons, List.length_append, length_bytes]
  rw [length_tag (by decide)]
  omega

theorem length_want_le (digests : List Blake3) (few : digests.length ≤ maxDigestsPerFrame) :
    (encodeFrame (.want digests)).length ≤ 32 * digests.length + 5 := by
  have prefixed := length_encodeUInt_le_three (lt_of_le_of_lt few (by decide))
  simp only [encodeFrame, Frame.body, List.length_cons, List.length_append, length_digests]
  rw [length_tag (by decide)]
  omega

theorem length_haves_le (digests : List Blake3) (few : digests.length ≤ maxDigestsPerFrame) :
    (encodeFrame (.haves digests)).length ≤ 32 * digests.length + 5 := by
  have prefixed := length_encodeUInt_le_three (lt_of_le_of_lt few (by decide))
  simp only [encodeFrame, Frame.body, List.length_cons, List.length_append, length_digests]
  rw [length_tag (by decide)]
  omega

theorem count_le_length (frame : Frame) : frame.count ≤ (encodeFrame frame).length := by
  cases frame <;>
    simp only [Frame.count, encodeFrame, Frame.body, List.length_cons, List.length_append,
      length_bytes, length_digests] <;> omega

end Lengths

end Mille.Drive
