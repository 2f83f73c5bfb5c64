import Mathlib
import Mille.Drive.SyncCalls

/-! Which emitted frames a drive with the same options takes: how long they are, and
whether they reach its document when they are handed over in the order they were sent. -/

namespace Mille.Drive

open Std Mille.Bincode

theorem DriveOptions.validate_sizes {options : DriveOptions} (valid : options.validate = .ok ()) :
    minFrameBytes ≤ options.maxFrameBytes.toNat ∧
      options.maxFrameBytes.toNat ≤ options.maxUpdateBytes.toNat := by
  unfold validate at valid
  split at valid
  · cases valid
  · split at valid
    · cases valid
    · split at valid
      · cases valid
      · rename_i roomy
        split at valid
        · cases valid
        · rename_i larger
          exact ⟨Nat.le_of_not_lt roomy, UInt64.le_iff_toNat_le.mp (UInt64.not_lt.mp larger)⟩

/-- The frames of a list of actions that go to one peer, in order. -/
def framesTo (dest : String) (actions : List SyncAction) : List Frame :=
  actions.filterMap fun
    | .send name frame => if name = dest then some frame else none
    | .pull _ _ => none

theorem framesTo_append (dest : String) (actions more : List SyncAction) :
    framesTo dest (actions ++ more) = framesTo dest actions ++ framesTo dest more :=
  List.filterMap_append ..

theorem mem_framesTo {dest : String} {actions : List SyncAction} {frame : Frame} :
    frame ∈ framesTo dest actions ↔ .send dest frame ∈ actions := by
  constructor
  · intro member
    obtain ⟨action, listed, found⟩ := List.mem_filterMap.mp member
    cases action with
    | pull => cases found
    | send name other =>
      dsimp only at found
      split at found
      · rename_i same
        cases found
        exact same ▸ listed
      · cases found
  · intro listed
    exact List.mem_filterMap.mpr ⟨_, listed, by simp⟩

/-- No refusal but one of the document itself. -/
def Judged {α : Type} (result : Except DriveError α) : Prop :=
  ∀ error, result = .error error → ∃ refusal, error = .document refusal

theorem Judged.ok {α : Type} (value : α) : Judged (.ok value) := fun _ impossible => by
  cases impossible

namespace SyncState

variable {V : Type} [VersionVector V] (options : DriveOptions)

theorem react_judged (world : World V) (trigger : Trigger V) (sync : SyncState V) :
    Judged (sync.react options world trigger).2 := by
  intro error failed
  obtain ⟨sent, _, _, ⟨refusal, fails⟩ | ⟨updates, _, _, done⟩⟩ :=
    sync.react_cases options world trigger
  · rw [fails] at failed
    cases failed
    exact ⟨refusal, rfl⟩
  · rw [done] at failed
    cases failed

theorem onUpdates_judged (world : World V) (importInner : Bytes → Except Refusal (V × V))
    (sync : SyncState V) (name : String) (bytes : Bytes) :
    Judged (sync.onUpdates options world importInner name bytes).2 := by
  unfold onUpdates
  split
  · rename_i refusal _
    intro error failed
    cases failed
    exact ⟨refusal, rfl⟩
  · exact react_judged options world _ sync

/-- Frames of one sender handed over in order reach the document each time. Between two
of them the receiver may do anything that leaves its half-assembled update alone. -/
def Delivered (sender : String) : SyncState V → List Frame → Prop
  | _, [] => True
  | receiver, frame :: rest => ∀ (now : SyncState V) world importInner,
    (now.peer sender).assembly = (receiver.peer sender).assembly →
    Judged (now.syncHandle options world importInner sender (encodeFrame frame)).2 ∧
      Delivered sender (now.syncHandle options world importInner sender (encodeFrame frame)).1 rest

theorem Delivered.taken {sender : String} {receiver : SyncState V} {frames : List Frame}
    (delivered : Delivered options sender receiver frames) {frame : Frame} (member : frame ∈ frames)
    (world : World V) (importInner : Bytes → Except Refusal (V × V)) :
    ∃ now : SyncState V,
      Judged (now.syncHandle options world importInner sender (encodeFrame frame)).2 := by
  induction frames generalizing receiver with
  | nil => cases member
  | cons head rest ih =>
    obtain ⟨judged, later⟩ := delivered receiver world importInner rfl
    rcases List.mem_cons.mp member with same | inRest
    · exact ⟨receiver, same ▸ judged⟩
    · exact ih later inRest

section Receiving

variable {options} {frame : Frame} (world : World V)
variable (importInner : Bytes → Except Refusal (V × V)) (receiver : SyncState V) (sender : String)

theorem handle_encoded (valid : options.validate = .ok ())
    (fits : (encodeFrame frame).length ≤ options.maxFrameBytes.toNat) (short : frame.count < 2 ^ 64) :
    receiver.syncHandle options world importInner sender (encodeFrame frame) =
      if frame.claimed ≤ frameDecodeLimit then
        receiver.handleFrame options world importInner sender frame
      else (receiver, .error .frameDidNotDecode) := by
  have sizes := options.validate_sizes valid
  have word : options.maxUpdateBytes.toNat < 2 ^ 64 := options.maxUpdateBytes.toNat_lt
  have within : ¬(encodeFrame frame).length >
      min (options.maxUpdateBytes.toNat + frameOverhead) (2 ^ 64 - 1) := by
    omega
  unfold syncHandle
  dsimp only
  rw [if_neg within, decodeFrame_encodeFrame frame short]
  by_cases enough : frame.claimed ≤ frameDecodeLimit
  · simp only [enough, ↓reduceIte]
  · simp only [enough, ↓reduceIte]

/-- A frame other than a chunk that every receiver takes. -/
structure Plain (options : DriveOptions) (frame : Frame) : Prop where
  fits : (encodeFrame frame).length ≤ options.maxFrameBytes.toNat
  claims : frame.claimed ≤ frameDecodeLimit
  content : match frame with
    | .hello vv => ((VersionVector.decode vv : Option V)).isSome
    | .updates bytes => bytes.length ≤ options.maxUpdateBytes.toNat
    | .updatesChunk _ _ _ _ => False
    | .want digests | .haves digests => digests.length ≤ maxDigestsPerFrame

omit [VersionVector V] in
theorem count_le_claimed (frame : Frame) : frame.count ≤ frame.claimed := by
  cases frame <;> simp only [Frame.count, Frame.claimed] <;> omega

omit [VersionVector V] in
theorem short_of_claims {frame : Frame} (claims : frame.claimed ≤ frameDecodeLimit) :
    frame.count < 2 ^ 64 := by
  have counted := count_le_claimed frame
  have limit : frameDecodeLimit < 2 ^ 64 := by decide
  omega

theorem Plain.judged (valid : options.validate = .ok ()) (plain : Plain (V := V) options frame) :
    Judged (receiver.syncHandle options world importInner sender (encodeFrame frame)).2 := by
  rw [handle_encoded world importInner receiver sender valid plain.fits (short_of_claims plain.claims),
    if_pos plain.claims]
  have content := plain.content
  cases frame with
  | hello vv =>
    obtain ⟨theirs, decoded⟩ := Option.isSome_iff_exists.mp content
    simp only [handleFrame, decoded]
    exact react_judged options world _ receiver
  | updates bytes =>
    simp only [handleFrame]
    rw [if_neg (Nat.not_lt.mpr content)]
    exact onUpdates_judged options world importInner receiver sender bytes
  | updatesChunk id seq total bytes => cases content
  | want digests =>
    simp only [handleFrame, digestsOf]
    rw [if_neg (Nat.not_lt.mpr content)]
    exact react_judged options world _ receiver
  | haves digests =>
    simp only [handleFrame, digestsOf]
    rw [if_neg (Nat.not_lt.mpr content)]
    exact react_judged options world _ receiver

end Receiving

section Chunks

variable {options}

omit [VersionVector V] in
@[simp] theorem peer_setPeer (sync : SyncState V) (name : String) (state : PeerState V) :
    (sync.setPeer name state).peer name = state := by
  unfold peer setPeer
  exact ExtTreeMap.getD_insert_self

omit [VersionVector V] in
/-- One chunk in order is added to the bytes before it; the last one completes the update. -/
theorem assemble_in_order (receiver : SyncState V) (sender : String) (id : UInt64)
    {seq total : Nat} (bytes part : Bytes) (two : 2 ≤ total) (few : total ≤ maxChunks)
    (inside : seq < total)
    (short : bytes.length + part.length ≤ options.maxUpdateBytes.toNat)
    (started : if seq = 0 then bytes = [] else (receiver.peer sender).assembly =
      some ⟨id, UInt32.ofNat total, UInt32.ofNat seq, bytes⟩) :
    receiver.assemble options sender id (UInt32.ofNat seq) (UInt32.ofNat total) part =
      if seq + 1 < total then
        (receiver.setPeer sender { receiver.peer sender with
          assembly := some ⟨id, UInt32.ofNat total, UInt32.ofNat (seq + 1), bytes ++ part⟩ }, .ok none)
      else (receiver.setPeer sender { receiver.peer sender with assembly := none },
        .ok (some (bytes ++ part))) := by
  have small : total < 2 ^ 32 := Nat.lt_of_le_of_lt few (by decide)
  have totals : (UInt32.ofNat total).toNat = total := UInt32.toNat_ofNat_of_lt small
  have seqs : (UInt32.ofNat seq).toNat = seq := UInt32.toNat_ofNat_of_lt (inside.trans small)
  have nexts : (UInt32.ofNat (seq + 1)).toNat = seq + 1 :=
    UInt32.toNat_ofNat_of_lt (Nat.lt_of_le_of_lt inside small)
  have next : UInt32.ofNat seq + 1 = UInt32.ofNat (seq + 1) := (UInt32.ofNat_add seq 1).symm
  have ranged : ¬(¬(2 ≤ (UInt32.ofNat total).toNat ∧ (UInt32.ofNat total).toNat ≤ maxChunks) ∨
      UInt32.ofNat seq ≥ UInt32.ofNat total) := by
    rw [ge_iff_le, UInt32.le_iff_toNat_le, totals, seqs]
    omega
  have current : (if UInt32.ofNat seq = 0 then some (⟨id, UInt32.ofNat total, 0, []⟩ : Assembly)
      else (receiver.peer sender).assembly) =
      some ⟨id, UInt32.ofNat total, UInt32.ofNat seq, bytes⟩ := by
    by_cases first : seq = 0
    · rw [if_pos first] at started
      rw [first, started]
      rfl
    · have later : UInt32.ofNat seq ≠ 0 := by
        intro zero
        rw [zero] at seqs
        exact first seqs.symm
      rw [if_neg first] at started
      rw [if_neg later, started]
  have compare : UInt32.ofNat (seq + 1) < UInt32.ofNat total ↔ seq + 1 < total := by
    rw [UInt32.lt_iff_toNat_lt, nexts, totals]
  unfold assemble
  dsimp only
  rw [if_neg ranged, current]
  simp only [ne_eq, not_true_eq_false, or_self, ↓reduceIte, Nat.not_lt.mpr short, next,
    compare]

/-- The frames of an update's chunks from a position on. -/
def groupFrames (id : UInt64) (total seq : Nat) (parts : List Bytes) : List Frame :=
  parts.mapIdx fun index part =>
    .updatesChunk id (UInt32.ofNat (index + seq)) (UInt32.ofNat total) part

theorem groupFrames_cons (id : UInt64) (total seq : Nat) (part : Bytes) (rest : List Bytes) :
    groupFrames id total seq (part :: rest) =
      .updatesChunk id (UInt32.ofNat seq) (UInt32.ofNat total) part ::
        groupFrames id total (seq + 1) rest := by
  unfold groupFrames
  rw [List.mapIdx_cons, Nat.zero_add]
  congr 2
  funext index
  rw [Nat.add_assoc, Nat.add_comm 1 seq]

omit [VersionVector V] in
theorem framesTo_sends (dest name : String) (frames : List Frame) :
    framesTo name (frames.map (.send dest)) = if dest = name then frames else [] := by
  induction frames with
  | nil => simp [framesTo]
  | cons frame rest ih =>
    unfold framesTo at ih ⊢
    rw [List.map_cons, List.filterMap_cons]
    by_cases same : dest = name
    · simp only [same, ↓reduceIte] at ih ⊢
      rw [ih]
    · simp only [same, ↓reduceIte] at ih ⊢
      exact ih

omit [VersionVector V] in
theorem framesTo_chunkFrames (id : UInt64) (total : Nat) (dest name : String) (parts : List Bytes) :
    framesTo name (chunkFrames id (UInt32.ofNat total) dest parts) =
      if dest = name then groupFrames id total 0 parts else [] := by
  have sends : chunkFrames id (UInt32.ofNat total) dest parts =
      (groupFrames id total 0 parts).map (.send dest) := by
    apply List.ext_getElem
    · simp [chunkFrames, groupFrames]
    · intro index _ _
      simp [chunkFrames, groupFrames]
  rw [sends, framesTo_sends]

/-- A piece a chunk frame carries within the limits. -/
def PartFits (options : DriveOptions) (part : Bytes) : Prop :=
  part.length + frameOverhead ≤ options.maxFrameBytes.toNat ∧ 28 + part.length ≤ frameDecodeLimit

theorem handle_chunk (valid : options.validate = .ok ()) (world : World V)
    (importInner : Bytes → Except Refusal (V × V)) (receiver : SyncState V) (sender : String)
    (id : UInt64) (seq total : UInt32) {part : Bytes} (fits : PartFits options part) :
    receiver.syncHandle options world importInner sender
        (encodeFrame (.updatesChunk id seq total part)) =
      receiver.handleFrame options world importInner sender (.updatesChunk id seq total part) := by
  have long := length_chunk_le id seq total part
  have roomy : (encodeFrame (.updatesChunk id seq total part)).length ≤
      options.maxFrameBytes.toNat := by
    have within := fits.1
    unfold frameOverhead at within
    omega
  have claims : (Frame.updatesChunk id seq total part).claimed ≤ frameDecodeLimit := fits.2
  rw [handle_encoded world importInner receiver sender valid roomy (short_of_claims claims),
    if_pos claims]

/-- From the point the receiver has reached, the rest of an update's chunks are taken.
The induction is on the pieces left; what is assembled so far is carried along. -/
theorem delivered_rest (valid : options.validate = .ok ()) (sender : String) (id : UInt64)
    {total : Nat} (two : 2 ≤ total) (few : total ≤ maxChunks) {more : List Frame}
    (later : ∀ receiver : SyncState V, Delivered options sender receiver more)
    (parts : List Bytes) (seq : Nat) (bytes : Bytes) (counted : seq + parts.length = total)
    (each : ∀ part ∈ parts, PartFits options part)
    (short : bytes.length + parts.flatten.length ≤ options.maxUpdateBytes.toNat)
    (receiver : SyncState V)
    (started : if seq = 0 then bytes = [] else seq = total ∨ (receiver.peer sender).assembly =
      some ⟨id, UInt32.ofNat total, UInt32.ofNat seq, bytes⟩) :
    Delivered options sender receiver (groupFrames id total seq parts ++ more) := by
  induction parts generalizing seq bytes receiver with
  | nil => exact later receiver
  | cons part rest ih =>
    rw [groupFrames_cons]
    intro now world importInner unchanged
    simp only [List.length_cons] at counted
    simp only [List.flatten_cons, List.length_append] at short
    have assembled := @assemble_in_order V options now sender id seq total bytes part two few
      (by omega) (by omega) (by
        by_cases first : seq = 0
        · rw [if_pos first] at started ⊢
          exact started
        · rw [if_neg first] at started ⊢
          rw [unchanged]
          exact started.resolve_left (by omega))
    rw [handle_chunk valid world importInner now sender id _ _ (each part List.mem_cons_self)]
    simp only [handleFrame, assembled]
    by_cases goes : seq + 1 < total
    · simp only [goes, ↓reduceIte]
      refine ⟨Judged.ok _, ?_⟩
      apply ih (seq + 1) (bytes ++ part) (by omega)
        (fun piece member => each piece (List.mem_cons_of_mem _ member))
        (by rw [List.length_append]; omega)
      rw [if_neg (by omega), peer_setPeer]
      exact .inr rfl
    · simp only [goes, ↓reduceIte]
      have done : rest = [] := List.eq_nil_of_length_eq_zero (by omega)
      subst done
      exact ⟨onUpdates_judged options world importInner _ sender _, later _⟩

end Chunks

/-- Frames to one peer that are taken one after the other: whole ones, and whole
sequences of chunks. -/
inductive Stream (options : DriveOptions) : List Frame → Prop where
  | nil : Stream options []
  | plain (one : Plain (V := V) options frame) (rest : Stream options more) :
      Stream options (frame :: more)
  | group {id : UInt64} (two : 2 ≤ parts.length) (few : parts.length ≤ maxChunks)
      (each : ∀ part ∈ parts, PartFits options part)
      (short : parts.flatten.length ≤ options.maxUpdateBytes.toNat) (rest : Stream options more) :
      Stream options (groupFrames id parts.length 0 parts ++ more)

namespace Stream

variable {options} {frames more : List Frame}

theorem append (first : Stream (V := V) options frames) (second : Stream (V := V) options more) :
    Stream (V := V) options (frames ++ more) := by
  induction first with
  | nil => exact second
  | plain one _ ih => exact .plain one ih
  | group two few each short _ ih =>
    rw [List.append_assoc]
    exact .group two few each short ih

theorem of_plain (each : ∀ frame ∈ frames, Plain (V := V) options frame) :
    Stream (V := V) options frames := by
  induction frames with
  | nil => exact .nil
  | cons frame rest ih =>
    exact .plain (each frame List.mem_cons_self)
      (ih fun other member => each other (List.mem_cons_of_mem _ member))

theorem fits (stream : Stream (V := V) options frames) {frame : Frame} (member : frame ∈ frames) :
    (encodeFrame frame).length ≤ options.maxFrameBytes.toNat := by
  induction stream with
  | nil => cases member
  | plain one _ ih =>
    rcases List.mem_cons.mp member with same | later
    · exact same ▸ one.fits
    · exact ih later
  | group two few each short _ ih =>
    rcases List.mem_append.mp member with inGroup | later
    · obtain ⟨index, inside, same⟩ := List.mem_mapIdx.mp inGroup
      subst same
      have within := (each _ (List.getElem_mem inside)).1
      refine (length_chunk_le _ _ _ _).trans ?_
      unfold frameOverhead at within
      omega
    · exact ih later

theorem delivered (valid : options.validate = .ok ()) (stream : Stream (V := V) options frames)
    (sender : String) (receiver : SyncState V) : Delivered options sender receiver frames := by
  induction stream generalizing receiver with
  | nil => trivial
  | plain one _ ih =>
    intro now world importInner _
    exact ⟨one.judged world importInner now sender valid, ih _⟩
  | group two few each short _ ih =>
    exact delivered_rest valid sender _ two few ih _ 0 [] (Nat.zero_add _) each (by simpa using short)
      receiver rfl

end Stream

/-- Actions whose frames are taken, whoever they go to. -/
def Streams (options : DriveOptions) (actions : List SyncAction) : Prop :=
  ∀ dest, Stream (V := V) options (framesTo dest actions)

namespace Streams

variable {options} {actions more : List SyncAction}

theorem append (first : Streams (V := V) options actions) (second : Streams (V := V) options more) :
    Streams (V := V) options (actions ++ more) := by
  intro dest
  rw [framesTo_append]
  exact (first dest).append (second dest)

theorem of_plain (each : ∀ dest frame, .send dest frame ∈ actions → Plain (V := V) options frame) :
    Streams (V := V) options actions := by
  intro dest
  exact .of_plain fun frame member => each dest frame (mem_framesTo.mp member)

theorem digestFrames (valid : options.validate = .ok ()) {frame : List Blake3 → Frame}
    (kind : frame = .want ∨ frame = .haves) (dest : String) (digests : List Blake3) :
    Streams (V := V) options
      (digestFrames frame (digestsPerFrame options.maxFrameBytes.toNat) dest digests) := by
  have sizes := options.validate_sizes valid
  apply of_plain
  intro name sent member
  obtain ⟨piece, cut, same⟩ := List.mem_map.mp member
  cases same
  have bound := (chunks.piece_bounds (by unfold digestsPerFrame; omega) cut).2
  have few : piece.length ≤ maxDigestsPerFrame := by
    unfold digestsPerFrame maxDigestsPerFrame at *
    omega
  have room : 32 * piece.length + 5 ≤ options.maxFrameBytes.toNat := by
    unfold digestsPerFrame frameOverhead minFrameBytes maxDigestsPerFrame at *
    omega
  have limit : 12 + 32 * piece.length ≤ frameDecodeLimit := by
    unfold frameDecodeLimit maxDigestsPerFrame at *
    omega
  rcases kind with rfl | rfl
  · exact ⟨(length_want_le piece few).trans room, limit, few⟩
  · exact ⟨(length_haves_le piece few).trans room, limit, few⟩

theorem flatMap {α : Type} {values : List α} {emit : α → List SyncAction}
    (each : ∀ value, Streams (V := V) options (emit value)) :
    Streams (V := V) options (values.flatMap emit) := by
  induction values with
  | nil => exact fun _ => .nil
  | cons value rest ih =>
    rw [List.flatMap_cons]
    exact (each value).append ih

end Streams

/-- The `Hello` of a version vector fits a frame and may be decoded. -/
def HelloFits (options : DriveOptions) (ours : V) : Prop :=
  2 + (encodeUInt (VersionVector.encode ours).length).length + (VersionVector.encode ours).length ≤
      options.maxFrameBytes.toNat ∧
    12 + (VersionVector.encode ours).length ≤ frameDecodeLimit

/-- The frames of an update may be decoded, and there are not too many chunks of it. -/
def UpdateFits (options : DriveOptions) (bytes : Bytes) : Prop :=
  if bytes.length + frameOverhead ≤ options.maxFrameBytes.toNat then
    12 + bytes.length ≤ frameDecodeLimit
  else
    let chunk := options.maxFrameBytes.toNat - frameOverhead
    (bytes.length + chunk - 1) / chunk ≤ maxChunks ∧ 28 + chunk ≤ frameDecodeLimit

/-- The trigger makes the reaction greet someone. -/
def Greets (sync : SyncState V) : Trigger V → Prop
  | .opened _ => True
  | .hello peer _ => peer ∉ sync.peers
  | .tick => ∃ name, name ∈ sync.peers
  | _ => False

/-- What a reaction has to send fits: the greeting, if it greets, and the update of each
peer that is behind. -/
structure Fits (options : DriveOptions) (world : World V) (trigger : Trigger V) (sync : SyncState V) :
    Prop where
  greeting : Greets sync trigger → HelloFits options world.ours
  updates : ∀ entry ∈ (sync.applied options world trigger).behind world.ours, ∀ bytes,
    world.exportUpdatesSince entry.2 = .ok bytes → UpdateFits options bytes

section Sufficient

variable {options} (valid : options.validate = .ok ())
  (decodes : ∀ vv : V, VersionVector.decode (VersionVector.encode vv) = some vv)

include valid in
/-- An update within the limits, whole or in chunks. -/
theorem streams_updateFrames (sync : SyncState V) (dest : String) {bytes : Bytes}
    (short : bytes.length ≤ options.maxUpdateBytes.toNat) (fits : UpdateFits options bytes) :
    Streams (V := V) options (sync.updateFrames dest bytes options.maxFrameBytes.toNat).2 := by
  have sizes := options.validate_sizes valid
  unfold UpdateFits at fits
  unfold updateFrames
  by_cases whole : bytes.length + frameOverhead ≤ options.maxFrameBytes.toNat
  · rw [if_pos whole] at fits ⊢
    apply Streams.of_plain
    intro name frame member
    cases List.mem_singleton.mp member
    refine ⟨(length_updates_le bytes).trans ?_, fits, short⟩
    unfold frameOverhead at whole
    omega
  · rw [if_neg whole] at fits ⊢
    dsimp only at fits ⊢
    set chunk := options.maxFrameBytes.toNat - frameOverhead with isChunk
    have positive : 0 < chunk := by
      unfold minFrameBytes at sizes
      unfold frameOverhead at isChunk
      omega
    have counted := chunks.length_eq positive bytes
    have joined := chunks.flatten_eq positive bytes
    have two : 2 ≤ (chunks chunk bytes).length := by
      rw [counted, Nat.le_div_iff_mul_le positive]
      unfold frameOverhead at whole isChunk
      omega
    have each : ∀ part ∈ chunks chunk bytes, PartFits options part := by
      intro part member
      have bound := (chunks.piece_bounds positive member).2
      unfold frameOverhead minFrameBytes at *
      exact ⟨by unfold frameOverhead; omega, by omega⟩
    intro name
    have frames := framesTo_chunkFrames (sync.nextChunkId + 1) (chunks chunk bytes).length dest name
      (chunks chunk bytes)
    rw [counted] at frames
    rw [frames]
    split
    · rw [← counted, ← List.append_nil (groupFrames ..)]
      exact .group two (counted ▸ fits.1) each (by rw [joined]; exact short) .nil
    · exact .nil

include decodes in
theorem streams_hello {ours : V} (fits : HelloFits options ours) (dest : String) :
    Streams (V := V) options [hello dest ours] := by
  apply Streams.of_plain
  intro name frame member
  cases List.mem_singleton.mp member
  refine ⟨?_, fits.2, by simp [decodes]⟩
  rw [length_hello]
  exact fits.1

include valid in
theorem streams_sent {world : World V}
    (bounded : ∀ vv bytes, world.exportUpdatesSince vv = .ok bytes →
      bytes.length ≤ options.maxUpdateBytes.toNat)
    {behind : List (String × V)} {updates : List SyncAction}
    (sent : Sent world options.maxFrameBytes.toNat behind updates)
    (fits : ∀ entry ∈ behind, ∀ bytes, world.exportUpdatesSince entry.2 = .ok bytes →
      UpdateFits options bytes) : Streams (V := V) options updates := by
  induction sent with
  | nil => exact fun _ => .nil
  | cons sync exported _ ih =>
    refine Streams.append ?_ (ih fun entry member => fits entry (List.mem_cons_of_mem _ member))
    exact streams_updateFrames valid sync _ (bounded _ _ exported)
      (fits _ List.mem_cons_self _ exported)

include valid in
theorem streams_settle (sync : SyncState V) (world : World V) : Streams (V := V) options
    (sync.settle world (digestsPerFrame options.maxFrameBytes.toNat)).2 := by
  have fresh : Streams (V := V) options
      (sync.askFresh world (digestsPerFrame options.maxFrameBytes.toNat)).2 := by
    unfold askFresh
    dsimp only
    split
    · exact fun _ => .nil
    · exact Streams.flatMap fun name => Streams.digestFrames valid (.inl rfl) name _
  exact fresh.append (Streams.flatMap fun entry => Streams.digestFrames valid (.inr rfl) entry.1 _)

include valid decodes in
theorem streams_applyTrigger (sync : SyncState V) (world : World V) (trigger : Trigger V)
    (fits : Greets sync trigger → HelloFits options world.ours) : Streams (V := V) options
      (sync.applyTrigger world (digestsPerFrame options.maxFrameBytes.toNat) trigger).2 := by
  have silent : Streams (V := V) options [] := fun _ => .nil
  have greet (name : String) (greets : Greets sync trigger) : Streams (V := V) options
      (hello name world.ours :: digestFrames .want (digestsPerFrame options.maxFrameBytes.toNat)
        name world.wants.toList) :=
    (streams_hello decodes (fits greets) name).append (Streams.digestFrames valid (.inl rfl) name _)
  cases trigger with
  | opened peer => exact greet peer trivial
  | hello peer theirs =>
    simp only [applyTrigger]
    split
    · exact silent
    · rename_i absent
      exact greet peer (by simpa [Greets] using absent)
  | want peer digests => exact Streams.digestFrames valid (.inr rfl) peer _
  | tick =>
    refine Streams.append ?_ (Streams.flatMap fun name => Streams.digestFrames valid (.inl rfl) name _)
    apply Streams.of_plain
    intro dest frame member
    obtain ⟨name, known, same⟩ := List.mem_map.mp member
    have greets : Greets sync .tick := ⟨name, ExtTreeMap.mem_keys.mp known⟩
    cases same
    exact ⟨by rw [length_hello]; exact (fits greets).1, (fits greets).2, by simp [decodes]⟩
  | _ => exact silent

end Sufficient

/-- Every frame keeps within the frame limit, and whoever gets the frames in order takes
them up to what its document makes of them. -/
def Deliverable (V : Type) [VersionVector V] (options : DriveOptions) (actions : List SyncAction) :
    Prop :=
  (∀ dest frame, .send dest frame ∈ actions →
    (encodeFrame frame).length ≤ options.maxFrameBytes.toNat) ∧
  ∀ (dest sender : String) (receiver : SyncState V),
    Delivered options sender receiver (framesTo dest actions)

theorem Streams.deliverable {options : DriveOptions} (valid : options.validate = .ok ())
    {actions : List SyncAction} (streams : Streams (V := V) options actions) :
    Deliverable V options actions := by
  refine ⟨?_, ?_⟩
  · intro dest frame sent
    exact (streams dest).fits (mem_framesTo.mpr sent)
  · intro dest sender receiver
    exact (streams dest).delivered valid sender receiver

section Necessary

variable {options} (valid : options.validate = .ok ()) {actions : List SyncAction}
  (deliverable : Deliverable V options actions) (world : World V)

include valid deliverable world in
theorem claims_of_deliverable {dest : String} {frame : Frame} (sent : .send dest frame ∈ actions)
    (short : frame.count < 2 ^ 64) : frame.claimed ≤ frameDecodeLimit := by
  by_contra large
  obtain ⟨now, judged⟩ := (deliverable.2 dest dest .default).taken options (mem_framesTo.mpr sent)
    world fun _ => .error ⟨.io, ""⟩
  rw [handle_encoded _ _ _ _ valid (deliverable.1 dest frame sent) short, if_neg large] at judged
  obtain ⟨refusal, impossible⟩ := judged _ rfl
  cases impossible

include valid deliverable world in
theorem range_of_deliverable {dest : String} {id : UInt64} {seq total : UInt32} {part : Bytes}
    (sent : .send dest (.updatesChunk id seq total part) ∈ actions) (fits : PartFits options part) :
    2 ≤ total.toNat ∧ total.toNat ≤ maxChunks ∧ seq.toNat < total.toNat := by
  by_contra out
  obtain ⟨now, judged⟩ := (deliverable.2 dest dest .default).taken options (mem_framesTo.mpr sent)
    world fun _ => .error ⟨.io, ""⟩
  have refused : ¬(2 ≤ total.toNat ∧ total.toNat ≤ maxChunks) ∨ seq ≥ total := by
    rw [ge_iff_le, UInt32.le_iff_toNat_le]
    omega
  rw [handle_chunk valid _ _ _ _ _ _ _ fits] at judged
  simp only [handleFrame, assemble, if_pos refused] at judged
  obtain ⟨refusal, impossible⟩ := judged _ rfl
  cases impossible

include valid deliverable world in
theorem fits_hello {dest : String} {ours : V} (sent : hello dest ours ∈ actions) :
    HelloFits options ours := by
  have long := deliverable.1 dest _ sent
  have word := options.maxFrameBytes.toNat_lt
  rw [length_hello] at long
  exact ⟨long, claims_of_deliverable valid deliverable world sent (by
    simp only [Frame.count]
    omega)⟩

include valid deliverable world in
theorem fits_update {sync : SyncState V} {dest : String} {bytes : Bytes}
    (sent : ∀ action ∈ (sync.updateFrames dest bytes options.maxFrameBytes.toNat).2, action ∈ actions) :
    UpdateFits options bytes := by
  have sizes := options.validate_sizes valid
  have word := options.maxFrameBytes.toNat_lt
  unfold UpdateFits
  unfold updateFrames at sent
  by_cases whole : bytes.length + frameOverhead ≤ options.maxFrameBytes.toNat
  · rw [if_pos whole] at sent ⊢
    exact claims_of_deliverable valid deliverable world (sent _ List.mem_cons_self) (by
      simp only [Frame.count]
      omega)
  · rw [if_neg whole] at sent ⊢
    dsimp only at sent ⊢
    set chunk := options.maxFrameBytes.toNat - frameOverhead with isChunk
    have positive : 0 < chunk := by
      unfold minFrameBytes at sizes
      unfold frameOverhead at isChunk
      omega
    have counted := chunks.length_eq positive bytes
    have emitted (index : Nat) (inside : index < (chunks chunk bytes).length) :
        .send dest (.updatesChunk (sync.nextChunkId + 1) (UInt32.ofNat index)
          (UInt32.ofNat ((bytes.length + chunk - 1) / chunk)) (chunks chunk bytes)[index]) ∈ actions :=
      sent _ (List.mem_mapIdx.mpr ⟨index, inside, rfl⟩)
    -- the first piece is full, so decoding it claims the most
    have full : 28 + chunk ≤ frameDecodeLimit := by
      have some_left : bytes ≠ [] := by
        rintro rfl
        simp only [List.length_nil] at whole
        omega
      obtain ⟨index, inside, same⟩ := List.mem_iff_getElem.mp (@chunks.take_mem _ chunk _ some_left)
      have taken : (chunks chunk bytes)[index].length = chunk := by
        rw [same, List.length_take]
        omega
      have claims := claims_of_deliverable valid deliverable world (emitted index inside) (by
        simp only [Frame.count]
        omega)
      simp only [Frame.claimed] at claims
      omega
    have each (index : Nat) (inside : index < (chunks chunk bytes).length) :
        PartFits options (chunks chunk bytes)[index] := by
      have bound := (chunks.piece_bounds positive (List.getElem_mem inside)).2
      unfold PartFits
      omega
    refine ⟨?_, full⟩
    -- a count that does not fit 32 bits wraps; the chunk at the wrapped count is out of range
    by_contra many
    have first := range_of_deliverable valid deliverable world (emitted 0 (by omega)) (each 0 (by omega))
    set total := UInt32.ofNat ((bytes.length + chunk - 1) / chunk) with isTotal
    have last := range_of_deliverable valid deliverable world (emitted total.toNat (by omega))
      (each total.toNat (by omega))
    have wraps : (UInt32.ofNat total.toNat).toNat = total.toNat := by simp
    omega

end Necessary

theorem greeting_emitted {sync : SyncState V} {world : World V} {per : Nat} {trigger : Trigger V}
    (greets : Greets sync trigger) :
    ∃ dest, hello dest world.ours ∈ (sync.applyTrigger world per trigger).2 := by
  cases trigger with
  | opened peer => exact ⟨peer, List.mem_cons_self⟩
  | hello peer theirs =>
    refine ⟨peer, ?_⟩
    simp only [applyTrigger]
    rw [if_neg (by simpa [Greets] using greets)]
    exact List.mem_cons_self
  | tick =>
    obtain ⟨name, known⟩ := greets
    exact ⟨name, List.mem_append_left _ (List.mem_map.mpr ⟨name, ExtTreeMap.mem_keys.mpr known, rfl⟩)⟩
  | _ => cases greets

/-- What a reaction sends is deliverable exactly when what it has to send fits. -/
theorem react_deliverable_iff {options : DriveOptions} (valid : options.validate = .ok ())
    (decodes : ∀ vv : V, VersionVector.decode (VersionVector.encode vv) = some vv)
    {world : World V} (bounded : ∀ vv bytes, world.exportUpdatesSince vv = .ok bytes →
      bytes.length ≤ options.maxUpdateBytes.toNat)
    {trigger : Trigger V} {sync : SyncState V} {actions : List SyncAction}
    (done : (sync.react options world trigger).2 = .ok actions) :
    Deliverable V options actions ↔ Fits options world trigger sync := by
  obtain ⟨sent, _, _, ⟨refusal, failed⟩ | ⟨updates, _, sending, whole⟩⟩ :=
    sync.react_cases options world trigger
  · rw [failed] at done
    cases done
  · rw [whole] at done
    cases done
    constructor
    · intro deliverable
      refine ⟨?_, ?_⟩
      · intro greets
        obtain ⟨dest, greeted⟩ := @greeting_emitted V _ sync world
          (digestsPerFrame options.maxFrameBytes.toNat) trigger greets
        exact fits_hello valid deliverable world
          (List.mem_append_left _ (List.mem_append_left _ (List.mem_append_left _ greeted)))
      · intro entry member bytes exported
        obtain ⟨other, frames⟩ := sending.frames member exported
        exact fits_update valid deliverable world fun action found =>
          List.mem_append_left _ (List.mem_append_left _ (List.mem_append_right _ (frames action found)))
    · intro fits
      refine Streams.deliverable valid ?_
      have triggered := streams_applyTrigger valid decodes sync world trigger fits.greeting
      have sentAll := streams_sent valid bounded sending fits.updates
      have settled := streams_settle valid sent world
      refine ((triggered.append sentAll).append settled).append (Streams.of_plain ?_)
      intro dest frame started
      obtain ⟨holder, digest, impossible⟩ := startPulls_pulls started
      cases impossible

/-- Whatever state a drive is in: the frames a call returns are deliverable exactly when
its greeting and the updates it sends fit. -/
theorem frames_deliverable_iff {options : DriveOptions} (valid : options.validate = .ok ())
    (decodes : ∀ vv : V, VersionVector.decode (VersionVector.encode vv) = some vv)
    (sync : SyncState V) (call : SyncCall V) (actions : List SyncAction)
    (emitted : (sync.call options call).2 = .ok actions)
    (bounded : ∀ world trigger start, sync.reaction options call = some (world, trigger, start) →
      ∀ vv bytes, world.exportUpdatesSince vv = .ok bytes →
        bytes.length ≤ options.maxUpdateBytes.toNat) :
    Deliverable V options actions ↔
      ∀ world trigger start, sync.reaction options call = some (world, trigger, start) →
        Fits options world trigger start := by
  rcases call_cases options sync call with ⟨world, trigger, start, reached, same, _⟩ |
    ⟨unreached, _, silent⟩
  · have done : (start.react options world trigger).2 = .ok actions :=
      (congrArg Prod.snd same).symm.trans emitted
    rw [react_deliverable_iff valid decodes (bounded world trigger start reached) done]
    constructor
    · intro fits other cause first reaching
      cases reached.symm.trans reaching
      exact fits
    · exact fun fits => fits world trigger start reached
  · rw [silent actions emitted]
    constructor
    · intro _ world trigger start reached
      exact absurd (unreached.symm.trans reached) (by simp)
    · exact fun _ => Streams.deliverable valid fun _ => .nil

/-- A drive that greets a peer and asks it for one object. -/
theorem frames_deliverable_to_new_peer :
    (SyncState.default.call sampleOptions (.opened sampleWorld "peer")).2 =
      .ok [.send "peer" (.hello []), .send "peer" (.want [7]), .send "peer" (.want [7])] ∧
    Deliverable (List UInt8) sampleOptions
      [.send "peer" (.hello []), .send "peer" (.want [7]), .send "peer" (.want [7])] := by
  have emitted : (SyncState.default.call sampleOptions (.opened sampleWorld "peer")).2 =
      .ok [.send "peer" (.hello []), .send "peer" (.want [7]), .send "peer" (.want [7])] := by
    decide
  have nobody : (SyncState.default.applied sampleOptions sampleWorld (.opened "peer")).behind
      sampleWorld.ours = [] := by
    decide
  refine ⟨emitted, (frames_deliverable_iff (by rfl) (fun _ => rfl) .default _ _ emitted ?_).mpr ?_⟩
  · intro world trigger start reached vv bytes exported
    cases reached
    cases exported
    exact Nat.zero_le _
  · intro world trigger start reached
    cases reached
    refine ⟨fun _ => ⟨by decide, by decide⟩, ?_⟩
    rw [nobody]
    intro entry member
    cases member

/-- A version vector of five thousand bytes under the smallest frame limit: the drive
greets with a frame over the limit. -/
theorem long_hello_not_deliverable :
    let world : World (List UInt8) := ⟨List.replicate 5000 0, ∅, fun _ => false, fun _ => .ok []⟩
    sampleOptions.validate = .ok () ∧
    ∃ actions, (SyncState.default.call sampleOptions (.opened world "peer")).2 = .ok actions ∧
      ¬Deliverable (List UInt8) sampleOptions actions := by
  intro world
  have exports : world.Exports := fun _ => ⟨[], rfl⟩
  obtain ⟨actions, done⟩ := react_ok sampleOptions world (.opened "peer") .default exports
  refine ⟨rfl, actions, done, fun deliverable => ?_⟩
  have fits := (react_deliverable_iff (by rfl) (fun _ => rfl) (fun _ _ exported => by
    cases exported
    exact Nat.zero_le _) done).mp deliverable
  have long := (fits.greeting trivial).1
  have length : (VersionVector.encode world.ours).length = 5000 := List.length_replicate
  have limit : sampleOptions.maxFrameBytes.toNat = 4096 := rfl
  omega

end SyncState

end Mille.Drive
