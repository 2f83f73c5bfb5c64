import Mille.Drive.SyncFrames

/-! Chunked updates at the receiver: what a peer's stream hands over when its frames are
dropped, doubled or out of order. -/

namespace Mille.Drive

open Std Mille.Bincode

namespace SyncState

variable {V : Type} {sync after : SyncState V}

/-- The update of a peer that is in progress. -/
def assemblyOf (sync : SyncState V) (name : String) : Option Assembly :=
  (sync.peer name).assembly

theorem assemblyOf_eq (sync : SyncState V) (name : String) :
    sync.assemblyOf name = (sync.peers[name]?).bind (·.assembly) := by
  rw [assemblyOf, peer, ExtTreeMap.getD_eq_getD_getElem?]
  cases sync.peers[name]? <;> rfl

/-- No peer's update in progress has changed. -/
def SameAssemblies (sync after : SyncState V) : Prop :=
  ∀ name, after.assemblyOf name = sync.assemblyOf name

theorem SameAssemblies.trans {last : SyncState V} (first : SameAssemblies sync after)
    (second : SameAssemblies after last) : SameAssemblies sync last :=
  fun name => (second name).trans (first name)

theorem SameAssemblies.of_peers (same : after.peers = sync.peers) : SameAssemblies sync after := by
  intro name
  rw [assemblyOf_eq, assemblyOf_eq, same]

theorem assemblyOf_setPeer (sync : SyncState V) (other name : String) (state : PeerState V) :
    (sync.setPeer other state).assemblyOf name =
      if other = name then state.assembly else sync.assemblyOf name := by
  rw [assemblyOf_eq, assemblyOf_eq, setPeer, Maps.lookup_insert]
  split_ifs <;> rfl

theorem SameAssemblies.setPeer {name : String} {state : PeerState V}
    (kept : state.assembly = sync.assemblyOf name) : SameAssemblies sync (sync.setPeer name state) := by
  intro other
  rw [assemblyOf_setPeer]
  split_ifs with same
  · rw [kept, same]
  · rfl

theorem SameAssemblies.modify {name : String} {change : PeerState V → PeerState V}
    (kept : ∀ state, (change state).assembly = state.assembly) :
    SameAssemblies sync { sync with peers := sync.peers.modify name change } := by
  intro other
  rw [assemblyOf_eq, assemblyOf_eq, Maps.lookup_modify]
  split_ifs
  · cases sync.peers[other]? with
    | none => rfl
    | some state => exact kept state
  · rfl

variable [VersionVector V]

theorem sameAssemblies_trigger (world : World V) (per : Nat) (sync : SyncState V) (trigger : Trigger V) :
    SameAssemblies sync (sync.applyTrigger world per trigger).1 := by
  cases trigger with
  | opened peer => exact .setPeer rfl
  | hello peer theirs => exact .setPeer rfl
  | imported sender before after =>
    apply SameAssemblies.modify
    intro state
    split_ifs <;> rfl
  | localChange => exact fun _ => rfl
  | want peer digests => exact .modify fun _ => rfl
  | haves peer digests => exact .of_peers rfl
  | pulled digest => exact .of_peers rfl
  | pullFailed peer digest => exact .of_peers (peers_endFailed ..)
  | tick => exact .of_peers (endAll_keeps _ _).2.1

omit [VersionVector V] in
theorem sameAssemblies_sendUpdates (world : World V) (maxFrame : Nat) (peers : List (String × V))
    (sync : SyncState V) (out : List SyncAction) :
    SameAssemblies sync (sendUpdates world maxFrame peers sync out).1 := by
  induction peers generalizing sync out with
  | nil => exact fun _ => rfl
  | cons head rest ih =>
    unfold sendUpdates
    split
    · exact fun _ => rfl
    · rename_i bytes _
      have sent : SameAssemblies sync
          ((sync.updateFrames head.1 bytes maxFrame).1.caughtUp head.1 world.ours) :=
        SameAssemblies.trans (.of_peers (peers_updateFrames ..)) (.modify fun _ => rfl)
      exact sent.trans (ih _ _)

omit [VersionVector V] in
theorem sameAssemblies_settle (world : World V) (per : Nat) (sync : SyncState V) :
    SameAssemblies sync (sync.settle world per).1 := by
  have asked : SameAssemblies sync (sync.askFresh world per).1 :=
    .of_peers (askFresh_keeps world per sync).1
  refine asked.trans ?_
  intro name
  rw [assemblyOf_eq, assemblyOf_eq]
  change (((sync.askFresh world per).1.peers.map _)[name]?).bind _ = _
  rw [ExtTreeMap.getElem?_map]
  cases (sync.askFresh world per).1.peers[name]? <;> rfl

theorem sameAssemblies_react (options : DriveOptions) (world : World V) (trigger : Trigger V)
    (sync : SyncState V) : SameAssemblies sync (sync.react options world trigger).1 := by
  have applied := sameAssemblies_trigger world (digestsPerFrame options.maxFrameBytes.toNat) sync trigger
  unfold react
  dsimp only
  have sent := applied.trans (sameAssemblies_sendUpdates world options.maxFrameBytes.toNat
    ((sync.applyTrigger world (digestsPerFrame options.maxFrameBytes.toNat) trigger).1.behind world.ours)
    _ (sync.applyTrigger world (digestsPerFrame options.maxFrameBytes.toNat) trigger).2)
  split
  · rename_i failing
    rw [failing] at sent
    exact sent
  · rename_i reached out done
    rw [done] at sent
    have settled := sent.trans
      (sameAssemblies_settle world (digestsPerFrame options.maxFrameBytes.toNat) reached)
    apply settled.trans
    apply SameAssemblies.of_peers
    rw [startPulls_keeps]

theorem sameAssemblies_onUpdates (options : DriveOptions) (world : World V)
    (importInner : Bytes → Except Refusal (V × V)) (sync : SyncState V) (peer : String) (bytes : Bytes) :
    SameAssemblies sync (sync.onUpdates options world importInner peer bytes).1 := by
  unfold onUpdates
  split
  · exact fun _ => rfl
  · exact sameAssemblies_react _ _ _ _

/-- Only a chunk touches an update in progress, and a chunk as `assemble` leaves it. -/
theorem sameAssemblies_frame (options : DriveOptions) (world : World V)
    (importInner : Bytes → Except Refusal (V × V)) (sync : SyncState V) (peer : String) (frame : Frame) :
    SameAssemblies
      (match frame with
        | .updatesChunk id seq total bytes => (sync.assemble options peer id seq total bytes).1
        | _ => sync)
      (sync.handleFrame options world importInner peer frame).1 := by
  cases frame with
  | hello vv =>
    simp only [handleFrame]
    split
    · exact fun _ => rfl
    · exact sameAssemblies_react _ _ _ _
  | updates bytes =>
    simp only [handleFrame]
    split
    · exact fun _ => rfl
    · exact sameAssemblies_onUpdates _ _ _ _ _ _
  | updatesChunk id seq total bytes =>
    simp only [handleFrame]
    split
    · rename_i assembling
      rw [assembling]
      exact fun _ => rfl
    · rename_i assembling
      rw [assembling]
      exact fun _ => rfl
    · rename_i assembling
      rw [assembling]
      exact sameAssemblies_onUpdates _ _ _ _ _ _
  | want digests =>
    simp only [handleFrame]
    split
    · exact fun _ => rfl
    · exact sameAssemblies_react _ _ _ _
  | haves digests =>
    simp only [handleFrame]
    split
    · exact fun _ => rfl
    · exact sameAssemblies_react _ _ _ _

end SyncState

/-! ### The sender's session -/

section Sender

/-- An update to a peer, with the id its chunks carry if it is chunked. -/
structure Update where
  dest : String
  id : UInt64
  bytes : Bytes
deriving DecidableEq

/-- The update does not fit one frame. -/
def Chunked (maxFrame : Nat) (bytes : Bytes) : Prop :=
  maxFrame < bytes.length + frameOverhead

instance (maxFrame : Nat) (bytes : Bytes) : Decidable (Chunked maxFrame bytes) :=
  inferInstanceAs (Decidable (_ < _))

/-- The parts of a chunked update. -/
def parts (maxFrame : Nat) (bytes : Bytes) : List Bytes :=
  chunks (maxFrame - frameOverhead) bytes

/-- The updates of a session, as its counter numbers those that are chunked. -/
def numbered (maxFrame : Nat) : UInt64 → List (String × Bytes) → List Update
  | _, [] => []
  | last, (dest, bytes) :: rest =>
    let id := if Chunked maxFrame bytes then last + 1 else last
    ⟨dest, id, bytes⟩ :: numbered maxFrame id rest

def Update.frames (maxFrame : Nat) (update : Update) : List Frame :=
  if Chunked maxFrame update.bytes then
    SyncState.groupFrames update.id (parts maxFrame update.bytes).length 0 (parts maxFrame update.bytes)
  else [.updates update.bytes]

/-- One session sends its updates one after the other. -/
def SyncState.sendAll {V : Type} (maxFrame : Nat) :
    SyncState V → List (String × Bytes) → SyncState V × List SyncAction
  | sync, [] => (sync, [])
  | sync, (dest, bytes) :: rest =>
    let sent := sync.updateFrames dest bytes maxFrame
    let others := sendAll maxFrame sent.1 rest
    (others.1, sent.2 ++ others.2)

variable {V : Type} {maxFrame : Nat}

theorem parts_length (enough : minFrameBytes ≤ maxFrame) (bytes : Bytes) :
    (parts maxFrame bytes).length =
      (bytes.length + (maxFrame - frameOverhead) - 1) / (maxFrame - frameOverhead) := by
  have positive : 0 < maxFrame - frameOverhead := by
    unfold minFrameBytes at enough
    unfold frameOverhead
    omega
  exact chunks.length_eq positive bytes

theorem framesTo_updateFrames (enough : minFrameBytes ≤ maxFrame) (sync : SyncState V)
    (dest name : String) (bytes : Bytes) :
    framesTo name (sync.updateFrames dest bytes maxFrame).2 =
      if dest = name then
        (Update.mk dest (if Chunked maxFrame bytes then sync.nextChunkId + 1 else sync.nextChunkId)
          bytes).frames maxFrame
      else [] := by
  unfold SyncState.updateFrames Update.frames
  by_cases fits : bytes.length + frameOverhead ≤ maxFrame
  · have whole : ¬Chunked maxFrame bytes := Nat.not_lt.mpr fits
    rw [if_pos fits, if_neg whole, if_neg whole]
    exact SyncState.framesTo_sends dest name [.updates bytes]
  · have cut : Chunked maxFrame bytes := Nat.not_le.mp fits
    rw [if_neg fits, if_pos cut, if_pos cut]
    dsimp only
    rw [← parts_length enough]
    exact SyncState.framesTo_chunkFrames _ _ dest name _

theorem nextChunkId_updateFrames (sync : SyncState V) (dest : String) (bytes : Bytes) :
    (sync.updateFrames dest bytes maxFrame).1.nextChunkId =
      if Chunked maxFrame bytes then sync.nextChunkId + 1 else sync.nextChunkId := by
  unfold SyncState.updateFrames
  by_cases fits : bytes.length + frameOverhead ≤ maxFrame
  · have whole : ¬Chunked maxFrame bytes := Nat.not_lt.mpr fits
    rw [if_pos fits, if_neg whole]
  · have cut : Chunked maxFrame bytes := Nat.not_le.mp fits
    rw [if_neg fits, if_pos cut]

theorem framesTo_sendAll (enough : minFrameBytes ≤ maxFrame) (sync : SyncState V) (name : String)
    (updates : List (String × Bytes)) :
    framesTo name (sync.sendAll maxFrame updates).2 =
      ((numbered maxFrame sync.nextChunkId updates).filter (·.dest = name)).flatMap
        (Update.frames maxFrame) := by
  induction updates generalizing sync with
  | nil => rfl
  | cons head rest ih =>
    obtain ⟨dest, bytes⟩ := head
    simp only [SyncState.sendAll, numbered]
    rw [framesTo_append, framesTo_updateFrames enough, ih, nextChunkId_updateFrames]
    by_cases same : dest = name
    · rw [if_pos same, List.filter_cons_of_pos (by simpa using same), List.flatMap_cons]
    · rw [if_neg same, List.filter_cons_of_neg (by simpa using same), List.nil_append]

theorem numbered_updates (last : UInt64) (updates : List (String × Bytes)) :
    (numbered maxFrame last updates).map (fun update => (update.dest, update.bytes)) = updates := by
  induction updates generalizing last with
  | nil => rfl
  | cons head rest ih =>
    rw [numbered, List.map_cons, ih]

theorem numbered_append (last : UInt64) (updates more : List (String × Bytes)) :
    numbered maxFrame last (updates ++ more) = numbered maxFrame last updates ++
      numbered maxFrame (last + UInt64.ofNat (updates.countP fun update => Chunked maxFrame update.2))
        more := by
  induction updates generalizing last with
  | nil => simp [numbered]
  | cons head rest ih =>
    obtain ⟨dest, bytes⟩ := head
    rw [List.cons_append, numbered, numbered, ih, List.cons_append]
    by_cases cut : Chunked maxFrame bytes
    · rw [List.countP_cons_of_pos (by simpa using cut), if_pos cut, UInt64.ofNat_add, UInt64.add_assoc,
        UInt64.add_comm 1]
      rfl
    · rw [List.countP_cons_of_neg (by simpa using cut), if_neg cut]

theorem numbered_ids (last : UInt64) (updates : List (String × Bytes)) :
    ((numbered maxFrame last updates).filter (fun update => Chunked maxFrame update.bytes)).map (·.id) =
      (List.range (updates.countP fun update => Chunked maxFrame update.2)).map
        fun index => last + UInt64.ofNat (index + 1) := by
  induction updates generalizing last with
  | nil => rfl
  | cons head rest ih =>
    obtain ⟨dest, bytes⟩ := head
    rw [numbered]
    by_cases cut : Chunked maxFrame bytes
    · have next : ∀ index : Nat, last + 1 + UInt64.ofNat (index + 1) =
          last + UInt64.ofNat (index + 1 + 1) := by
        intro index
        rw [UInt64.ofNat_add (index + 1) 1, UInt64.add_assoc, UInt64.add_comm 1]
        rfl
      rw [List.filter_cons_of_pos (by simpa using cut), List.countP_cons_of_pos (by simpa using cut)]
      simp only [if_pos cut, List.map_cons, ih, List.range_succ_eq_map, List.map_map]
      congr 1
      apply List.map_congr_left
      intro index _
      exact next index
    · rw [List.filter_cons_of_neg (by simpa using cut), List.countP_cons_of_neg (by simpa using cut)]
      simp only [if_neg cut, ih]

theorem numbered_distinct {last : UInt64} {updates : List (String × Bytes)}
    (few : updates.countP (fun update => Chunked maxFrame update.2) ≤ 2 ^ 64) :
    (((numbered maxFrame last updates).filter (fun update => Chunked maxFrame update.bytes)).map
      (·.id)).Nodup := by
  rw [numbered_ids]
  apply List.Nodup.map_on _ List.nodup_range
  intro first one second two same
  have bounds := List.mem_range.mp one
  have others := List.mem_range.mp two
  have ids := UInt64.toNat_inj.mpr (UInt64.add_right_inj last |>.mp same)
  simp only [UInt64.toNat_ofNat'] at ids
  omega

end Sender

/-! ### The receiver's stream -/

/-- A frame of a peer's stream, with what the receiver reads while it handles the frame. -/
structure Arrival (V : Type) where
  world : World V
  importInner : Bytes → Except Refusal (V × V)
  frame : Frame

/-- The chunk that starts an update. -/
def Frame.starts (id : UInt64) : Frame → Bool
  | .updatesChunk other seq _ _ => other = id && seq = 0
  | _ => false

section Receiver

variable {V : Type} [VersionVector V] (options : DriveOptions) (name : String)

/-- What a frame hands over to the document: an update of one frame, or the one that
`assemble` returns, under the id of its chunks. -/
def handed (sync : SyncState V) : Frame → Option (Option UInt64 × Bytes)
  | .updates bytes => if bytes.length > options.maxUpdateBytes.toNat then none else some (none, bytes)
  | .updatesChunk id seq total bytes =>
    match (sync.assemble options name id seq total bytes).2 with
    | .ok (some whole) => some (some id, whole)
    | _ => none
  | _ => none

def arrive (sync : SyncState V) (arrival : Arrival V) : SyncState V :=
  (sync.handleFrame options arrival.world arrival.importInner name arrival.frame).1

/-- Everything a stream hands over, in order. -/
def taken : SyncState V → List (Arrival V) → List (Option UInt64 × Bytes)
  | _, [] => []
  | sync, arrival :: rest =>
    (handed options name sync arrival.frame).toList ++ taken (arrive options name sync arrival) rest

variable {options name} {sync : SyncState V}

omit [VersionVector V] in
/-- What `assemble` does with a chunk: it drops the update in progress, adds the chunk to
it, or completes it. A chunk is added to what went before it of the same update, and the
first one to nothing. -/
theorem assemble_cases (id : UInt64) (seq total : UInt32) (part : Bytes) :
    (sync.assemble options name id seq total part).1.assemblyOf name = none ∧
        (∃ error, (sync.assemble options name id seq total part).2 = .error error) ∨
      ∃ before : Bytes, (before ++ part).length ≤ options.maxUpdateBytes.toNat ∧
        (seq = 0 ∧ before = [] ∨ seq ≠ 0 ∧ sync.assemblyOf name = some ⟨id, total, seq, before⟩) ∧
        (seq + 1 < total ∧
            (sync.assemble options name id seq total part).1.assemblyOf name =
              some ⟨id, total, seq + 1, before ++ part⟩ ∧
            (sync.assemble options name id seq total part).2 = .ok none ∨
          seq < total ∧ ¬seq + 1 < total ∧
            (sync.assemble options name id seq total part).1.assemblyOf name = none ∧
            (sync.assemble options name id seq total part).2 = .ok (some (before ++ part))) := by
  have dropped : ∀ error, ((sync.setPeer name { sync.peer name with assembly := none },
      (.error error : Except DriveError (Option Bytes))).1.assemblyOf name = none) := by
    intro error
    rw [SyncState.assemblyOf_setPeer, if_pos rfl]
  generalize current : (if seq = 0 then some (⟨id, total, 0, []⟩ : Assembly)
    else (sync.peer name).assembly) = assembly
  unfold SyncState.assemble
  dsimp only
  rw [current]
  split_ifs with ranged
  · exact .inl ⟨dropped (.chunkOutOfRange seq total), _, rfl⟩
  · rw [not_or, ge_iff_le, UInt32.not_le] at ranged
    cases assembly with
    | none => exact .inl ⟨dropped .chunkWithoutFirst, _, rfl⟩
    | some assembly =>
      obtain ⟨oldId, oldTotal, oldNext, before⟩ := assembly
      dsimp only
      split_ifs with other long more
      · exact .inl ⟨dropped .chunksOutOfOrder, _, rfl⟩
      · exact .inl ⟨dropped (.updateOverLimit _), _, rfl⟩
      all_goals
        simp only [ne_eq, not_or, not_not] at other
        obtain ⟨rfl, rfl, rfl⟩ := other
        have started : oldNext = 0 ∧ before = [] ∨
            oldNext ≠ 0 ∧ sync.assemblyOf name = some ⟨oldId, oldTotal, oldNext, before⟩ := by
          by_cases first : oldNext = 0
          · rw [if_pos first] at current
            simp only [Option.some.injEq, Assembly.mk.injEq] at current
            exact .inl ⟨first, current.2.2.2.symm⟩
          · rw [if_neg first] at current
            exact .inr ⟨first, current⟩
        refine .inr ⟨before, ?_, started, ?_⟩
        · rw [List.length_append]
          omega
      · exact .inl ⟨more, by rw [SyncState.assemblyOf_setPeer, if_pos rfl], rfl⟩
      · exact .inr ⟨ranged.2, more, by rw [SyncState.assemblyOf_setPeer, if_pos rfl], rfl⟩

theorem arrive_chunk (arrival : Arrival V) {id : UInt64} {seq total : UInt32} {part : Bytes}
    (chunk : arrival.frame = .updatesChunk id seq total part) :
    (arrive options name sync arrival).assemblyOf name =
      (sync.assemble options name id seq total part).1.assemblyOf name := by
  have same := SyncState.sameAssemblies_frame options arrival.world arrival.importInner sync name arrival.frame
  rw [chunk] at same
  rw [arrive, chunk]
  exact same name

theorem arrive_other {arrival : Arrival V} (other : arrival.frame.isChunk = false) :
    (arrive options name sync arrival).assemblyOf name = sync.assemblyOf name := by
  have same := SyncState.sameAssemblies_frame options arrival.world arrival.importInner sync name
    arrival.frame name
  rw [arrive, same]
  cases frame : arrival.frame with
  | updatesChunk id seq total part =>
    rw [frame] at other
    cases other
  | _ => rfl

omit [VersionVector V] in
theorem handed_other {frame : Frame} (other : frame.isChunk = false) {id : UInt64} {whole : Bytes} :
    handed options name sync frame ≠ some (some id, whole) := by
  cases frame with
  | updatesChunk id seq total part => cases other
  | updates bytes =>
    by_cases long : bytes.length > options.maxUpdateBytes.toNat <;> simp [handed, long]
  | _ => exact nofun

/-! ### The buffer and the count of updates handed over -/

/-- The buffered update stays within the limit. -/
def Bounded (options : DriveOptions) (name : String) (sync : SyncState V) : Prop :=
  ∀ assembly, sync.assemblyOf name = some assembly → assembly.bytes.length ≤ options.maxUpdateBytes.toNat

theorem Bounded.arrive (bounded : Bounded options name sync) (arrival : Arrival V) :
    Bounded options name (arrive options name sync arrival) := by
  intro assembly held
  cases frame : arrival.frame with
  | updatesChunk id seq total part =>
    rw [arrive_chunk arrival frame] at held
    rcases @assemble_cases V options name sync id seq total part with
      ⟨gone, _⟩ | ⟨before, short, _, ⟨_, grown, _⟩ | ⟨_, _, gone, _⟩⟩
    · rw [gone] at held
      cases held
    · rw [grown] at held
      cases held
      exact short
    · rw [gone] at held
      cases held
  | _ =>
    rw [arrive_other (by rw [frame]; rfl)] at held
    exact bounded assembly held

theorem Bounded.run (bounded : Bounded options name sync) (stream : List (Arrival V)) :
    Bounded options name (stream.foldl (Mille.Drive.arrive options name) sync) := by
  induction stream generalizing sync with
  | nil => exact bounded
  | cons arrival rest ih => exact ih (bounded.arrive arrival)

/-- Whether the update in progress is the one of that id. -/
def holds (name : String) (id : UInt64) (sync : SyncState V) : Nat :=
  if (sync.assemblyOf name).map (·.id) = some id then 1 else 0

/-- One frame hands over an update, or starts holding it, only as its first chunk or as
the update that was held. -/
theorem handed_once (id : UInt64) (arrival : Arrival V) :
    (handed options name sync arrival.frame).toList.countP (·.1 = some id) +
        holds name id (arrive options name sync arrival) ≤
      (if arrival.frame.starts id then 1 else 0) + holds name id sync := by
  cases frame : arrival.frame with
  | updatesChunk other seq total part =>
    have after := @arrive_chunk V _ options name sync arrival other seq total part frame
    unfold holds
    rw [after]
    rcases @assemble_cases V options name sync other seq total part with
      ⟨gone, error, fails⟩ | ⟨before, _, started, ⟨_, grown, waits⟩ | ⟨_, _, gone, done⟩⟩
    · have out : handed options name sync (.updatesChunk other seq total part) = none := by
        simp only [handed, fails]
      rw [out, gone]
      exact Nat.zero_le _
    · have out : handed options name sync (.updatesChunk other seq total part) = none := by
        simp only [handed, waits]
      rw [out, grown]
      rcases started with ⟨first, _⟩ | ⟨_, held⟩
      · by_cases same : other = id <;> simp [Frame.starts, first, same]
      · rw [held]
        by_cases same : other = id <;> simp [same]
    · have out : handed options name sync (.updatesChunk other seq total part) =
          some (some other, before ++ part) := by
        simp only [handed, done]
      rw [out, gone]
      rcases started with ⟨first, _⟩ | ⟨_, held⟩
      · by_cases same : other = id <;> simp [Frame.starts, first, same]
      · rw [held]
        by_cases same : other = id <;> simp [same]
  | updates bytes =>
    have after := @arrive_other V _ options name sync arrival (by rw [frame]; rfl)
    unfold holds
    rw [after]
    by_cases long : bytes.length > options.maxUpdateBytes.toNat <;> simp [handed, long]
  | _ =>
    have after := @arrive_other V _ options name sync arrival (by rw [frame]; rfl)
    unfold holds
    rw [after]
    simp [handed]

theorem taken_count (id : UInt64) (stream : List (Arrival V)) :
    (taken options name sync stream).countP (·.1 = some id) ≤
      stream.countP (·.frame.starts id) + holds name id sync := by
  induction stream generalizing sync with
  | nil => exact Nat.zero_le _
  | cons arrival rest ih =>
    have once := @handed_once V _ options name sync id arrival
    have later := @ih (arrive options name sync arrival)
    rw [taken, List.countP_append, List.countP_cons]
    omega

/-! ### What is handed over was sent -/

/-- The chunked updates of a session can be told apart by their ids, and their chunks be
counted. -/
structure Apart (maxFrame : Nat) (sent : List Update) : Prop where
  ids : ∀ first ∈ sent, ∀ second ∈ sent, Chunked maxFrame first.bytes → Chunked maxFrame second.bytes →
    first.id = second.id → first = second
  few : ∀ update ∈ sent, (parts maxFrame update.bytes).length ≤ maxChunks

/-- Every chunk of the stream is one the session sent. -/
def Genuine (maxFrame : Nat) (sent : List Update) (frame : Frame) : Prop :=
  frame.isChunk = true → ∃ update ∈ sent, frame ∈ update.frames maxFrame

/-- The update in progress is the first chunks of a sent one. -/
def Partial (maxFrame : Nat) (sent : List Update) (name : String) (sync : SyncState V) : Prop :=
  ∀ assembly, sync.assemblyOf name = some assembly → ∃ update ∈ sent, Chunked maxFrame update.bytes ∧
    assembly.id = update.id ∧
    assembly.bytes = ((parts maxFrame update.bytes).take assembly.next.toNat).flatten

section Genuine

variable {maxFrame : Nat} {sent : List Update}

theorem Update.mem_frames {update : Update} {id : UInt64} {seq total : UInt32} {part : Bytes}
    (member : .updatesChunk id seq total part ∈ update.frames maxFrame) :
    Chunked maxFrame update.bytes ∧ id = update.id ∧
      total = UInt32.ofNat (parts maxFrame update.bytes).length ∧
      ∃ index, ∃ inside : index < (parts maxFrame update.bytes).length,
        seq = UInt32.ofNat index ∧ part = (parts maxFrame update.bytes)[index] := by
  unfold Update.frames at member
  by_cases cut : Chunked maxFrame update.bytes
  · rw [if_pos cut, SyncState.groupFrames] at member
    obtain ⟨index, inside, same⟩ := List.mem_mapIdx.mp member
    cases same
    exact ⟨cut, rfl, rfl, index, inside, rfl, rfl⟩
  · rw [if_neg cut] at member
    cases List.mem_singleton.mp member

omit [VersionVector V] in
theorem Partial.grown (apart : Apart maxFrame sent) (held : Partial maxFrame sent name sync)
    {update : Update} (listed : update ∈ sent) (cut : Chunked maxFrame update.bytes)
    {index : Nat} (inside : index < (parts maxFrame update.bytes).length)
    {total : UInt32} {before : Bytes}
    (started : UInt32.ofNat index = 0 ∧ before = [] ∨ UInt32.ofNat index ≠ 0 ∧
      sync.assemblyOf name = some ⟨update.id, total, UInt32.ofNat index, before⟩) :
    before ++ (parts maxFrame update.bytes)[index] =
      ((parts maxFrame update.bytes).take (index + 1)).flatten := by
  have small : index < 2 ^ 32 :=
    inside.trans (Nat.lt_of_le_of_lt (apart.few update listed) (by decide))
  have exactly : (UInt32.ofNat index).toNat = index := UInt32.toNat_ofNat_of_lt small
  have prior : before = ((parts maxFrame update.bytes).take index).flatten := by
    rcases started with ⟨zero, rfl⟩ | ⟨_, kept⟩
    · have first : index = 0 := exactly.symm.trans (congrArg UInt32.toNat zero)
      rw [first]
      rfl
    · obtain ⟨other, member, also, ids, bytes⟩ := held _ kept
      cases apart.ids update listed other member cut also ids
      exact bytes.trans (by rw [exactly])
  rw [prior, List.take_add_one, List.flatten_append, List.getElem?_eq_getElem inside]
  simp

omit [VersionVector V] in
/-- An update that `assemble` returns was sent. -/
theorem Partial.handed (enough : minFrameBytes ≤ maxFrame) (apart : Apart maxFrame sent)
    (held : Partial maxFrame sent name sync) {frame : Frame} (genuine : Genuine maxFrame sent frame)
    {id : UInt64} {whole : Bytes} (out : handed options name sync frame = some (some id, whole)) :
    ∃ update ∈ sent, Chunked maxFrame update.bytes ∧ update.id = id ∧ update.bytes = whole := by
  cases frame with
  | updatesChunk other seq total part =>
    obtain ⟨update, listed, member⟩ := genuine rfl
    obtain ⟨cut, rfl, rfl, index, inside, rfl, rfl⟩ := Update.mem_frames member
    rcases @assemble_cases V options name sync update.id (UInt32.ofNat index)
        (UInt32.ofNat (parts maxFrame update.bytes).length) (parts maxFrame update.bytes)[index] with
      ⟨_, error, fails⟩ | ⟨before, _, started, ⟨_, _, waits⟩ | ⟨_, last, _, done⟩⟩
    · simp only [Mille.Drive.handed, fails] at out
      cases out
    · simp only [Mille.Drive.handed, waits] at out
      cases out
    · simp only [Mille.Drive.handed, done, Option.some.injEq, Prod.mk.injEq] at out
      obtain ⟨rfl, rfl⟩ := out
      refine ⟨update, listed, cut, rfl, ?_⟩
      have few := apart.few update listed
      have ends : index + 1 = (parts maxFrame update.bytes).length := by
        have small : (parts maxFrame update.bytes).length < 2 ^ 32 :=
          Nat.lt_of_le_of_lt few (by decide)
        have next : UInt32.ofNat index + 1 = UInt32.ofNat (index + 1) := (UInt32.ofNat_add index 1).symm
        rw [next, UInt32.lt_iff_toNat_lt, UInt32.toNat_ofNat_of_lt' (by
            have word : UInt32.size = 2 ^ 32 := rfl
            omega), UInt32.toNat_ofNat_of_lt' small] at last
        omega
      have positive : 0 < maxFrame - frameOverhead := by
        unfold minFrameBytes at enough
        unfold frameOverhead
        omega
      rw [held.grown apart listed cut inside started, ends, List.take_length]
      exact (chunks.flatten_eq positive update.bytes).symm
  | _ => exact absurd out (handed_other rfl)

theorem Partial.arrive (apart : Apart maxFrame sent) (held : Partial maxFrame sent name sync)
    {arrival : Arrival V} (genuine : Genuine maxFrame sent arrival.frame) :
    Partial maxFrame sent name (arrive options name sync arrival) := by
  intro assembly kept
  cases frame : arrival.frame with
  | updatesChunk other seq total part =>
    rw [frame] at genuine
    rw [arrive_chunk arrival frame] at kept
    obtain ⟨update, listed, member⟩ := genuine rfl
    obtain ⟨cut, rfl, rfl, index, inside, rfl, rfl⟩ := Update.mem_frames member
    rcases @assemble_cases V options name sync update.id (UInt32.ofNat index)
        (UInt32.ofNat (parts maxFrame update.bytes).length) (parts maxFrame update.bytes)[index] with
      ⟨gone, _⟩ | ⟨before, _, started, ⟨_, grown, _⟩ | ⟨_, _, gone, _⟩⟩
    · rw [gone] at kept
      cases kept
    · rw [grown] at kept
      cases kept
      refine ⟨update, listed, cut, rfl, ?_⟩
      have small : index + 1 < 2 ^ 32 :=
        Nat.lt_of_le_of_lt (Nat.succ_le_of_lt inside |>.trans (apart.few update listed)) (by decide)
      have next : UInt32.ofNat index + 1 = UInt32.ofNat (index + 1) := (UInt32.ofNat_add index 1).symm
      have exactly : (UInt32.ofNat (index + 1)).toNat = index + 1 := UInt32.toNat_ofNat_of_lt small
      dsimp only
      rw [held.grown apart listed cut inside started, next, exactly]
    · rw [gone] at kept
      cases kept
  | _ =>
    rw [arrive_other (by rw [frame]; rfl)] at kept
    exact held assembly kept

theorem Partial.taken (enough : minFrameBytes ≤ maxFrame) (apart : Apart maxFrame sent)
    (held : Partial maxFrame sent name sync) {stream : List (Arrival V)}
    (genuine : ∀ arrival ∈ stream, Genuine maxFrame sent arrival.frame) {id : UInt64} {whole : Bytes}
    (out : (some id, whole) ∈ taken options name sync stream) :
    ∃ update ∈ sent, Chunked maxFrame update.bytes ∧ update.id = id ∧ update.bytes = whole := by
  induction stream generalizing sync with
  | nil => cases out
  | cons arrival rest ih =>
    obtain ⟨first, others⟩ := List.forall_mem_cons.mp genuine
    rcases List.mem_append.mp out with now | later
    · exact held.handed enough apart first (Option.mem_toList.mp now)
    · exact ih (held.arrive apart first) others later

end Genuine

/-! ### An intact stream -/

section Intact

variable {maxFrame : Nat}

theorem taken_append (stream more : List (Arrival V)) :
    taken options name sync (stream ++ more) =
      taken options name sync stream ++ taken options name (stream.foldl (arrive options name) sync) more := by
  induction stream generalizing sync with
  | nil => rfl
  | cons arrival rest ih =>
    rw [List.cons_append, taken, taken, ih, List.append_assoc]
    rfl

omit [VersionVector V] in
theorem two_le_parts (enough : minFrameBytes ≤ maxFrame) {bytes : Bytes} (cut : Chunked maxFrame bytes) :
    2 ≤ (parts maxFrame bytes).length := by
  have positive : 0 < maxFrame - frameOverhead := by
    unfold minFrameBytes at enough
    unfold frameOverhead
    omega
  rw [parts_length enough, Nat.le_div_iff_mul_le positive]
  unfold Chunked frameOverhead at cut
  unfold frameOverhead
  omega

/-- The rest of an update's chunks in order complete it. The induction is on the pieces
left; what is assembled so far is carried along. -/
theorem taken_group {id : UInt64} {total : Nat} (two : 2 ≤ total) (few : total ≤ maxChunks)
    {pieces : List Bytes} {seq : Nat} {bytes : Bytes} (some_left : pieces ≠ [])
    (counted : seq + pieces.length = total)
    (short : bytes.length + pieces.flatten.length ≤ options.maxUpdateBytes.toNat)
    (started : if seq = 0 then bytes = [] else sync.assemblyOf name =
      some ⟨id, UInt32.ofNat total, UInt32.ofNat seq, bytes⟩)
    {stream : List (Arrival V)}
    (frames : stream.map (·.frame) = SyncState.groupFrames id total seq pieces) :
    taken options name sync stream = [(some id, bytes ++ pieces.flatten)] := by
  induction pieces generalizing seq bytes sync stream with
  | nil => exact absurd rfl some_left
  | cons part rest ih =>
    rw [SyncState.groupFrames_cons] at frames
    obtain ⟨arrival, others, rfl, first, later⟩ := List.map_eq_cons_iff.mp frames
    rw [List.length_cons] at counted
    rw [List.flatten_cons, List.length_append] at short
    have assembled := @SyncState.assemble_in_order V options sync name id seq total bytes part two few
      (by omega) (by omega) started
    have after := @arrive_chunk V _ options name sync arrival _ _ _ _ first
    rw [assembled] at after
    rw [taken, first]
    simp only [handed, assembled]
    by_cases goes : seq + 1 < total
    · rw [if_pos goes] at after ⊢
      have left : rest ≠ [] := by
        rintro rfl
        rw [List.length_nil] at counted
        omega
      rw [SyncState.assemblyOf_setPeer, if_pos rfl] at after
      have complete : taken options name (arrive options name sync arrival) others =
          [(some id, (bytes ++ part) ++ rest.flatten)] :=
        ih left (by omega) (by rw [List.length_append]; omega) (by rw [if_neg (by omega)]; exact after) later
      rw [complete, List.flatten_cons, List.append_assoc]
      rfl
    · rw [if_neg goes]
      have done : rest = [] := List.length_eq_zero_iff.mp (by omega)
      subst done
      cases List.map_eq_nil_iff.mp later
      simp [taken]

/-- The frames of a session's updates, in order, hand over each update once, in order. -/
theorem taken_intact (enough : minFrameBytes ≤ maxFrame) {sent : List Update}
    (short : ∀ update ∈ sent, update.bytes.length ≤ options.maxUpdateBytes.toNat)
    (few : ∀ update ∈ sent, (parts maxFrame update.bytes).length ≤ maxChunks)
    {stream : List (Arrival V)} (frames : stream.map (·.frame) = sent.flatMap (Update.frames maxFrame)) :
    (taken options name sync stream).map (·.2) = sent.map (·.bytes) := by
  induction sent generalizing sync stream with
  | nil =>
    cases List.map_eq_nil_iff.mp frames
    rfl
  | cons update rest ih =>
    rw [List.flatMap_cons] at frames
    obtain ⟨mine, others, rfl, first, later⟩ := List.map_eq_append_iff.mp frames
    obtain ⟨within, shorter⟩ := List.forall_mem_cons.mp short
    obtain ⟨counted, fewer⟩ := List.forall_mem_cons.mp few
    rw [taken_append, List.map_append, ih shorter fewer later, List.map_cons]
    have alone : (taken options name sync mine).map (·.2) = [update.bytes] := by
      unfold Update.frames at first
      by_cases cut : Chunked maxFrame update.bytes
      · rw [if_pos cut] at first
        have two := two_le_parts enough cut
        have positive : 0 < maxFrame - frameOverhead := by
          unfold minFrameBytes at enough
          unfold frameOverhead
          omega
        have joined : (parts maxFrame update.bytes).flatten = update.bytes :=
          chunks.flatten_eq positive update.bytes
        have some_left : parts maxFrame update.bytes ≠ [] := by
          intro empty
          rw [empty] at two
          cases two
        have complete : taken options name sync mine =
            [(some update.id, [] ++ (parts maxFrame update.bytes).flatten)] :=
          taken_group two counted some_left (Nat.zero_add _) (by rw [joined]; simpa using within)
            (by rw [if_pos rfl]) first
        rw [complete, joined]
        rfl
      · rw [if_neg cut] at first
        obtain ⟨arrival, none_left, rfl, whole, empty⟩ := List.map_eq_cons_iff.mp first
        cases List.map_eq_nil_iff.mp empty
        have fits : ¬update.bytes.length > options.maxUpdateBytes.toNat := Nat.not_lt.mpr within
        simp [taken, whole, handed, fits]
    rw [alone]
    rfl

end Intact

end Receiver

section Session

variable {V : Type} [VersionVector V] {maxFrame : Nat}

theorem apart_numbered {last : UInt64} {updates : List (String × Bytes)}
    (few : updates.countP (fun update => Chunked maxFrame update.2) ≤ 2 ^ 64)
    (counted : ∀ update ∈ updates, (parts maxFrame update.2).length ≤ maxChunks) (name : String) :
    Apart maxFrame ((numbered maxFrame last updates).filter (·.dest = name)) where
  ids := by
    intro first one second two cut also same
    have distinct := @numbered_distinct maxFrame last updates few
    apply List.inj_on_of_nodup_map distinct _ _ same
    · exact List.mem_filter.mpr ⟨List.mem_of_mem_filter one, by simpa using cut⟩
    · exact List.mem_filter.mpr ⟨List.mem_of_mem_filter two, by simpa using also⟩
  few := by
    intro update listed
    have member : (update.dest, update.bytes) ∈ updates := by
      rw [← @numbered_updates maxFrame last updates]
      exact List.mem_map_of_mem (List.mem_of_mem_filter listed)
    exact counted _ member

theorem map_bytes_numbered (last : UInt64) (updates : List (String × Bytes)) (name : String) :
    ((numbered maxFrame last updates).filter (·.dest = name)).map (·.bytes) =
      (updates.filter (·.1 = name)).map (·.2) := by
  conv_rhs => rw [← @numbered_updates maxFrame last updates]
  rw [List.filter_map, List.map_map]
  rfl

/-- A session with at most 2⁶⁴ chunked updates. Whatever happens to its frames on their
way, every update that `assemble` returns is one that was sent, and is returned no more
often than its first chunk arrived; an intact stream returns every update once, in order. -/
theorem chunks_reassemble (options : DriveOptions) (enough : minFrameBytes ≤ maxFrame)
    (sender : SyncState V) (dest : String) {updates : List (String × Bytes)}
    (few : updates.countP (fun update => Chunked maxFrame update.2) ≤ 2 ^ 64)
    (short : ∀ update ∈ updates, update.2.length ≤ options.maxUpdateBytes.toNat)
    (counted : ∀ update ∈ updates, (parts maxFrame update.2).length ≤ maxChunks)
    (name : String) {receiver : SyncState V} (fresh : receiver.assemblyOf name = none)
    {stream : List (Arrival V)} (genuine : ∀ arrival ∈ stream, arrival.frame.isChunk = true →
      arrival.frame ∈ framesTo dest (sender.sendAll maxFrame updates).2) :
    (∀ id whole, (some id, whole) ∈ taken options name receiver stream →
        ∃ update ∈ numbered maxFrame sender.nextChunkId updates, update.dest = dest ∧
          Chunked maxFrame update.bytes ∧ update.id = id ∧ update.bytes = whole) ∧
      (∀ update ∈ numbered maxFrame sender.nextChunkId updates, update.dest = dest →
        Chunked maxFrame update.bytes →
        (taken options name receiver stream).countP (·.1 = some update.id) ≤
          stream.countP (·.frame.starts update.id)) ∧
      (stream.map (·.frame) = framesTo dest (sender.sendAll maxFrame updates).2 →
        (taken options name receiver stream).map (·.2) =
          (updates.filter (·.1 = dest)).map (·.2)) ∧
      ∀ arrived, arrived <+: stream → ∀ assembly,
        (arrived.foldl (arrive options name) receiver).assemblyOf name = some assembly →
          assembly.bytes.length ≤ options.maxUpdateBytes.toNat := by
  have apart := @apart_numbered maxFrame sender.nextChunkId updates few counted dest
  rw [framesTo_sendAll enough] at genuine ⊢
  refine ⟨?_, ?_, ?_, ?_⟩
  · intro id whole out
    have held : Partial maxFrame ((numbered maxFrame sender.nextChunkId updates).filter (·.dest = dest))
        name receiver := by
      intro assembly kept
      rw [fresh] at kept
      cases kept
    obtain ⟨update, listed, cut, same, bytes⟩ := held.taken enough apart (fun arrival member chunk =>
      List.mem_flatMap.mp (genuine arrival member chunk)) out
    obtain ⟨member, mine⟩ := List.mem_filter.mp listed
    exact ⟨update, member, by simpa using mine, cut, same, bytes⟩
  · intro update _ _ _
    have bound := @taken_count V _ options name receiver update.id stream
    have empty : holds name update.id receiver = 0 := by
      rw [holds, fresh]
      rfl
    omega
  · intro intact
    rw [taken_intact enough _ apart.few intact, map_bytes_numbered]
    intro update listed
    have member : (update.dest, update.bytes) ∈ updates := by
      rw [← @numbered_updates maxFrame sender.nextChunkId updates]
      exact List.mem_map_of_mem (List.mem_of_mem_filter listed)
    exact short _ member
  · intro arrived _
    have start : Bounded options name receiver := by
      intro assembly kept
      rw [fresh] at kept
      cases kept
    exact start.run arrived

end Session

/-! ### One update in two chunks -/

private def head (byte : UInt8) : Bytes := List.replicate 4032 byte

private def tail (byte : UInt8) : Bytes := List.replicate 968 byte

private def long (byte : UInt8) : Bytes := head byte ++ tail byte

private def roomy : DriveOptions := ⟨"desk", 1, 4096, 8192, 1⟩

private def arrived (frame : Frame) : Arrival (List UInt8) :=
  ⟨SyncState.sampleWorld, fun _ => .ok ([], []), frame⟩

private theorem head_length (byte : UInt8) : (head byte).length = 4032 := List.length_replicate

private theorem tail_length (byte : UInt8) : (tail byte).length = 968 := List.length_replicate

private theorem long_length (byte : UInt8) : (long byte).length = 5000 := by
  rw [long, List.length_append, head_length, tail_length]

private theorem chunksWithin_cut {size bound : Nat} {bytes : Bytes} (some_left : bytes ≠ []) :
    chunksWithin size (bound + 1) bytes =
      bytes.take size :: chunksWithin size bound (bytes.drop size) := by
  cases bytes with
  | nil => exact absurd rfl some_left
  | cons => rfl

private theorem parts_long (byte : UInt8) : parts 4096 (long byte) = [head byte, tail byte] := by
  have size : 4096 - frameOverhead = (head byte).length := (head_length byte).symm
  have more : long byte ≠ [] := List.ne_nil_of_length_pos (by rw [long_length]; decide)
  have last : tail byte ≠ [] := List.ne_nil_of_length_pos (by rw [tail_length]; decide)
  have short : (tail byte).length ≤ (head byte).length := by
    rw [tail_length, head_length]
    decide
  unfold parts chunks
  rw [long_length, size]
  change chunksWithin _ (4998 + 1 + 1) _ = _
  rw [chunksWithin_cut more, long, List.take_left, List.drop_left, chunksWithin_cut last,
    List.take_of_length_le short, List.drop_of_length_le short]
  rfl

private theorem frames_long (dest : String) (id : UInt64) (byte : UInt8) :
    (Update.mk dest id (long byte)).frames 4096 =
      [.updatesChunk id 0 2 (head byte), .updatesChunk id 1 2 (tail byte)] := by
  have cut : Chunked 4096 (long byte) := by
    unfold Chunked
    rw [long_length]
    decide
  unfold Update.frames
  rw [if_pos cut, parts_long]
  rfl

theorem chunks_reassemble_long :
    (taken roomy "peer" .default ((framesTo "peer"
      ((SyncState.default : SyncState (List UInt8)).sendAll 4096 [("desk", long 0), ("peer", long 1)]).2).map
        arrived)).map (·.2) = [long 1] := by
  have enough : minFrameBytes ≤ 4096 := Nat.le_refl _
  have fresh : (SyncState.default : SyncState (List UInt8)).assemblyOf "peer" = none := rfl
  have sent : ([("desk", long 0), ("peer", long 1)].filter (·.1 = "peer")).map (·.2) = [long 1] := rfl
  rw [← sent]
  refine (chunks_reassemble roomy enough .default "peer" ?_ ?_ ?_ "peer" fresh ?_).2.2.1 ?_
  · exact List.countP_le_length.trans (by decide)
  · intro update listed
    have length : update.2.length = 5000 := by
      rcases List.mem_cons.mp listed with rfl | last
      · exact long_length 0
      · rw [List.mem_singleton.mp last]
        exact long_length 1
    rw [length]
    decide
  · intro update listed
    rcases List.mem_cons.mp listed with rfl | last
    · rw [parts_long]
      decide
    · rw [List.mem_singleton.mp last, parts_long]
      decide
  · intro arrival member _
    obtain ⟨frame, sent, rfl⟩ := List.mem_map.mp member
    exact sent
  · rw [List.map_map]
    exact List.map_id _

/-- A session whose counter wraps around gives its first update and one later the same id. The
receiver takes the first chunk of one and the second chunk of the other for one update. -/
theorem wrapped_ids_mix_updates :
    ∃ (updates : List (String × Bytes)) (stream : List (Arrival (List UInt8))),
      (∀ update ∈ updates, update.2.length ≤ roomy.maxUpdateBytes.toNat) ∧
      (∀ update ∈ updates, (parts 4096 update.2).length ≤ maxChunks) ∧
      (∀ arrival ∈ stream, arrival.frame ∈
        framesTo "peer" ((SyncState.default : SyncState (List UInt8)).sendAll 4096 updates).2) ∧
      ∃ id whole, (some id, whole) ∈ taken roomy "peer" .default stream ∧
        ∀ update ∈ updates, update.2 ≠ whole := by
  obtain ⟨count, wraps⟩ : ∃ count, count + 1 = 2 ^ 64 := ⟨2 ^ 64 - 1, by decide⟩
  have enough : minFrameBytes ≤ 4096 := Nat.le_refl _
  have cut : Chunked 4096 (long 0) := by
    unfold Chunked
    rw [long_length]
    decide
  have also : Chunked 4096 (long 1) := by
    unfold Chunked
    rw [long_length]
    decide
  have sizes : ∀ update ∈ List.replicate (count + 1) ("peer", long 0) ++ [("peer", long 1)],
      update = ("peer", long 0) ∨ update = ("peer", long 1) := by
    intro update listed
    rcases List.mem_append.mp listed with early | last
    · exact .inl (List.eq_of_mem_replicate early)
    · exact .inr (List.mem_singleton.mp last)
  have first : ⟨"peer", 1, long 0⟩ ∈ numbered 4096 0
      (List.replicate (count + 1) ("peer", long 0) ++ [("peer", long 1)]) := by
    rw [List.replicate_succ, List.cons_append, numbered, if_pos cut]
    exact List.mem_cons_self
  have second : ⟨"peer", 1, long 1⟩ ∈ numbered 4096 0
      (List.replicate (count + 1) ("peer", long 0) ++ [("peer", long 1)]) := by
    have all : (List.replicate (count + 1) ("peer", long 0)).countP (fun update => Chunked 4096 update.2) =
        2 ^ 64 := by
      rw [List.countP_replicate, if_pos (by simpa using cut), wraps]
    rw [numbered_append, all, numbered, if_pos also]
    exact List.mem_append_right _ (List.mem_singleton.mpr rfl)
  have sends {id : UInt64} {byte : UInt8} {frame : Frame} (listed : ⟨"peer", id, long byte⟩ ∈ numbered 4096 0
      (List.replicate (count + 1) ("peer", long 0) ++ [("peer", long 1)]))
      (member : frame ∈ (Update.mk "peer" id (long byte)).frames 4096) :
      frame ∈ framesTo "peer" ((SyncState.default : SyncState (List UInt8)).sendAll 4096
        (List.replicate (count + 1) ("peer", long 0) ++ [("peer", long 1)])).2 := by
    rw [framesTo_sendAll enough]
    exact List.mem_flatMap.mpr ⟨_, List.mem_filter.mpr ⟨listed, by simp⟩, member⟩
  have mixed : taken roomy "peer" (SyncState.default : SyncState (List UInt8))
      [arrived (.updatesChunk 1 0 2 (head 0)), arrived (.updatesChunk 1 1 2 (tail 1))] =
        [(some 1, [] ++ [head 0, tail 1].flatten)] := by
    apply @taken_group (List UInt8) _ roomy "peer" .default 1 2 (Nat.le_refl 2) (by decide)
      [head 0, tail 1] 0 [] (by simp) rfl _ rfl _ rfl
    rw [List.flatten_cons, List.flatten_cons, List.length_append, List.length_append, head_length,
      tail_length]
    decide
  refine ⟨List.replicate (count + 1) ("peer", long 0) ++ [("peer", long 1)],
    [arrived (.updatesChunk 1 0 2 (head 0)), arrived (.updatesChunk 1 1 2 (tail 1))], ?_, ?_, ?_,
    1, [] ++ [head 0, tail 1].flatten, ?_, ?_⟩
  · intro update listed
    rcases sizes update listed with rfl | rfl
    all_goals
      rw [long_length]
      decide
  · intro update listed
    rcases sizes update listed with rfl | rfl
    all_goals
      rw [parts_long]
      decide
  · intro arrival member
    rcases List.mem_cons.mp member with rfl | last
    · exact sends first (by rw [frames_long]; exact List.mem_cons_self)
    · rw [List.mem_singleton.mp last]
      exact sends second (by rw [frames_long]; exact List.mem_cons_of_mem _ List.mem_cons_self)
  · rw [mixed]
    exact List.mem_singleton.mpr rfl
  · intro update listed same
    have joined : update.2 = head 0 ++ tail 1 := by
      rw [same, List.nil_append, List.flatten_cons, List.flatten_cons, List.flatten_nil, List.append_nil]
    rcases sizes update listed with rfl | rfl
    · have tails : tail 0 = tail 1 := List.append_cancel_left joined
      have zero : (0 : UInt8) ∈ tail 1 := tails ▸ List.mem_replicate.mpr ⟨by decide, rfl⟩
      exact absurd (List.eq_of_mem_replicate zero) (by decide)
    · have heads : head 1 = head 0 := (List.append_inj joined (by rw [head_length, head_length])).1
      have zero : (0 : UInt8) ∈ head 1 := heads ▸ List.mem_replicate.mpr ⟨by decide, rfl⟩
      exact absurd (List.eq_of_mem_replicate zero) (by decide)

end Mille.Drive
