import Mathlib
import Mille.Lib.Chunks
import Mille.Drive.Frames

/-! The sync core of a drive: frames and peer events in, actions out. Each call runs
under the drive's locks, so it is a function of the tables it finds and of what it
reads of the document and the store. -/

namespace Mille.Drive

open Std Mille.Bincode

/-- Version vectors of the document library. -/
class VersionVector (V : Type) where
  includesVv : V → V → Bool
  encode : V → Bytes
  decode : Bytes → Option V

export VersionVector (includesVv)

structure DriveOptions where
  device : String
  maxObjectBytes : UInt64
  maxFrameBytes : UInt64
  maxUpdateBytes : UInt64
  maxConcurrentPulls : UInt64

/-- What `validate` finds wrong first. -/
def DriveOptions.validate (options : DriveOptions) : Except String Unit :=
  if options.device.isEmpty ∨ options.device.utf8ByteSize > 256 then
    .error "device must be 1 to 256 bytes"
  else if options.maxObjectBytes = 0 then .error "max_object_bytes must be positive"
  else if options.maxFrameBytes.toNat < minFrameBytes then
    .error ("max_frame_bytes must be at least " ++ toString minFrameBytes)
  else if options.maxUpdateBytes < options.maxFrameBytes then
    .error "max_update_bytes must be at least max_frame_bytes"
  else if options.maxConcurrentPulls = 0 then .error "max_concurrent_pulls must be positive"
  else .ok ()

/-- What the host does next. The name a pull lands under is the store's. -/
inductive SyncAction where
  | send (dest : String) (frame : Frame)
  | pull (holder : String) (digest : Blake3)
deriving DecidableEq

structure InflightPull where
  holder : String
  /-- The tick it started on. -/
  since : Nat
deriving DecidableEq

/-- One holder's failures of one object, in a row. -/
structure Backoff where
  failures : Nat
  /-- The tick from which the holder may be tried again. -/
  retry : Nat
deriving DecidableEq

structure Assembly where
  id : UInt64
  total : UInt32
  next : UInt32
  bytes : Bytes
deriving DecidableEq

structure PeerState (V : Type) where
  /-- What this drive knows the peer has. -/
  vv : Option V
  /-- Objects the peer asked for that this drive did not hold. -/
  wanted : ExtTreeSet Blake3
  assembly : Option Assembly

def PeerState.default {V : Type} : PeerState V := ⟨none, {}, none⟩

structure SyncState (V : Type) where
  peers : ExtTreeMap String (PeerState V)
  /-- Peers that said `Have`, per wanted object, in the order they said it. -/
  holders : ExtTreeMap Blake3 (List String)
  /-- Per wanted object, the peers a pull of it failed from. -/
  failed : ExtTreeMap Blake3 (ExtTreeMap String Backoff)
  inflight : ExtTreeMap Blake3 InflightPull
  /-- Wants already asked of every open peer. -/
  asked : ExtTreeSet Blake3
  nextChunkId : UInt64
  /-- The clock of back-offs and of pull expiry. -/
  ticks : Nat

def SyncState.default {V : Type} : SyncState V := ⟨{}, {}, {}, {}, {}, 0, 0⟩

/-- What a reaction reads of the document and the store while it holds the locks. -/
structure World (V : Type) where
  ours : V
  /-- Objects the hold policy names and the store lacks. -/
  wants : ExtTreeSet Blake3
  has : Blake3 → Bool
  exportUpdatesSince : V → Except Refusal Bytes

inductive Trigger (V : Type) where
  | opened (peer : String)
  | hello (peer : String) (theirs : V)
  | imported (sender : String) (before after : V)
  | localChange
  | want (peer : String) (digests : List Blake3)
  | haves (peer : String) (digests : List Blake3)
  | pulled (digest : Blake3)
  | pullFailed (peer : String) (digest : Blake3)
  | tick

def hello {V : Type} [VersionVector V] (dest : String) (ours : V) : SyncAction :=
  .send dest (.hello (VersionVector.encode ours))

def digestsPerFrame (maxFrame : Nat) : Nat :=
  max 1 (min ((maxFrame - frameOverhead) / 32) maxDigestsPerFrame)

/-- `Want` or `Have` frames for a list of digests, split to fit. -/
def digestFrames (frame : List Blake3 → Frame) (per : Nat) (dest : String) (digests : List Blake3) :
    List SyncAction :=
  (chunks per digests).map fun chunk => .send dest (frame chunk)

/-- The frames of one update that is cut into chunks. -/
def chunkFrames (id : UInt64) (total : UInt32) (dest : String) (parts : List Bytes) : List SyncAction :=
  parts.mapIdx fun seq part => .send dest (.updatesChunk id (UInt32.ofNat seq) total part)

namespace SyncState

variable {V : Type}

/-- An update as one frame, or as chunks when it would not fit. -/
def updateFrames (sync : SyncState V) (dest : String) (bytes : Bytes) (maxFrame : Nat) :
    SyncState V × List SyncAction :=
  if bytes.length + frameOverhead ≤ maxFrame then (sync, [.send dest (.updates bytes)])
  else
    let chunk := maxFrame - frameOverhead
    let total := UInt32.ofNat ((bytes.length + chunk - 1) / chunk)
    let id := sync.nextChunkId + 1
    ({ sync with nextChunkId := id }, chunkFrames id total dest (chunks chunk bytes))

/-- The entry of a peer, created empty when it is not there. -/
def peer (sync : SyncState V) (name : String) : PeerState V := sync.peers.getD name .default

def setPeer (sync : SyncState V) (name : String) (state : PeerState V) : SyncState V :=
  { sync with peers := sync.peers.insert name state }

/-- Ticks a holder waits after its failures in a row. -/
def backoffTicks (failures : Nat) : Nat :=
  let doubled := if failures - 1 < 64 then 2 ^ (failures - 1) else 2 ^ 64 - 1
  min doubled maxBackoffTicks

/-- One more failure, counted and timed without overflow. -/
def Backoff.again (backoff : Backoff) (now : Nat) : Backoff :=
  let failures := min (backoff.failures + 1) (2 ^ 32 - 1)
  ⟨failures, min (now + backoffTicks failures) (2 ^ 64 - 1)⟩

/-- The pull of an object from a peer failed, if it is the one in flight. -/
def endFailed (sync : SyncState V) (digest : Blake3) (peer : String) : SyncState V :=
  match sync.inflight[digest]? with
  | some pull =>
    if pull.holder = peer then
      let holders := sync.failed.getD digest {}
      let backoff := holders.getD peer ⟨0, 0⟩
      { sync with
        inflight := sync.inflight.erase digest
        failed := sync.failed.insert digest (holders.insert peer (Backoff.again backoff sync.ticks)) }
    else sync
  | none => sync

/-- Objects the peer asked for that were not held, up to the limit remembered. -/
def remember (wanted : ExtTreeSet Blake3) : List Blake3 → ExtTreeSet Blake3
  | [] => wanted
  | digest :: rest =>
    if wanted.size ≥ maxPeerWanted then wanted else remember (wanted.insert digest) rest

/-- Records a holder behind those that offered the object before it. -/
def offer (peer : String) (holders : List String) : List String :=
  if peer ∈ holders then holders else holders ++ [peer]

/-- Records what a peer offers of the objects wanted. -/
def recordHolders (wants : ExtTreeSet Blake3) (peer : String)
    (holders : ExtTreeMap Blake3 (List String)) (digests : List Blake3) :
    ExtTreeMap Blake3 (List String) :=
  digests.foldl (fun holders digest =>
    if digest ∈ wants then holders.insert digest (offer peer (holders.getD digest [])) else holders)
    holders

/-- Pulls that have not settled for too long. -/
def expired (sync : SyncState V) : List (Blake3 × String) :=
  sync.inflight.toList.filterMap fun (digest, pull) =>
    if sync.ticks - pull.since ≥ pullExpiryTicks then some (digest, pull.holder) else none

/-- Wants no peer has offered and no pull is fetching. -/
def lonely (sync : SyncState V) (wants : ExtTreeSet Blake3) : List Blake3 :=
  wants.toList.filter fun digest =>
    (sync.holders.getD digest []).isEmpty && !sync.inflight.contains digest

variable [VersionVector V]

/-- The part of a reaction that depends on its trigger. -/
def applyTrigger (world : World V) (per : Nat) (sync : SyncState V) :
    Trigger V → SyncState V × List SyncAction
  | .opened peer =>
    (sync.setPeer peer (sync.peer peer),
      hello peer world.ours :: digestFrames .want per peer world.wants.toList)
  | .hello peer theirs =>
    (sync.setPeer peer { sync.peer peer with vv := some theirs },
      if sync.peers.contains peer then []
      else hello peer world.ours :: digestFrames .want per peer world.wants.toList)
  | .imported sender before after =>
    -- the sender had everything this drive had before, so it has everything after
    ({ sync with
        peers := sync.peers.modify sender fun state =>
          if state.vv.any (includesVv · before) then { state with vv := some after } else state },
      [])
  | .localChange => (sync, [])
  | .want peer digests =>
    ({ sync with
        peers := sync.peers.modify peer fun state =>
          { state with wanted := remember state.wanted (digests.filter (!world.has ·)) } },
      digestFrames .haves per peer (digests.filter world.has))
  | .haves peer digests =>
    ({ sync with holders := recordHolders world.wants peer sync.holders digests }, [])
  | .pulled digest =>
    ({ sync with
        inflight := sync.inflight.erase digest
        holders := sync.holders.erase digest
        failed := sync.failed.erase digest
        asked := sync.asked.erase digest }, [])
  | .pullFailed peer digest => (sync.endFailed digest peer, [])
  | .tick =>
    let ticked := { sync with ticks := sync.ticks + 1 }
    let settled := ticked.expired.foldl (fun sync entry => sync.endFailed entry.1 entry.2) ticked
    (settled, sync.peers.keys.map (hello · world.ours) ++
      sync.peers.keys.flatMap (digestFrames .want per · (settled.lonely world.wants)))

/-- Peers whose known version vector lacks changes. -/
def behind (sync : SyncState V) (ours : V) : List (String × V) :=
  sync.peers.toList.filterMap fun (peer, state) =>
    match state.vv with
    | some vv => if includesVv vv ours then none else some (peer, vv)
    | none => none

/-- A peer was sent everything this drive has. -/
def caughtUp (sync : SyncState V) (peer : String) (ours : V) : SyncState V :=
  { sync with peers := sync.peers.modify peer fun state => { state with vv := some ours } }

/-- Each peer that is behind gets what it lacks. A failed export ends the reaction:
the tables keep what was done so far, the actions are lost. -/
def sendUpdates (world : World V) (maxFrame : Nat) :
    List (String × V) → SyncState V → List SyncAction →
      SyncState V × Except DriveError (List SyncAction)
  | [], sync, out => (sync, .ok out)
  | (peer, vv) :: rest, sync, out =>
    match world.exportUpdatesSince vv with
    | .error refusal => (sync, .error (.document refusal))
    | .ok bytes =>
      let sent := sync.updateFrames peer bytes maxFrame
      sendUpdates world maxFrame rest (sent.1.caughtUp peer world.ours) (out ++ sent.2)

/-- Wants no peer has been asked for yet go to every peer. -/
def askFresh (world : World V) (per : Nat) (sync : SyncState V) : SyncState V × List SyncAction :=
  let fresh := world.wants.toList.filter (!sync.asked.contains ·)
  if fresh = [] then (sync, [])
  else ({ sync with asked := sync.asked.insertMany fresh },
    sync.peers.keys.flatMap (digestFrames .want per · fresh))

/-- Peers that wanted what this drive now holds hear so. -/
def answerWanted (world : World V) (per : Nat) (sync : SyncState V) : SyncState V × List SyncAction :=
  ({ sync with
      peers := sync.peers.map fun _ state =>
        { state with wanted := state.wanted.filter (!world.has ·) } },
    sync.peers.toList.flatMap fun (peer, state) =>
      digestFrames .haves per peer (state.wanted.toList.filter world.has))

/-- Forgets the bookkeeping of objects no longer wanted. -/
def prune (sync : SyncState V) (wants : ExtTreeSet Blake3) : SyncState V :=
  { sync with
    holders := sync.holders.filter fun digest _ => wants.contains digest
    failed := (sync.failed.filter fun digest _ => wants.contains digest).filter
      fun _ holders => !holders.isEmpty
    asked := sync.asked.filter (wants.contains ·) }

/-- Whether a holder of an object may be tried. -/
def ready (sync : SyncState V) (digest : Blake3) (holder : String) : Bool :=
  match (sync.failed[digest]?).bind (·[holder]?) with
  | some backoff => backoff.retry ≤ sync.ticks
  | none => true

/-- The first holder of an object that is not backing off. -/
def pullSource (sync : SyncState V) (digest : Blake3) : Option String :=
  (sync.holders.getD digest []).find? (sync.ready digest)

/-- Starts pulls, up to the limit. -/
def startPulls (limit : Nat) : List Blake3 → SyncState V → SyncState V × List SyncAction
  | [], sync => (sync, [])
  | digest :: rest, sync =>
    if sync.inflight.size ≥ limit then (sync, [])
    else if sync.inflight.contains digest then startPulls limit rest sync
    else
      match sync.pullSource digest with
      | some holder =>
        let started := startPulls limit rest
          { sync with inflight := sync.inflight.insert digest ⟨holder, sync.ticks⟩ }
        (started.1, .pull holder digest :: started.2)
      | none => startPulls limit rest sync

/-- The tables once updates are sent, and what the rest of a reaction adds to them up
to the point where pulls are started. -/
def settle (world : World V) (per : Nat) (sync : SyncState V) : SyncState V × List SyncAction :=
  let asked := sync.askFresh world per
  let answered := asked.1.answerWanted world per
  (answered.1.prune world.wants, asked.2 ++ answered.2)

/-- Applies one trigger, then does what every trigger implies. -/
def react (options : DriveOptions) (world : World V) (trigger : Trigger V) (sync : SyncState V) :
    SyncState V × Except DriveError (List SyncAction) :=
  let maxFrame := options.maxFrameBytes.toNat
  let per := digestsPerFrame maxFrame
  let applied := sync.applyTrigger world per trigger
  match sendUpdates world maxFrame (applied.1.behind world.ours) applied.1 applied.2 with
  | (sent, .error refusal) => (sent, .error refusal)
  | (sent, .ok out) =>
    let settled := sent.settle world per
    let started := startPulls options.maxConcurrentPulls.toNat world.wants.toList settled.1
    (started.1, .ok (out ++ settled.2 ++ started.2))

/-- Adds a chunk to a peer's update in progress; the whole update once its last chunk
arrives. The peer's entry is created either way. -/
def assemble (options : DriveOptions) (sync : SyncState V) (name : String) (id : UInt64)
    (seq total : UInt32) (bytes : Bytes) : SyncState V × Except DriveError (Option Bytes) :=
  let max := options.maxUpdateBytes.toNat
  let state := sync.peer name
  let set (assembly : Option Assembly) := sync.setPeer name { state with assembly := assembly }
  if ¬(2 ≤ total.toNat ∧ total.toNat ≤ maxChunks) ∨ seq ≥ total then
    (set none, .error (.chunkOutOfRange seq total))
  else
    match if seq = 0 then some ⟨id, total, 0, []⟩ else state.assembly with
    | none => (set none, .error .chunkWithoutFirst)
    | some assembly =>
      if assembly.id ≠ id ∨ assembly.total ≠ total ∨ assembly.next ≠ seq then
        (set none, .error .chunksOutOfOrder)
      else if assembly.bytes.length + bytes.length > max then
        (set none, .error (.updateOverLimit max))
      else
        let grown : Assembly := ⟨id, total, assembly.next + 1, assembly.bytes ++ bytes⟩
        if grown.next < grown.total then (set (some grown), .ok none)
        else (set none, .ok (some grown.bytes))

/-- Imports an update, then reacts to it. -/
def onUpdates (options : DriveOptions) (world : World V)
    (importInner : Bytes → Except Refusal (V × V)) (sync : SyncState V) (peer : String)
    (bytes : Bytes) : SyncState V × Except DriveError (List SyncAction) :=
  match importInner bytes with
  | .error refusal => (sync, .error (.document refusal))
  | .ok (before, after) => sync.react options world (.imported peer before after)

def digestsOf (raw : List Blake3) : Except DriveError (List Blake3) :=
  if raw.length > maxDigestsPerFrame then .error (.tooManyDigests raw.length) else .ok raw

def handleFrame (options : DriveOptions) (world : World V)
    (importInner : Bytes → Except Refusal (V × V)) (sync : SyncState V) (peer : String) :
    Frame → SyncState V × Except DriveError (List SyncAction)
  | .hello vv =>
    match VersionVector.decode vv with
    | none => (sync, .error .versionVectorDidNotDecode)
    | some theirs => sync.react options world (.hello peer theirs)
  | .updates bytes =>
    if bytes.length > options.maxUpdateBytes.toNat then
      (sync, .error (.overUpdateLimit bytes.length options.maxUpdateBytes.toNat))
    else sync.onUpdates options world importInner peer bytes
  | .updatesChunk id seq total bytes =>
    match sync.assemble options peer id seq total bytes with
    | (assembled, .error refusal) => (assembled, .error refusal)
    | (assembled, .ok none) => (assembled, .ok [])
    | (assembled, .ok (some whole)) => assembled.onUpdates options world importInner peer whole
  | .want digests =>
    match digestsOf digests with
    | .error refusal => (sync, .error refusal)
    | .ok digests => sync.react options world (.want peer digests)
  | .haves digests =>
    match digestsOf digests with
    | .error refusal => (sync, .error refusal)
    | .ok digests => sync.react options world (.haves peer digests)

/-- A frame from a peer. -/
def syncHandle (options : DriveOptions) (world : World V)
    (importInner : Bytes → Except Refusal (V × V)) (sync : SyncState V) (peer : String)
    (frame : Bytes) : SyncState V × Except DriveError (List SyncAction) :=
  let max := options.maxUpdateBytes.toNat
  if frame.length > min (max + frameOverhead) (2 ^ 64 - 1) then
    (sync, .error (.overUpdateLimit frame.length max))
  else
    match decodeFrame frame with
    | .error refusal => (sync, .error refusal)
    | .ok frame => sync.handleFrame options world importInner peer frame

/-- A pull landed: the store admits the copy or refuses it. -/
def syncPulled (options : DriveOptions) (world : World V) (admitted : Except Refusal Unit)
    (sync : SyncState V) (peer : String) (digest : Blake3) :
    SyncState V × Except DriveError (List SyncAction) :=
  match admitted with
  | .error refusal => (sync.endFailed digest peer, .error (.store refusal))
  | .ok () => sync.react options world (.pulled digest)

omit [VersionVector V] in
/-- A peer went away: nothing names it any more. -/
def syncClose (sync : SyncState V) (peer : String) : SyncState V :=
  { sync with
    peers := sync.peers.erase peer
    holders := sync.holders.map fun _ holders => holders.filter (· ≠ peer)
    failed := sync.failed.map fun _ holders => holders.erase peer
    inflight := sync.inflight.filter fun _ pull => pull.holder ≠ peer }

end SyncState

/-- One call of the host, with what it reads of the document and the store. -/
inductive SyncCall (V : Type) where
  | opened (world : World V) (peer : String)
  | handle (world : World V) (importInner : Bytes → Except Refusal (V × V)) (peer : String)
      (frame : Bytes)
  | localChanged (world : World V)
  | pulled (world : World V) (admitted : Except Refusal Unit) (peer : String) (digest : Blake3)
  | pullFailed (world : World V) (peer : String) (digest : Blake3)
  | tick (world : World V)
  | close (peer : String)

/-- The tables after a call and what it returned. -/
def SyncState.call {V : Type} [VersionVector V] (options : DriveOptions) (sync : SyncState V) :
    SyncCall V → SyncState V × Except DriveError (List SyncAction)
  | .opened world peer => sync.react options world (.opened peer)
  | .handle world importInner peer frame => sync.syncHandle options world importInner peer frame
  | .localChanged world => sync.react options world .localChange
  | .pulled world admitted peer digest => sync.syncPulled options world admitted peer digest
  | .pullFailed world peer digest => sync.react options world (.pullFailed peer digest)
  | .tick world => sync.react options world .tick
  | .close peer => (sync.syncClose peer, .ok [])

end Mille.Drive
