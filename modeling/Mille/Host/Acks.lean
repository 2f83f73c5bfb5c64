import Mille.Core.StoreVersions
import Mille.Lib.Run

/-! The synchronization points of a host: ticks drain the engine's changes into
deltas, `flushTickAcked` asks for their acknowledgement and waits, clients apply
frames in order and answer. Of a frame only what acknowledgements read is kept:
the version it states, and for a tick's delta what it drained. -/

namespace Mille

/-- A frame of the host that moves a client's tree version. -/
inductive PortFrame where
  | snapshot (version : Nat)
  /-- A tick's delta, with the tree version when its changes were drained and the ack it asks for. -/
  | delta (changes : ChangeSet) (drainedAt : Nat) (ackId : Option Nat)
  /-- The delta that answers `setExpanded` or `setViewport`. -/
  | answer (version : Nat)
  /-- The result of `resolvePath`, `findVisiblePrefix` or `search`. -/
  | result (version : Nat)

namespace PortFrame

/-- The version a frame states: a tick's delta states the one of its changes. -/
def version : PortFrame → Nat
  | snapshot version | answer version | result version => version
  | delta changes _ _ => changes.toVersion

/-- A delta with changes of versions up to the given one. -/
def Covers (version : Nat) : PortFrame → Prop
  | delta changes _ _ => changes.isEmpty = false ∧ changes.fromVersion < version
  | _ => False

instance (version : Nat) : DecidablePred (Covers version)
  | delta changes _ _ => inferInstanceAs (Decidable (changes.isEmpty = false ∧ changes.fromVersion < version))
  | snapshot _ | answer _ | result _ => inferInstanceAs (Decidable False)

end PortFrame

structure Ack where
  version : Nat
  ackId : Option Nat

/-- How a client answers a delta that asks for it. -/
inductive AckProtocol where
  /-- A client too old to know the frame. -/
  | silent
  /-- Echoes its version only. -/
  | versionOnly
  | withId
deriving DecidableEq

structure PortClient where
  protocol : AckProtocol
  /-- `working.treeVersion`. -/
  treeVersion : Nat
  /-- Versions of lookup results whose continuation has not run yet. -/
  unmerged : List Nat

/-- A session with its client and the two channels between them. -/
structure AckSession where
  id : Nat
  handshook : Bool
  lastRootIds : List EntryId
  /-- Minus one: has never acked. -/
  ackedVersion : Int
  /-- Zero until the first ack; none for a client that only echoes versions. -/
  ackedId : Option Nat
  ackCapable : Bool
  client : PortClient
  /-- Posted and not yet applied, oldest first. -/
  inFlight : List PortFrame
  /-- Sent by the client and not yet handled, oldest first. -/
  acks : List Ack

namespace AckSession

def fresh (id : Nat) (protocol : AckProtocol) : AckSession :=
  ⟨id, false, [], -1, some 0, true, ⟨protocol, 0, []⟩, [], []⟩

def post (frame : PortFrame) (session : AckSession) : AckSession :=
  { session with inFlight := session.inFlight ++ [frame] }

/-- The host handles an ack. -/
def acknowledge (nextAckId : Nat) (ack : Ack) (session : AckSession) : AckSession :=
  { session with
    ackCapable := true
    ackedVersion := max session.ackedVersion ack.version
    ackedId := match ack.ackId with
      | some id => if 0 < id ∧ id < nextAckId then some (max (session.ackedId.getD 0) id) else session.ackedId
      | none => if session.ackedId = some 0 then none else session.ackedId }

/-- The oldest ack in flight is handled; one before the handshake is refused. -/
def takeAck (nextAckId : Nat) (session : AckSession) : AckSession :=
  match session.acks with
  | [] => session
  | ack :: rest =>
    if session.handshook then { session with acks := rest }.acknowledge nextAckId ack
    else { session with acks := rest }

/-- What a client sends after it has applied a delta. -/
def answers (client : PortClient) : Option Nat → List Ack
  | none => []
  | some ackId =>
    match client.protocol with
    | .silent => []
    | .versionOnly => [⟨client.treeVersion, none⟩]
    | .withId => [⟨client.treeVersion, some ackId⟩]

/-- `PortFileExplorer.handleMessage`: a delta is applied before it is acknowledged. -/
def apply (frame : PortFrame) (session : AckSession) : AckSession :=
  match frame with
  | .snapshot version => { session with client := { session.client with treeVersion := version } }
  | .delta changes _ ackId =>
    let client := { session.client with treeVersion := max session.client.treeVersion changes.toVersion }
    { session with client := client, acks := session.acks ++ answers client ackId }
  | .answer version =>
    { session with client := { session.client with treeVersion := max session.client.treeVersion version } }
  -- The call's continuation runs later.
  | .result version => { session with client := { session.client with unmerged := session.client.unmerged ++ [version] } }

/-- The client takes the oldest frame of its channel. -/
def deliver (session : AckSession) : AckSession :=
  match session.inFlight with
  | [] => session
  | frame :: rest => { session with inFlight := rest }.apply frame

/-- `hydrateLookupEntries` in the continuation of a lookup. -/
def merge (index : Nat) (session : AckSession) : AckSession :=
  match session.client.unmerged[index]? with
  | none => session
  | some version => { session with client := { session.client with
      treeVersion := max session.client.treeVersion version
      unmerged := session.client.unmerged.eraseIdx index } }

end AckSession

/-- A call of `flushTickAcked`. -/
structure Flush where
  ackId : Nat
  /-- The sessions that had shaken hands when it was called. -/
  sessions : List Nat
  /-- The tree version at the moment of the call. -/
  version : Nat
  target : Nat

namespace Flush

/-- Still outstanding. -/
def pending (flush : Flush) (session : AckSession) : Bool :=
  flush.sessions.contains session.id && session.ackCapable &&
    (session.ackedVersion < flush.target || session.ackedId.any (· < flush.ackId))

def satisfied (flush : Flush) (sessions : List AckSession) : Bool :=
  sessions.all fun session => !flush.pending session

end Flush

/-- A flush that resolved without its timeout, with the sessions and the store at that moment. -/
structure Resolution where
  flush : Flush
  sessions : List AckSession
  store : EntryStore

/-- Native changes that land before each native call of a handler. -/
structure Landing where
  drain : List Edit := []
  roots : List Edit := []
  snapshot : List Edit := []
  target : List Edit := []

structure AckHost where
  store : EntryStore
  sessions : List AckSession
  nextSessionId : Nat
  nextAckId : Nat
  /-- Subtree markers or decorations wait for a tick. -/
  marked : Bool
  /-- Lookups that have read their snapshot and not answered yet: the session and the version. -/
  lookups : List (Nat × Nat)
  /-- Flushes that skip the wait and yield once. -/
  yielding : List Flush
  waiting : List Flush
  resolved : List Resolution

namespace AckHost

def initial : AckHost :=
  ⟨.new, [], 1, 1, false, [], [], [], []⟩

variable (host : AckHost)

/-- Runs one session through a function. -/
def update (id : Nat) (change : AckSession → AckSession) : AckHost :=
  { host with sessions := host.sessions.map fun session => if session.id = id then change session else session }

def land (edits : List Edit) : AckHost :=
  { host with store := edits.foldl EntryStore.edit host.store }

/-- No session is to be told anything, given what was drained. -/
def isQuiet (changes : ChangeSet) : Bool :=
  changes.isEmpty && !host.marked &&
    host.sessions.all fun session => !session.handshook || host.store.inner.roots = session.lastRootIds

/-- A tick; `ackIdForNextTick` makes its deltas ask for an ack. True when it posted something. -/
def tick (landing : Landing) (ackId : Option Nat) : Bool × AckHost :=
  let host := host.land landing.drain
  if host.sessions = [] then (false, host)
  else
    let drainedAt := host.store.inner.treeVersion
    let (changes, store) := host.store.takePendingChanges
    let host := { host with store := store }.land landing.roots
    if host.isQuiet changes then (false, host)
    else
      let host := host.land landing.snapshot
      let roots := host.store.inner.roots
      (host.sessions.any (·.handshook),
        { host with
          marked := false
          sessions := host.sessions.map fun session =>
            if session.handshook then { session with lastRootIds := roots }.post (.delta changes drainedAt ackId)
            else session })

/-- The sessions that have shaken hands. -/
def shaken : List Nat :=
  (host.sessions.filter (·.handshook)).map (·.id)

def flushTickAcked (landing : Landing) : AckHost :=
  let shaken := host.shaken
  let version := host.store.inner.treeVersion
  if shaken = [] then
    -- `flushTickNow`.
    let host := (host.tick landing none).2
    { host with yielding := host.yielding ++ [⟨0, [], version, 0⟩] }
  else
    let ackId := host.nextAckId
    let (posted, host) := { host with nextAckId := ackId + 1 }.tick landing (some ackId)
    if posted then
      let host := host.land landing.target
      let flush : Flush := ⟨ackId, shaken, version, host.store.inner.treeVersion⟩
      if flush.satisfied host.sessions then { host with yielding := host.yielding ++ [flush] }
      else { host with waiting := host.waiting ++ [flush] }
    -- A quiet tick: there is no ack to wait for.
    else { host with yielding := host.yielding ++ [⟨ackId, shaken, version, 0⟩] }

def resolve (flush : Flush) : AckHost :=
  { host with resolved := host.resolved ++ [⟨flush, host.sessions, host.store⟩] }

/-- The flushes that wait are checked again. -/
def notifyAckWaiters : AckHost :=
  let (done, waiting) := host.waiting.partition (·.satisfied host.sessions)
  { host with
    waiting := waiting
    resolved := host.resolved ++ done.map fun flush => ⟨flush, host.sessions, host.store⟩ }

/-- The oldest ack of a session arrives. -/
def handleAck (id : Nat) : AckHost :=
  let taken := host.update id (.takeAck host.nextAckId)
  if host.sessions.any fun session => session.id = id && session.handshook && !session.acks.isEmpty then
    taken.notifyAckWaiters
  else taken

/-- A flush times out: whoever is outstanding is not waited for again. -/
def giveUp (flush : Flush) : AckHost :=
  { host with sessions := host.sessions.map fun session =>
      if flush.pending session then { session with ackCapable := false } else session }

inductive AckEvent where
  | native (edit : Edit)
  | mark
  | attach (protocol : AckProtocol)
  | detach (session : Nat)
  | handshake (session : Nat)
  /-- The interval's tick, or one a handler makes. -/
  | tick (landing : Landing)
  /-- A reply of `setExpanded` or `setViewport` is posted. -/
  | answer (session : Nat)
  /-- A lookup reads the snapshot; its result is posted when the call resumes. -/
  | lookup (session : Nat)
  | result (index : Nat)
  | flush (landing : Landing)
  /-- The yield of a flush that skipped the wait ends. -/
  | immediate (index : Nat)
  | timeout (index : Nat)
  | ack (session : Nat)
  | deliver (session : Nat)
  | merge (session index : Nat)

def step : AckEvent → AckHost
  | .native edit => host.land [edit]
  | .mark => { host with marked := true }
  | .attach protocol => { host with
      sessions := host.sessions ++ [.fresh host.nextSessionId protocol], nextSessionId := host.nextSessionId + 1 }
  | .detach id => { host with sessions := host.sessions.filter (·.id ≠ id) }
  | .handshake id => host.update id fun session =>
      { session with handshook := true, lastRootIds := host.store.inner.roots }.post
        (.snapshot host.store.inner.treeVersion)
  | .tick landing => (host.tick landing none).2
  | .answer id => host.update id fun session =>
      if session.handshook then session.post (.answer host.store.inner.treeVersion) else session
  | .lookup id => { host with lookups := host.lookups ++ [(id, host.store.inner.treeVersion)] }
  | .result index =>
    match host.lookups[index]? with
    | none => host
    | some (id, version) => { host with lookups := host.lookups.eraseIdx index }.update id fun session =>
        if session.handshook then session.post (.result version) else session
  | .flush landing => host.flushTickAcked landing
  | .immediate index =>
    match host.yielding[index]? with
    | none => host
    | some flush => { host with yielding := host.yielding.eraseIdx index }.resolve flush
  | .timeout index =>
    match host.waiting[index]? with
    | none => host
    | some flush => { host with waiting := host.waiting.eraseIdx index }.giveUp flush
  | .ack id => host.handleAck id
  | .deliver id => host.update id .deliver
  | .merge id index => host.update id (.merge index)

end AckHost

end Mille
