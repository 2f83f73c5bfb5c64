import Mathlib
import Mille.Drive.Flight

/-! Drives joined pairwise by channels that keep the order of frames and lose none. Each
step is one operation under one drive's locks. -/

namespace Mille.Drive

open Std Mille.Bincode SyncState

/-- Who takes part: the names drives know each other by, and their options. -/
structure Participants (ι : Type) where
  name : ι → String
  distinct : Function.Injective name
  options : ι → DriveOptions
  valid : ∀ drive, (options drive).validate = .ok ()

/-- What a drive reads of its store and of its hold policy. -/
structure Store where
  wants : ExtTreeSet Blake3
  has : Blake3 → Bool

structure Node (ι Doc V : Type) where
  doc : Doc
  sync : SyncState V
  /-- A local write has not been followed by `sync_local_changed` yet. -/
  unsaid : Bool
  /-- The drives whose `Hello` was handled. -/
  heard : ι → Bool

structure Network (ι Doc V : Type) where
  node : ι → Node ι Doc V
  /-- Frames in flight from one drive to another, oldest first. -/
  channel : ι → ι → List Frame

/-- What a host asks of its drive, other than to hand over a frame. -/
inductive Request where
  | localChanged
  | opened (peer : String)
  | tick
  | pulled (admitted : Except Refusal Unit) (peer : String) (digest : Blake3)
  | pullFailed (peer : String) (digest : Blake3)

def Request.isLocalChanged : Request → Bool
  | .localChanged => true
  | _ => false

inductive Event (ι Doc : Type) where
  /-- A local write: the document it leaves. -/
  | write (drive : ι) (doc : Doc)
  | host (drive : ι) (store : Store) (request : Request)
  /-- The oldest frame in flight between two drives is handed over. -/
  | deliver (sender receiver : ι) (store : Store)

section Calls

variable {Doc V : Type} [LoroDoc Doc V]

def worldOf (doc : Doc) (store : Store) : World V :=
  ⟨oplogVv doc, store.wants, store.has, fun since => .ok (LoroDoc.exportUpdatesSince doc since)⟩

/-- The version vectors either side of an import. -/
def importInner (doc : Doc) (bytes : Bytes) : Except Refusal (V × V) :=
  match LoroDoc.importUpdates doc bytes with
  | .ok merged => .ok (oplogVv doc, oplogVv merged)
  | .error refusal => .error refusal

def Request.call (world : World V) : Request → SyncCall V
  | .localChanged => .localChanged world
  | .opened peer => .opened world peer
  | .tick => .tick world
  | .pulled admitted peer digest => .pulled world admitted peer digest
  | .pullFailed peer digest => .pullFailed world peer digest

end Calls

/-- The actions of a call, none when it is refused. -/
def emitted : Except DriveError (List SyncAction) → List SyncAction
  | .ok actions => actions
  | .error _ => []

def Frame.isHello : Frame → Bool
  | .hello _ => true
  | _ => false

namespace Network

variable {ι Doc V : Type} [DecidableEq ι] (setting : Participants ι) (net : Network ι Doc V)

def put (drive : ι) (node : Node ι Doc V) : Network ι Doc V :=
  { net with node := Function.update net.node drive node }

/-- Sends what a drive emitted, each frame to the channel of the drive it names. -/
def post (sender : ι) (actions : List SyncAction) : Network ι Doc V :=
  { net with channel := fun drive peer =>
      if drive = sender then net.channel drive peer ++ framesTo (setting.name peer) actions
      else net.channel drive peer }

/-- Takes the oldest frame out of a channel. -/
def pop (sender receiver : ι) : Network ι Doc V :=
  { net with channel := fun drive peer =>
      if drive = sender ∧ peer = receiver then (net.channel drive peer).tail
      else net.channel drive peer }

variable [LoroDoc Doc V] [VersionVector V]

/-- One call of a drive, from the node it finds. -/
def call (drive : ι) (node : Node ι Doc V) (call : SyncCall V) : Network ι Doc V :=
  let result := node.sync.call (setting.options drive) call
  (net.put drive { node with sync := result.1 }).post setting drive (emitted result.2)

/-- The receiver's document once a frame is decoded and taken in. -/
def docAfter (sender receiver : ι) (frame : Frame) : Doc :=
  let node := net.node receiver
  let options := setting.options receiver
  absorbed node.doc ((accepted options (encodeFrame frame)).bind fun frame =>
    (node.sync.completes options (setting.name sender) frame).2)

/-- The call that hands a frame over, encoded. -/
def handing (sender receiver : ι) (store : Store) (frame : Frame) : SyncCall V :=
  .handle (worldOf (net.docAfter setting sender receiver frame) store)
    (importInner (net.node receiver).doc) (setting.name sender) (encodeFrame frame)

/-- The receiver's node before the tables react to a frame. -/
def receiving (sender receiver : ι) (frame : Frame) : Node ι Doc V :=
  let node := net.node receiver
  { node with
    doc := net.docAfter setting sender receiver frame
    heard := if frame.isHello then Function.update node.heard sender true else node.heard }

def step : Event ι Doc → Network ι Doc V
  | .write drive doc => net.put drive { net.node drive with doc := doc, unsaid := true }
  | .host drive store request =>
    let node := net.node drive
    net.call setting drive { node with unsaid := node.unsaid && !request.isLocalChanged }
      (request.call (worldOf node.doc store))
  | .deliver sender receiver store =>
    match net.channel sender receiver with
    | [] => net
    | frame :: _ =>
      (net.pop sender receiver).call setting receiver (net.receiving setting sender receiver frame)
        (net.handing setting sender receiver store frame)

/-- Every update a call sends is within the limits of both ends. -/
def UpdatesWithin (drive : ι) (sync : SyncState V) (call : SyncCall V) : Prop :=
  ∀ world trigger start,
    sync.reaction (setting.options drive) call = some (world, trigger, start) →
    ∀ entry ∈ (start.applied (setting.options drive) world trigger).behind world.ours,
    ∀ bytes, world.exportUpdatesSince entry.2 = .ok bytes →
      UpdateFits (setting.options drive) bytes ∧
      ∀ receiver, setting.name receiver = entry.1 →
        bytes.length ≤ (setting.options receiver).maxUpdateBytes.toNat

variable [SemilatticeSup V]

/-- What is asked of the steps of a run: a write only adds changes, no frame is refused and
every update is within the limits. -/
def Allowed : Event ι Doc → Prop
  | .write drive doc => oplogVv (net.node drive).doc ≤ oplogVv doc
  | .host drive store request =>
    UpdatesWithin setting drive (net.node drive).sync
      (request.call (worldOf (net.node drive).doc store))
  | .deliver sender receiver store =>
    ∀ frame rest, net.channel sender receiver = frame :: rest →
      let call := net.handing setting sender receiver store frame
      (∃ actions, ((net.node receiver).sync.call (setting.options receiver) call).2 = .ok actions) ∧
      UpdatesWithin setting receiver (net.node receiver).sync call

/-- Drives that have just opened, with the documents they loaded. -/
structure Fresh : Prop where
  tables : ∀ drive, (net.node drive).sync = .default
  said : ∀ drive, (net.node drive).heard = fun _ => false
  empty : ∀ sender receiver, net.channel sender receiver = []

/-- Networks reached from drives that have just opened. -/
inductive Run : Network ι Doc V → Prop where
  | fresh {net : Network ι Doc V} (fresh : net.Fresh) : Run net
  | step {net : Network ι Doc V} (run : Run net) (event : Event ι Doc)
      (allowed : net.Allowed setting event) : Run (net.step setting event)

/-- The vector a drive has recorded for another. -/
def recorded (drive peer : ι) : Option V := ((net.node drive).sync.peer (setting.name peer)).vv

/-- A drive's document joined with the updates still in flight to it from another. -/
def bound (sender receiver : ι) : V :=
  oplogVv (landed (setting.options receiver) (setting.name sender) (net.node receiver).sync
    (net.node receiver).doc (net.channel sender receiver))

/-- No frame is in flight and every local write was followed by `sync_local_changed`. -/
structure Quiet : Prop where
  empty : ∀ sender receiver, net.channel sender receiver = []
  told : ∀ drive, (net.node drive).unsaid = false

end Network

end Mille.Drive
