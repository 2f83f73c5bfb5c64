import Mille.Lib.Path
import Mille.Lib.Run

/-! The undo journal of an explorer and its managed recycle base, with the calls that
share them. What a call does on the disk of the workspace and in the store is answered
by the environment; its journal sections and its steps on the recycle base are modelled. -/

namespace Mille.Journal

/-- The identity of a path on disk: `kind` is 0 for a file and 1 for a directory. -/
structure FsIdentity where
  size : Nat
  mtimeMs : Int
  ctimeMs : Int
  kind : Nat
  dev : Nat
  ino : Nat
  deriving DecidableEq

def FsIdentity.matchesDisk (self disk : FsIdentity) : Bool :=
  if self.kind != disk.kind then false
  else if self.ino != 0 || self.dev != 0 then
    if self.dev != disk.dev || self.ino != disk.ino then false
    else if self.kind == 0 && self.size != disk.size then false
    else true
  else if self.size != disk.size then false
  else if self.mtimeMs != disk.mtimeMs || self.ctimeMs != disk.ctimeMs then false
  else true

structure CreateIdentity where
  entryId : Nat
  path : Path
  fs : FsIdentity
  deriving DecidableEq

/-- `pinned` is what the open handle reports now, if it was opened and can be read. -/
def CreateIdentity.pinnedMatchesDisk (identity : CreateIdentity) (pinned : Option FsIdentity)
    (disk : FsIdentity) : Bool :=
  if identity.fs.kind == 1 then identity.fs.matchesDisk disk
  else
    match pinned with
    | none => false
    | some pin =>
      if pin.dev != 0 || pin.ino != 0 then
        pin.dev == disk.dev && pin.ino == disk.ino && pin.size == disk.size
      else identity.fs.matchesDisk disk

/-- The directory a soft delete makes for its payload: a clock reading under the base. -/
structure Bucket where
  base : Path
  stamp : Nat
  deriving DecidableEq

/-- What a soft delete knows before it touches the disk. -/
structure Deletion where
  originalPath : Path
  bucket : Bucket
  parentId : Nat
  name : OsString
  wasDir : Bool
  recursive : Bool
  deriving DecidableEq

inductive JournalKind where
  | create (identity : CreateIdentity)
  | rename (entryId : Nat) (oldPath newPath : Path) (fs : FsIdentity)
  | move (entryId : Nat) (oldPath newPath : Path) (fs : FsIdentity)
  | softDelete (deletion : Deletion) (fs : FsIdentity)
  deriving DecidableEq

/-- The bucket of the recycle path, for a soft delete. -/
def JournalKind.bucket : JournalKind → Option Bucket
  | .softDelete deletion _ => some deletion.bucket
  | _ => none

/-- `serial` counts the pushes before this one; the code has no such field. -/
structure JournalEntry where
  id : Nat
  kind : JournalKind
  serial : Nat
  deriving DecidableEq

inductive PayloadKind where
  | file
  | directory
  | symlink
  deriving DecidableEq

/-- The object in a bucket; `clearable` when everything under it can be removed. -/
structure Payload where
  kind : PayloadKind
  clearable : Bool
  deriving DecidableEq

/-- Whether `remove_dir_all` removes it: a link is unlinked, a regular file is an error. -/
def Payload.removable (payload : Payload) : Bool :=
  payload.kind != .file && payload.clearable

/-- The buckets this explorer made, each empty or with its payload. -/
abbrev Recycle := Bucket → Option (Option Payload)

namespace Recycle

def Holds (recycle : Recycle) (bucket : Bucket) : Prop :=
  ∃ payload, recycle bucket = some (some payload)

def removeDirAll (recycle : Recycle) (bucket : Bucket) : Recycle :=
  match recycle bucket with
  | some (some payload) =>
    if payload.removable then Function.update recycle bucket (some none) else recycle
  | _ => recycle

/-- Only an empty directory is removed. -/
def removeDir (recycle : Recycle) (bucket : Bucket) : Recycle :=
  if recycle bucket = some none then Function.update recycle bucket none else recycle

def cleanupEvicted (recycle : Recycle) (entry : JournalEntry) : Recycle :=
  match entry.kind.bucket with
  | some bucket => (recycle.removeDirAll bucket).removeDir bucket
  | none => recycle

end Recycle

/-- The answer of the environment to one step: whether it succeeded, what it read, and
what a rename moved. -/
structure Answer where
  ok : Bool
  disk : FsIdentity
  pinned : Option FsIdentity
  payload : Payload
  deriving DecidableEq

def Answer.captured (answer : Answer) (kind : Nat) : FsIdentity :=
  { answer.disk with kind := kind }

/-- The steps of an undo between its two journal sections. -/
inductive UndoStep where
  | tracked
  | stillThere
  | sameKind
  | sameIdentity (identity : CreateIdentity)
  | isEmpty
  | removed
  | forgotten
  | present
  | vacant
  | matching (fs : FsIdentity)
  | parentMade
  | renamed
  | storeRenamed
  | payloadThere (bucket : Bucket)
  | payloadSame (wasDir : Bool) (fs : FsIdentity)
  | restored (bucket : Bucket)
  | bucketCleared (bucket : Bucket)
  | statted
  | inserted
  | reclassified
  deriving DecidableEq

/-- `undo_create`, `undo_rename_or_move` and `undo_soft_delete` in order. -/
def undoSteps : JournalKind → List UndoStep
  | .create identity =>
    [.tracked, .stillThere, .sameKind, .sameIdentity identity] ++
      (if identity.fs.kind == 1 then [.isEmpty] else []) ++ [.removed, .forgotten]
  | .rename _ _ _ fs =>
    [.present, .vacant, .tracked, .matching fs, .parentMade, .renamed, .storeRenamed, .reclassified]
  | .move _ _ _ fs =>
    [.present, .vacant, .tracked, .matching fs, .parentMade, .renamed, .storeRenamed, .reclassified]
  | .softDelete deletion fs =>
    [.payloadThere deletion.bucket, .vacant, .payloadSame deletion.wasDir fs, .parentMade,
      .restored deletion.bucket, .bucketCleared deletion.bucket, .statted, .inserted, .reclassified]

namespace UndoStep

/-- Whether the undo goes on after the step. -/
def passes (recycle : Recycle) (answer : Answer) : UndoStep → Bool
  | .stillThere => true
  | .sameIdentity identity =>
    answer.ok && identity.pinnedMatchesDisk answer.pinned (answer.captured identity.fs.kind)
  | .matching fs => answer.ok && fs.matchesDisk (answer.captured fs.kind)
  -- `exists` follows a link, so a payload that is a dangling link is not found
  | .payloadThere bucket =>
    match recycle bucket with
    | some (some payload) => payload.kind != .symlink || answer.ok
    | _ => false
  | .payloadSame wasDir fs =>
    answer.ok && (if wasDir then 1 else 0) == fs.kind &&
      fs.matchesDisk (answer.captured (if wasDir then 1 else 0))
  | .restored bucket => answer.ok && ((recycle bucket).bind id).isSome
  | .forgotten => true
  | .bucketCleared _ => true
  | _ => answer.ok

def effect (recycle : Recycle) : UndoStep → Recycle
  | .restored bucket => Function.update recycle bucket (some none)
  | .bucketCleared bucket => recycle.removeDir bucket
  | _ => recycle

/-- A created path that is gone only leaves the store to clear. -/
def next (answer : Answer) (left : List UndoStep) : UndoStep → List UndoStep
  | .stillThere => if answer.ok then left else [.forgotten]
  | _ => left

end UndoStep

/-- Where a soft delete stands. -/
inductive DeletePhase where
  | begun
  | made
  | contained
  | named
  | moved
  | identified (fs : FsIdentity)
  | forgotten (fs : FsIdentity)
  deriving DecidableEq

/-- A call in progress. A create, rename, move or permanent delete is an `edit` until its
journal section; an undo keeps the entry it looked at, the steps left and how often the
stack had been written when it looked. -/
inductive Call where
  | edit
  | deleting (deletion : Deletion) (phase : DeletePhase)
  | undoing (entry : JournalEntry) (left : List UndoStep) (seen : Nat)

/-- The journal, the recycle base and the calls in progress. The last four fields are
logs that the code does not keep: the entries pushed, the entries undone with what their
undo popped, how often the stack was written, and the buckets of deletes whose rename
failed. -/
structure Explorer where
  stack : List JournalEntry
  nextId : Nat
  capacity : Nat
  recycle : Recycle
  calls : Nat → Option Call
  pushed : List JournalEntry
  undone : List (JournalEntry × Option JournalEntry)
  writes : Nat
  abandoned : List Bucket

namespace Explorer

def defaultCapacity : Nat := 64

def new (capacity : Nat) : Explorer where
  stack := []
  nextId := 1
  capacity := capacity
  recycle := fun _ => none
  calls := fun _ => none
  pushed := []
  undone := []
  writes := 0
  abandoned := []

/-- `next_id.saturating_add(1)`. -/
def idAfter (explorer : Explorer) : Nat := min (explorer.nextId + 1) (2 ^ 64 - 1)

/-- The loop of `push_undoable`: oldest entries go until the rest fits. -/
def evict (capacity : Nat) : List JournalEntry → Recycle → List JournalEntry × Recycle
  | [], recycle => ([], recycle)
  | entry :: rest, recycle =>
    if capacity < rest.length + 1 then evict capacity rest (recycle.cleanupEvicted entry)
    else (entry :: rest, recycle)

/-- The entry the next push appends. -/
def entryOf (explorer : Explorer) (kind : JournalKind) : JournalEntry :=
  ⟨explorer.nextId, kind, explorer.pushed.length⟩

def pushUndoable (explorer : Explorer) (kind : JournalKind) : Explorer :=
  let entry := explorer.entryOf kind
  let kept := evict explorer.capacity (explorer.stack ++ [entry]) explorer.recycle
  { explorer with
    nextId := explorer.idAfter
    stack := kept.1
    recycle := kept.2
    pushed := explorer.pushed ++ [entry]
    writes := explorer.writes + 1 }

def recordNonUndoable (explorer : Explorer) : Explorer :=
  { explorer with nextId := explorer.idAfter }

def peekOwned (explorer : Explorer) : Option JournalEntry := explorer.stack.getLast?

def pop (explorer : Explorer) : Option JournalEntry × Explorer :=
  (explorer.stack.getLast?,
    { explorer with stack := explorer.stack.dropLast, writes := explorer.writes + 1 })

def setCall (explorer : Explorer) (call : Nat) (now : Option Call) : Explorer :=
  { explorer with calls := Function.update explorer.calls call now }

/-- One step of a soft delete. -/
def deleteStep (explorer : Explorer) (call : Nat) (deletion : Deletion) (answer : Answer) :
    DeletePhase → Explorer
  -- `create_dir` also fails where another explorer's bucket stands
  | .begun =>
    if answer.ok && (explorer.recycle deletion.bucket).isNone then
      { explorer with recycle := Function.update explorer.recycle deletion.bucket (some none) }.setCall
        call (some (.deleting deletion .made))
    else explorer.setCall call none
  | .made =>
    if answer.ok then explorer.setCall call (some (.deleting deletion .contained))
    else { explorer with recycle := explorer.recycle.removeDir deletion.bucket }.setCall call none
  | .contained =>
    if answer.ok then explorer.setCall call (some (.deleting deletion .named))
    else { explorer with recycle := explorer.recycle.removeDir deletion.bucket }.setCall call none
  -- a failed rename leaves the bucket behind
  | .named =>
    if answer.ok && (explorer.recycle deletion.bucket).isSome then
      { explorer with
        recycle := Function.update explorer.recycle deletion.bucket (some (some answer.payload)) }.setCall
        call (some (.deleting deletion .moved))
    else
      { explorer with abandoned := explorer.abandoned ++ [deletion.bucket] }.setCall call none
  | .moved =>
    if answer.ok then
      explorer.setCall call
        (some (.deleting deletion (.identified (answer.captured (if deletion.wasDir then 1 else 0)))))
    else explorer.setCall call none
  | .identified fs => explorer.setCall call (some (.deleting deletion (.forgotten fs)))
  | .forgotten fs => (explorer.pushUndoable (.softDelete deletion fs)).setCall call none

/-- One step of an undo; with no step left it pops whatever is on top. -/
def undoStep (explorer : Explorer) (call : Nat) (entry : JournalEntry) (answer : Answer)
    (seen : Nat) : List UndoStep → Explorer
  | [] =>
    let popped := explorer.pop
    { popped.2 with undone := explorer.undone ++ [(entry, popped.1)] }.setCall call none
  | step :: left =>
    if step.passes explorer.recycle answer then
      { explorer with recycle := step.effect explorer.recycle }.setCall call
        (some (.undoing entry (step.next answer left) seen))
    else explorer.setCall call none

/-- The atomic steps of the calls. -/
inductive Action where
  | edit (call : Nat)
  | fail (call : Nat)
  | push (call : Nat) (kind : JournalKind)
  | note (call : Nat)
  | delete (call : Nat) (deletion : Deletion)
  | undo (call : Nat)
  | advance (call : Nat) (answer : Answer)

def step (explorer : Explorer) : Action → Explorer
  | .edit call =>
    match explorer.calls call with
    | none => explorer.setCall call (some .edit)
    | some _ => explorer
  | .fail call =>
    match explorer.calls call with
    | some .edit => explorer.setCall call none
    | _ => explorer
  | .push call kind =>
    match explorer.calls call, kind.bucket with
    | some .edit, none => (explorer.pushUndoable kind).setCall call none
    | _, _ => explorer
  | .note call =>
    match explorer.calls call with
    | some .edit => explorer.recordNonUndoable.setCall call none
    | _ => explorer
  | .delete call deletion =>
    match explorer.calls call with
    | none => explorer.setCall call (some (.deleting deletion .begun))
    | some _ => explorer
  | .undo call =>
    match explorer.calls call, explorer.peekOwned with
    | none, some entry =>
      explorer.setCall call (some (.undoing entry (undoSteps entry.kind) explorer.writes))
    | _, _ => explorer
  | .advance call answer =>
    match explorer.calls call with
    | some (.deleting deletion phase) => explorer.deleteStep call deletion answer phase
    | some (.undoing entry left seen) => explorer.undoStep call entry answer seen left
    | _ => explorer

/-- No call is in progress. -/
def Idle (explorer : Explorer) : Prop := ∀ call, explorer.calls call = none

/-- The kinds a push of this kind would evict. -/
def evictedBy (explorer : Explorer) (kind : JournalKind) : List JournalKind :=
  ((explorer.stack ++ [explorer.entryOf kind]).map (·.kind)).take
    (explorer.stack.length + 1 - explorer.capacity)

/-- What a push evicts, `remove_dir_all` can remove. -/
def Clears (explorer : Explorer) (kind : JournalKind) : Prop :=
  ∀ evicted ∈ explorer.evictedBy kind, ∀ bucket, evicted.bucket = some bucket →
    ∀ payload, explorer.recycle bucket = some (some payload) → payload.removable = true

/-- The payload of the entry an undo reverses has left its bucket. -/
def Past (entry : JournalEntry) (left : List UndoStep) : Prop :=
  ∃ bucket, entry.kind.bucket = some bucket ∧ .restored bucket ∉ left

/-- Steps the bookkeeping survives: an undo pops when the stack was not written since it
looked, what is evicted can be removed, and a payload once moved is not dropped by an
error. -/
def Allowed (explorer : Explorer) : Action → Prop
  | .push _ kind => explorer.Clears kind
  | .advance call answer =>
    match explorer.calls call with
    | some (.deleting _ .moved) => answer.ok = true
    | some (.deleting deletion (.forgotten fs)) => explorer.Clears (.softDelete deletion fs)
    | some (.undoing _ [] seen) => seen = explorer.writes
    | some (.undoing entry left _) => Past entry left → answer.ok = true
    | _ => True
  | _ => True

/-- The bookkeeping of the journal: every undo popped the entry it reversed, no entry
was reversed twice, the stack is the newest of what was pushed and not undone, and at
rest the payloads are those the stack names and every other bucket is gone, unless a
delete that failed left it. -/
structure Kept (explorer : Explorer) : Prop where
  popped : ∀ undone ∈ explorer.undone, undone.2 = some undone.1
  once : (explorer.undone.map (·.1.serial)).Nodup
  newest : ∃ evicted, explorer.pushed.filter (·.serial ∉ explorer.undone.map (·.1.serial)) =
    evicted ++ explorer.stack
  bounded : explorer.stack.length ≤ explorer.capacity
  payloads : explorer.Idle → ∀ bucket,
    explorer.recycle.Holds bucket ↔ ∃ entry ∈ explorer.stack, entry.kind.bucket = some bucket
  buckets : explorer.Idle → ∀ bucket, explorer.recycle bucket = some none →
    bucket ∈ explorer.abandoned

end Explorer

end Mille.Journal
