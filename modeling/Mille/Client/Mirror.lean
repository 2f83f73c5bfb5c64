import Mille.Client.ChildListCodec
import Mille.Lib.JsMap

/-! The client's mirror of a host's tree and the reducer that merges a delta into it. -/

namespace Mille

open EntryCodec (ClientEntry Text maxSafe decodeClientEntries)
open ChildListCodec (Packed decodeChildLists)
open Bincode (Bytes)

/-- The entry records a client holds, each under its own id. -/
structure EntriesById where
  map : JsMap Int ClientEntry
  keyed : ∀ id entry, map.get id = some entry → entry.id = id

namespace EntriesById

def empty : EntriesById := ⟨JsMap.empty, by simp⟩

def get (byId : EntriesById) (id : Int) : Option ClientEntry := byId.map.get id

def size (byId : EntriesById) : Nat := byId.map.size

def set (byId : EntriesById) (entry : ClientEntry) : EntriesById where
  map := byId.map.set entry.id entry
  keyed := by
    intro id found present
    rw [JsMap.get_set] at present
    split at present
    · next same =>
      cases present
      exact same
    · exact byId.keyed id found present

def delete (byId : EntriesById) (id : Int) : EntriesById where
  map := byId.map.delete id
  keyed := by
    intro other found present
    rw [JsMap.get_delete] at present
    split at present
    · cases present
    · exact byId.keyed other found present

variable {byId : EntriesById} {entry : ClientEntry} {id other : Int}

theorem get_set : (byId.set entry).get other = if entry.id = other then some entry else byId.get other :=
  JsMap.get_set

theorem get_delete : (byId.delete id).get other = if id = other then none else byId.get other :=
  JsMap.get_delete

end EntriesById

structure DecorationOnWire where
  letter : Option Text
  badge : Option Text
  color : Option Text
  tooltip : Option Text
  propagate : Option Bool

inductive LoadState where
  | loading
  | error
deriving DecidableEq

structure DirectoryLoadRecord where
  generation : Nat
  state : LoadState
  /-- The error's code and message. -/
  error : Option (Text × Text)

/-- A client's working state. Child lists are kept by their elements. -/
structure MirrorWorking where
  byId : EntriesById
  children : JsMap Int (List Int)
  /-- Parents whose child list is the host's own. -/
  orderedChildren : JsSet Int
  directChildCounts : JsMap Int Int
  pendingExpansions : JsSet Int
  directoryLoads : JsMap Int DirectoryLoadRecord
  expanded : JsSet Int
  viewportIds : JsSet Int
  roots : List Int
  treeVersion : Nat
  projectionVersion : Nat
  decorationVersion : Nat
  showHiddenFiles : Bool
  showIgnoredFiles : Bool
  compactFolders : Bool
  decorations : JsMap Int (List DecorationOnWire)
  volatileSubtrees : JsSet Int
  lruTouch : JsMap Int Nat
  lruCounter : Nat

structure Visibility where
  showHiddenFiles : Bool
  showIgnoredFiles : Bool
  compactFolders : Option Bool

/-- A delta; its JSON objects are keyed by ids. -/
structure InboundDelta where
  version : Nat
  addedRows : Option Bytes
  viewportPatch : Option Bytes
  entriesJson : Option Text
  childSetChanged : Option (List Int)
  removedIds : List Int
  directChildCounts : JsMap Int Int
  childLists : Option (JsMap Int (List Int))
  childListsBin : Option Packed
  coarseSubtrees : List Int
  subtreeDirty : List Int
  subtreeResynced : List Int
  visibility : Option Visibility
  decorationChangedIds : Option (List Int)
  decorationsJson : Option Text
  roots : Option (List Int)
  viewportIds : Option (List Int)

/-- What `JSON.parse` makes of a delta's two texts; `none` when it throws. -/
structure JsonParse where
  entries : Text → Option (List ClientEntry)
  decorations : Text → Option (JsMap Int (List DecorationOnWire))

inductive DeltaError where
  | entries (fault : Cursor.Fault EntryCodec.DecodeError)
  | childLists (failure : ChildListCodec.Failure)
  | json

namespace MirrorWorking

def createMirror : MirrorWorking where
  byId := .empty
  children := .empty
  orderedChildren := .empty
  directChildCounts := .empty
  pendingExpansions := .empty
  directoryLoads := .empty
  expanded := .empty
  viewportIds := .empty
  roots := []
  treeVersion := 0
  projectionVersion := 0
  decorationVersion := 0
  showHiddenFiles := true
  showIgnoredFiles := true
  compactFolders := false
  decorations := .empty
  volatileSubtrees := .empty
  lruTouch := .empty
  lruCounter := 0

section Eviction

/-- Drops an id from the tables of the tree and of the session. -/
def forget (state : MirrorWorking) (id : Int) : MirrorWorking :=
  { state with
    byId := state.byId.delete id
    children := state.children.delete id
    orderedChildren := state.orderedChildren.delete id
    directChildCounts := state.directChildCounts.delete id
    pendingExpansions := state.pendingExpansions.delete id
    directoryLoads := state.directoryLoads.delete id
    expanded := state.expanded.delete id
    viewportIds := state.viewportIds.delete id
    volatileSubtrees := state.volatileSubtrees.delete id }

def evict (state : MirrorWorking) (id : Int) : MirrorWorking :=
  { state.forget id with lruTouch := state.lruTouch.delete id }

structure Candidate where
  id : Int
  touch : Nat

/-- Oldest first, ties by id. -/
def Candidate.le (a b : Candidate) : Bool := a.touch < b.touch || a.touch = b.touch && a.id ≤ b.id

def candidates (state : MirrorWorking) (activeIds : JsSet Int) : List Candidate :=
  (state.byId.map.keys.filter fun id => !activeIds.has id).map fun id => ⟨id, (state.lruTouch.get id).getD 0⟩

def evictLoop : Nat → List Candidate → MirrorWorking → MirrorWorking
  | toEvict + 1, c :: rest, state => evictLoop toEvict rest (state.evict c.id)
  | _, _, state => state

def evictToCap (state : MirrorWorking) (cap : Nat) (activeIds : JsSet Int) : MirrorWorking :=
  if state.byId.size ≤ cap then state
  else evictLoop (state.byId.size - cap) ((state.candidates activeIds).mergeSort Candidate.le) state

def activeSet (state : MirrorWorking) : JsSet Int :=
  .ofList (state.roots ++ state.expanded.keys ++ state.pendingExpansions.keys ++ state.viewportIds.keys)

/-- The times renumbered from one on, in the order of their ids. -/
def compressed (lruTouch : JsMap Int Nat) : JsMap Int Nat :=
  (lruTouch.keys.zipIdx 1).foldl (fun times numbered => times.set numbered.1 numbered.2) lruTouch

def touch (state : MirrorWorking) (id : Int) : MirrorWorking :=
  if maxSafe ≤ state.lruCounter + 1 then
    { state with
      lruCounter := state.byId.size
      lruTouch := (compressed state.lruTouch).set id state.byId.size }
  else
    { state with
      lruCounter := state.lruCounter + 1
      lruTouch := state.lruTouch.set id (state.lruCounter + 1) }

end Eviction

section Delta

variable (json : JsonParse) (msg : InboundDelta)

def decodeEntryPayload (binary : Option Bytes) (text : Option Text) : Except DeltaError (List ClientEntry) :=
  match binary, text with
  | some bytes, _ => (decodeClientEntries bytes).mapError .entries
  | none, some (char :: chars) => ((json.entries (char :: chars)).map Except.ok).getD (.error .json)
  | none, _ => .ok []

def decodeDeltaEntryPayload : Except DeltaError (List ClientEntry) :=
  if msg.addedRows = none ∧ msg.viewportPatch = none then decodeEntryPayload json none msg.entriesJson
  else do
    let added ← decodeEntryPayload json msg.addedRows none
    let patched ← decodeEntryPayload json msg.viewportPatch none
    return added ++ patched

/-- The child lists a delta brings; packed ones go before the JSON object. -/
def incomingChildLists : Except DeltaError (List (Int × List Int)) :=
  match msg.childListsBin with
  | some packed => do
    let lists ← (decodeChildLists packed).mapError .childLists
    return lists.map fun list => (list.1, list.2.ids.map Int.ofNat)
  | none => .ok (msg.childLists.getD .empty).entries

def applyVisibility (state : MirrorWorking) : MirrorWorking :=
  match msg.visibility with
  | none => state
  | some visibility =>
    { state with
      showHiddenFiles := visibility.showHiddenFiles
      showIgnoredFiles := visibility.showIgnoredFiles
      compactFolders := visibility.compactFolders.getD false
      projectionVersion := state.projectionVersion + 1 }

/-- The new pins take the place of the old ones before entries are merged. -/
def pinViewport (state : MirrorWorking) : MirrorWorking :=
  match msg.viewportIds with
  | none => state
  | some ids => { state with viewportIds := .ofList ids }

def markCoarse (state : MirrorWorking) (rootId : Int) : MirrorWorking :=
  { state with
    children := state.children.delete rootId
    orderedChildren := state.orderedChildren.delete rootId
    pendingExpansions := state.pendingExpansions.add rootId }

/-- The state being merged and the parents whose child list will be rebuilt. -/
structure Merge where
  next : MirrorWorking
  parentsToRebuild : JsSet Int

def markParent (parentsToRebuild : JsSet Int) : Option Int → JsSet Int
  | none => parentsToRebuild
  | some parentId => parentsToRebuild.add parentId

/-- The parents one entry marks: those it moves between, or its own when it was not held and
is not pinned. -/
def markMoved (viewportIds parentsToRebuild : JsSet Int) (prev : Option ClientEntry) (e : ClientEntry) : JsSet Int :=
  match prev with
  | some prev =>
    if prev.parentId ≠ e.parentId then markParent (markParent parentsToRebuild prev.parentId) e.parentId
    else parentsToRebuild
  | none => if viewportIds.has e.id then parentsToRebuild else markParent parentsToRebuild e.parentId

def mergeEntry (viewportIds : JsSet Int) (merge : Merge) (e : ClientEntry) : Merge where
  next := touch { merge.next with byId := merge.next.byId.set e } e.id
  parentsToRebuild := markMoved viewportIds merge.parentsToRebuild (merge.next.byId.get e.id) e

def removeId (merge : Merge) (id : Int) : Merge where
  next := merge.next.forget id
  parentsToRebuild := markParent merge.parentsToRebuild ((merge.next.byId.get id).bind (·.parentId))

/-- A count that comes with a rebuilt list ends the wait for it, unless a load is under way. -/
def settleExpansion (state : MirrorWorking) (parentId : Int) : MirrorWorking :=
  if !state.directoryLoads.has parentId && msg.directChildCounts.has parentId then
    { state with pendingExpansions := state.pendingExpansions.delete parentId }
  else state

/-- The held entries of a parent, in the order of the records. -/
def heldChildren (byId : EntriesById) (parentId : Int) : List Int :=
  (byId.map.entries.filter fun held => held.2.parentId = some parentId).map Prod.fst

def rebuildParent (state : MirrorWorking) (parentId : Int) : MirrorWorking :=
  let fresh := heldChildren state.byId parentId
  settleExpansion msg
    { state with
      children := if fresh.isEmpty then state.children.delete parentId else state.children.set parentId fresh
      orderedChildren := state.orderedChildren.delete parentId } parentId

def installChildList (state : MirrorWorking) (list : Int × List Int) : MirrorWorking :=
  settleExpansion msg
    { state with
      children := state.children.set list.1 list.2
      orderedChildren := state.orderedChildren.add list.1 } list.1

def mergeCounts (state : MirrorWorking) : MirrorWorking :=
  { state with
    directChildCounts := msg.directChildCounts.entries.foldl (fun counts count => counts.set count.1 count.2)
      state.directChildCounts }

def mergeVolatile (state : MirrorWorking) : MirrorWorking :=
  { state with
    volatileSubtrees := msg.subtreeResynced.foldl JsMap.delete
      (msg.subtreeDirty.foldl JsMap.add state.volatileSubtrees) }

def untouch (state : MirrorWorking) : MirrorWorking :=
  { state with lruTouch := msg.removedIds.foldl JsMap.delete state.lruTouch }

/-- What the decoration text says; nothing when it is malformed. -/
def parsedDecorations : JsMap Int (List DecorationOnWire) :=
  match msg.decorationsJson with
  | some (char :: chars) => (json.decorations (char :: chars)).getD .empty
  | _ => .empty

def applyDecoration (parsed decorations : JsMap Int (List DecorationOnWire)) (id : Int) :
    JsMap Int (List DecorationOnWire) :=
  match parsed.get id with
  | some (decoration :: more) => decorations.set id (decoration :: more)
  | _ => decorations.delete id

def applyDecorations (state : MirrorWorking) : MirrorWorking :=
  let changed := msg.decorationChangedIds.getD []
  let decorations := changed.foldl (applyDecoration (parsedDecorations json msg)) state.decorations
  { state with
    decorations := msg.removedIds.foldl JsMap.delete decorations
    decorationVersion := if changed.isEmpty then state.decorationVersion else state.decorationVersion + 1 }

def applyRoots (state : MirrorWorking) : MirrorWorking :=
  { state with roots := msg.roots.getD state.roots }

/-- The state before anything is merged: version, visibility, pins and coarse subtrees. -/
def prepare (state : MirrorWorking) : MirrorWorking :=
  msg.coarseSubtrees.foldl markCoarse
    (pinViewport msg (applyVisibility msg { state with treeVersion := max state.treeVersion msg.version }))

/-- The parents to rebuild at first: the announced ones without an incoming list. -/
def announcedParents (lists : List (Int × List Int)) : JsSet Int :=
  (lists.map Prod.fst).foldl JsMap.delete (.ofList (msg.childSetChanged.getD []))

/-- Rows that hydrate advance the projection. -/
def noteArrivals (entries : List ClientEntry) (lists : List (Int × List Int)) (state : MirrorWorking) : MirrorWorking :=
  if entries.isEmpty && lists.isEmpty then state
  else { state with projectionVersion := state.projectionVersion + 1 }

/-- The parts of a delta after the child lists, none of which looks at them. -/
def finish (state : MirrorWorking) : MirrorWorking :=
  applyRoots msg (applyDecorations json msg (untouch msg (mergeVolatile msg (mergeCounts msg state))))

/-- `applyDelta` up to its eviction. -/
def mergeDelta (state : MirrorWorking) : Except DeltaError MirrorWorking := do
  let lists ← incomingChildLists msg
  let entries ← decodeDeltaEntryPayload json msg
  let next := noteArrivals entries lists (prepare msg state)
  let merge := entries.foldl (mergeEntry (.ofList (msg.viewportIds.getD []))) ⟨next, announcedParents msg lists⟩
  let merge := msg.removedIds.foldl removeId merge
  let next := merge.parentsToRebuild.keys.foldl (rebuildParent msg) merge.next
  let next := lists.foldl (installChildList msg) next
  return finish json msg next

def applyDelta (state : MirrorWorking) (mirrorCap : Nat) : Except DeltaError MirrorWorking := do
  let next ← mergeDelta json msg state
  return next.evictToCap mirrorCap next.activeSet

end Delta

end MirrorWorking

end Mille
