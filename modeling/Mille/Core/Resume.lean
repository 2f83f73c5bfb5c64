import Mille.Core.StorePaths
import Mille.Core.Summaries
import Mille.Core.Walker

/-! Crash resume: a snapshot with the roots' stats, and the walk that diffs it against the
disk. -/

namespace Mille

open Maps

def currentFormatVersion : Nat := 2

structure RootStat where
  path : Path
  mtimeMs : Int

structure ResumeSnapshot where
  formatVersion : Nat
  milleVersion : String
  createdMs : Int
  treeVersion : Nat
  roots : List EntryId
  entries : IdMap Entry
  children : IdMap (List EntryId)
  directChildCounts : IdMap UInt32
  descendantVisibleCounts : IdMap UInt32
  descendantTotalSizes : IdMap UInt64
  nextEntryId : Nat
  rootStats : List RootStat

/-- The version of the package and the time come from outside. -/
def snapshotToResume (snapshot : StoreSnapshot) (nextEntryId : Nat) (rootStats : List RootStat)
    (milleVersion : String) (createdMs : Int) : ResumeSnapshot where
  formatVersion := currentFormatVersion
  milleVersion := milleVersion
  createdMs := createdMs
  treeVersion := snapshot.treeVersion
  roots := snapshot.roots
  entries := snapshot.entries
  children := insertAll ∅ (snapshot.entries.keys.filterMap fun id =>
    if (snapshot.childrenOf id).isEmpty then none else some (id, snapshot.childrenOf id))
  directChildCounts := insertAll ∅ (snapshot.entries.keys.filterMap fun id =>
    snapshot.directChildCounts[id]?.map fun count => (id, count))
  descendantVisibleCounts := insertAll ∅ (snapshot.entries.keys.map fun id => (id, snapshot.subtreeVisibleCount id))
  descendantTotalSizes := insertAll ∅ (snapshot.entries.keys.map fun id => (id, snapshot.subtreeTotalSize id))
  nextEntryId := nextEntryId
  rootStats := rootStats

inductive ResumeEvent where
  | appeared (path : Path)
  | disappeared (path : Path)
  | modified (path : Path)
  | rootDisappeared (root : Path)
deriving DecidableEq

/-- The key events are sorted by: the variant, then the path. -/
def ResumeEvent.key : ResumeEvent → Nat × Path
  | .appeared path => (0, path)
  | .disappeared path => (1, path)
  | .modified path => (2, path)
  | .rootDisappeared root => (3, root)

def ResumeEvent.order (left right : ResumeEvent) : Ordering :=
  (compare left.key.1 right.key.1).then (compare left.key.2 right.key.2)

/-- `into_complete`. -/
def WalkReport.intoComplete (report : WalkReport) : Except FxError (List WalkedEntry) :=
  match report.failure with
  | some error => .error error
  | none =>
    if report.unread.isEmpty then .ok report.entries
    else .error (.incomplete (report.unread.map fun unread => (unread.1, (unread.2.intoFx unread.1).code)))

/-- What the disk answers about a root: whether it exists, and a walk of it with the root and
hidden entries. -/
structure RootRead where
  present : Bool
  report : WalkReport

/-- What is compared of an entry: its modification time and size. -/
abbrev Stamp := Int × UInt64

namespace ResumeSnapshot

variable (snap : ResumeSnapshot)

/-- The climb from an entry to the root above it, with the names on the way, the root's first. -/
def climb : Nat → EntryId → List String → Option (EntryId × List String)
  | 0, _, _ => none
  | hops + 1, cur, segments =>
    match snap.entries[cur]? with
    | none => none
    | some entry =>
      match entry.parentId with
      | none => some (cur, entry.name :: segments)
      | some parentId => climb hops parentId (entry.name :: segments)

def entryPath (id : EntryId) : Option Path :=
  match snap.climb maxAncestorWalk id [] with
  | none => none
  | some (rootId, segments) =>
    match snap.roots.findIdx? (· = rootId) with
    | none => none
    | some rootPos =>
      -- the root's on-disk path stands in for its own name
      snap.rootStats[rootPos]?.map fun stat => segments.tail.foldl (fun out seg => out.push (.utf8 seg)) stat.path

def snapPaths : Std.ExtTreeMap Path Stamp :=
  insertAll ∅ (snap.entries.toList.filterMap fun held =>
    (snap.entryPath held.1).map fun path => (path, (held.2.mtimeMs, held.2.size)))

def diskPaths (walked : List WalkedEntry) : Std.ExtTreeMap Path Stamp :=
  insertAll ∅ (walked.map fun entry => (entry.path, (entry.mtimeMs, entry.size)))

/-- The events of a path of the snapshot below a root that was walked. -/
def compareHeld (disk : Std.ExtTreeMap Path Stamp) (held : Path × Stamp) : Option ResumeEvent :=
  match disk[held.1]? with
  | none => some (.disappeared held.1)
  | some stamp => if stamp.1 ≠ held.2.1 ∨ stamp.2 ≠ held.2.2 then some (.modified held.1) else none

def diffRoot (root : Path) (walked : List WalkedEntry) : List ResumeEvent :=
  let disk := diskPaths walked
  let appeared := (disk.keys.filter fun path => !snap.snapPaths.contains path).map .appeared
  let subtree := snap.snapPaths.toList.filter fun held => held.1.startsWith root
  appeared ++ subtree.filterMap (compareHeld disk)

/-- One round over the roots. -/
def rootEvents (root : Path) (read : RootRead) : Except FxError (List ResumeEvent) :=
  if !read.present then .ok [.rootDisappeared root]
  else
    match read.report.intoComplete with
    | .ok walked => .ok (snap.diffRoot root walked)
    | .error (.io .enoent _) => .ok [.rootDisappeared root]
    | .error error => .error error

def allEvents (disk : Path → RootRead) : List RootStat → Except FxError (List ResumeEvent)
  | [] => .ok []
  | stat :: rest => do
    let events ← snap.rootEvents stat.path (disk stat.path)
    let others ← allEvents disk rest
    return events ++ others

def eventsSince (disk : Path → RootRead) : Except FxError (List ResumeEvent) := do
  let out ← snap.allEvents disk snap.rootStats
  return out.mergeSort fun left right => (left.order right).isLE

end ResumeSnapshot

end Mille
