import Mille.Core.Walker
import Mille.Core.Store

/-! Reconciliation of one directory with the disk: the one-shot form, and the
progressive form that publishes pages of a depth-one listing. -/

namespace Mille

structure WatchConfig where
  roots : List Path
  respectIgnore : Bool
  excludeGlobs : List String
  followSymlinks : SymlinkPolicy
  builder : GitignoreBuilder

/-- What the disk answers about a directory while it is reconciled. A directory
has every name once, and the ignore files read in it are among them. -/
structure Disk (directory : Path) where
  stat : StatRead
  read : DirRead
  ignoreFiles : Path → Except ReadFailure (List (Path × String))
  distinct : ∀ children, read = .listed children → (children.map (·.1.name)).Nodup
  own_ignoreFiles : ∀ children files, read = .listed children → ignoreFiles directory = .ok files →
    files = readIgnoreFiles directory children

structure ReconcileOutcome where
  changedIds : Finset EntryId
  childSetChanged : Finset EntryId

namespace ReconcileOutcome

def empty : ReconcileOutcome :=
  ⟨∅, ∅⟩

def merge (first next : ReconcileOutcome) : ReconcileOutcome :=
  ⟨first.changedIds ∪ next.changedIds, first.childSetChanged ∪ next.childSetChanged⟩

end ReconcileOutcome

/-- `probe_exists`: a read that does not answer is no evidence of absence. -/
def probeExists (path : Path) : StatRead → Except FxError Bool
  | .ok stat => .ok stat.pathExists
  | .error .io => .ok false
  | .error failure => .error (failure.intoFx path)

/-- The deepest root at or above a path. -/
def containingRoot (roots : List Path) (path : Path) : Option Path :=
  (roots.filter (fun root => path = root || path.startsWith root)).foldl (fun deepest root =>
    match deepest with
    | none => some root
    | some best => if best.length ≤ root.length then some root else some best) none

/-- The directories from a root down to a directory, both ends included. -/
def anchors (root directory : Path) : List Path :=
  match directory.stripPrefix root with
  | none => [directory]
  | some relative => (relative.inits.map (root ++ ·))

/-- `seed_ignore_files` over a chain of directories. -/
def seedIgnoreFiles (builder : GitignoreBuilder)
    (ignoreFiles : Path → Except ReadFailure (List (Path × String))) :
    List Path → IgnoreMatcher → Except FxError IgnoreMatcher
  | [], matcher => .ok matcher
  | directory :: rest, matcher =>
    match ignoreFiles directory with
    | .error failure => .error (failure.intoFx directory)
    | .ok files =>
      seedIgnoreFiles builder ignoreFiles rest
        (files.foldl (IgnoreMatcher.addFromContents builder) matcher)

structure ReconcileMatchers where
  traversal : Option IgnoreMatcher
  repositoryIgnore : Option IgnoreMatcher
  excludes : Option IgnoreMatcher

section Directory

variable (config : WatchConfig) (directory : Path) (disk : Disk directory)

def buildReconcileMatchers : Except FxError ReconcileMatchers :=
  if !config.respectIgnore && config.excludeGlobs.isEmpty then .ok ⟨none, none, none⟩
  else
    let root := (containingRoot config.roots directory).getD directory
    let excludes : Except FxError IgnoreMatcher :=
      if config.excludeGlobs.isEmpty then .ok []
      else IgnoreMatcher.addFromString config.builder [] root ("\n".intercalate config.excludeGlobs)
    match excludes with
    | .error error => .error error
    | .ok excludes =>
      let repositoryIgnore : Except FxError IgnoreMatcher :=
        if config.respectIgnore then
          seedIgnoreFiles config.builder disk.ignoreFiles (anchors root directory) []
        else .ok []
      match repositoryIgnore with
      | .error error => .error error
      | .ok repositoryIgnore =>
        .ok ⟨some (excludes ++ repositoryIgnore),
          if config.respectIgnore then some repositoryIgnore else none,
          if config.excludeGlobs.isEmpty then none else some excludes⟩

def reconcileWalk (depth : Option Nat) (traversal : Option IgnoreMatcher) : Walk :=
  ⟨config.builder, ⟨depth, config.followSymlinks, true, true⟩, traversal⟩

/-- `directory` as one-shot reconciliation read it. -/
structure DiskListing where
  walked : List WalkedEntry
  unread : List (Path × ReadFailure)
  repositoryIgnore : Option IgnoreMatcher
  excludes : Option IgnoreMatcher

/-- The ignore files the walk has read join the rules that were seeded above it. -/
def walkForReconcile (depth : Option Nat) : Except FxError DiskListing :=
  match buildReconcileMatchers config directory disk with
  | .error error => .error error
  | .ok matchers =>
    let report := walkCore (reconcileWalk config depth matchers.traversal) directory disk.stat disk.read
    match report.failure with
    | some error => .error error
    | none =>
      .ok ⟨report.entries, report.unread,
        matchers.repositoryIgnore.map
          (report.ignoreFiles.foldl (IgnoreMatcher.addFromContents config.builder)),
        matchers.excludes⟩

/-- The disk half of `reconcile_directory`; `none` when the directory is gone. -/
def readDirectory (depth : Option Nat) : Except FxError (Option DiskListing) :=
  match probeExists directory disk.stat with
  | .error error => .error error
  | .ok false => .ok none
  | .ok true => (walkForReconcile config directory disk depth).map some

end Directory

def inDepth (root path : Path) : Option Nat → Bool
  | none => true
  | some limit => (path.stripPrefix root).any (·.length ≤ limit)

def ignoredBy (matcher : Option IgnoreMatcher) (path : Path) (directoryLike : Bool) : Bool :=
  matcher.any (·.isIgnored path directoryLike)

def entryFromWalked (walked : WalkedEntry) (parentId : Option EntryId)
    (repositoryIgnore excludes : Option IgnoreMatcher) : Entry :=
  { id := 0
    parentId
    name := walked.name
    kind := walked.kind
    size := walked.size
    mtimeMs := walked.mtimeMs
    ctimeMs := walked.ctimeMs
    symlinkTargetIsDir := walked.symlinkTargetIsDir
    pathSegments := none
    isIgnored := ignoredBy repositoryIgnore walked.path walked.directoryLike
    isReadonly := walked.isReadonly
    isHidden := walked.isHidden
    isExcluded := ignoredBy excludes walked.path walked.directoryLike }

/-- Runs a step on every item until one fails, keeping what was done before. -/
def applyEach {ω : Type} (step : EntryStore → ω → Except FxError ReconcileOutcome × EntryStore) :
    EntryStore → ReconcileOutcome → List ω → Except FxError ReconcileOutcome × EntryStore
  | store, out, [] => (.ok out, store)
  | store, out, item :: rest =>
    match step store item with
    | (.error error, next) => (.error error, next)
    | (.ok change, next) => applyEach step next (out.merge change) rest

namespace EntryStore

variable (store : EntryStore)

/-- `directory` is gone: a workspace root stays as an unavailable record. -/
def forgetDirectory (config : WatchConfig) (directory : Path) :
    Except FxError ReconcileOutcome × EntryStore :=
  match store.getByPath directory with
  | none => (.ok .empty, store)
  | some entry =>
    if entry.parentId.isNone && config.roots.any (· = directory) then
      match store.markRootUnavailable entry.id with
      | (.error error, next) => (.error error, next)
      | (.ok (_, removed), next) => (.ok ⟨{entry.id} ∪ removed.toFinset, {entry.id}⟩, next)
    else
      let (removed, next) := store.removeSubtree entry.id
      (.ok ⟨(removed.map (·.id)).toFinset, entry.parentId.toFinset⟩, next)

/-- Removes one known path that the listing does not have. -/
def removeMissing (missing : Path × EntryId) : Except FxError ReconcileOutcome × EntryStore :=
  if (store.getByPath missing.1).isNone then (.ok .empty, store)
  else
    let parent := (store.getById missing.2).bind (·.parentId)
    let (removed, next) := store.removeSubtree missing.2
    (.ok ⟨(removed.map (·.id)).toFinset, parent.toFinset⟩, next)

/-- The known paths in reach of a listing that it does not have, shallow ones first. -/
def missingPaths (directory : Path) (depth : Option Nat) (diskPaths : List Path)
    (unread : List (Path × ReadFailure)) : List (Path × EntryId) :=
  ((store.pathsUnder directory).filter (fun known =>
    inDepth directory known.1 depth && known.1 ∉ diskPaths &&
      !unread.any (fun dir => known.1.startsWith dir.1))).mergeSort
    (fun left right => left.1.length ≤ right.1.length)

/-- The parent of a walked entry: the known one, the walk's own, and for the walk
root, which reports none, the one its path gives. -/
def resolveParent (directory : Path) (walked : WalkedEntry) : Option EntryId :=
  ((store.getByPath walked.path).bind (·.parentId)).or
    (((walked.parentPath.bind store.getByPath).map (·.id)).or
      (if walked.path = directory then (walked.path.parent.bind store.getByPath).map (·.id)
        else none))

/-- One walked entry of the one-shot form. -/
def applyWalked (directory : Path) (repositoryIgnore excludes : Option IgnoreMatcher)
    (walked : WalkedEntry) : Except FxError ReconcileOutcome × EntryStore :=
  let parentId := store.resolveParent directory walked
  let entry := entryFromWalked walked parentId repositoryIgnore excludes
  match store.getByPath walked.path with
  | some existing =>
    if existing.kind = .directory ∧ entry.kind ≠ .directory then
      let (removed, cleared) := store.removeSubtree existing.id
      match cleared.insert walked.path entry with
      | (.error error, next) => (.error error, next)
      | (.ok id, next) =>
        (.ok ⟨(removed.map (·.id)).toFinset ∪ {id}, parentId.toFinset⟩, next)
    else
      match store.update existing.id entry with
      | (.error error, next) => (.error error, next)
      | (.ok changed, next) => (.ok ⟨if changed then {existing.id} else ∅, ∅⟩, next)
  | none =>
    match store.insert walked.path entry with
    | (.error error, next) => (.error error, next)
    | (.ok id, next) => (.ok ⟨{id}, parentId.toFinset⟩, next)

/-- Whether a listing has shown every child of a walked entry. -/
def listingComplete (directory : Path) (depth : Option Nat) (listing : DiskListing)
    (entry : WalkedEntry) : Bool :=
  !listing.unread.any (fun dir => dir.1 = entry.path) &&
    (entry.kind = .directory || entry.path = directory && entry.symlinkTargetIsDir = some true) &&
    depth.all (entry.depth < ·) &&
    (entry.path = directory ||
      !ignoredBy listing.repositoryIgnore entry.path entry.directoryLike &&
        !ignoredBy listing.excludes entry.path entry.directoryLike)

/-- The store half of `reconcile_directory`. -/
def applyDirectory (config : WatchConfig) (directory : Path) (depth : Option Nat) :
    Option DiskListing → Except FxError ReconcileOutcome × EntryStore
  | none => store.forgetDirectory config directory
  | some listing =>
    let walked := listing.walked.mergeSort (fun left right =>
      ((compare left.depth right.depth).then (compare left.path right.path)).isLE)
    let missing := store.missingPaths directory depth (walked.map (·.path)) listing.unread
    match applyEach removeMissing store .empty missing with
    | (.error error, next) => (.error error, next)
    | (.ok out, cleared) =>
      match applyEach (fun store walked =>
        store.applyWalked directory listing.repositoryIgnore listing.excludes walked) cleared out walked with
      | (.error error, next) => (.error error, next)
      | (.ok out, merged) =>
        let completedIds := (walked.filter (listingComplete directory depth listing)).filterMap
          (fun entry => (merged.getByPath entry.path).map (·.id))
        match merged.markDirectoriesChildrenLoaded completedIds with
        | (.error error, next) => (.error error, next)
        | (.ok newlyLoaded, next) => (.ok (out.merge ⟨∅, newlyLoaded.toFinset⟩), next)

def reconcileDirectory (config : WatchConfig) (directory : Path) (disk : Disk directory)
    (depth : Option Nat) : Except FxError ReconcileOutcome × EntryStore :=
  match readDirectory config directory disk depth with
  | .error error => (.error error, store)
  | .ok listing => store.applyDirectory config directory depth listing

/-- The loop of `apply_walked_batch`: updates and removals happen at once,
additions wait, and parents are looked up in the store without them. -/
def collectBatch (directory : Path) (repositoryIgnore excludes : Option IgnoreMatcher) :
    EntryStore → ReconcileOutcome → List (Path × Entry) → List WalkedEntry →
      Except FxError (ReconcileOutcome × List (Path × Entry)) × EntryStore
  | store, out, additions, [] => (.ok (out, additions), store)
  | store, out, additions, walked :: rest =>
    let parentId := store.resolveParent directory walked
    let entry := entryFromWalked walked parentId repositoryIgnore excludes
    match store.getByPath walked.path with
    | some existing =>
      if existing.kind = .directory ∧ entry.kind ≠ .directory then
        let (removed, cleared) := store.removeSubtree existing.id
        collectBatch directory repositoryIgnore excludes cleared
          (out.merge ⟨(removed.map (·.id)).toFinset, parentId.toFinset⟩)
          (additions ++ [(walked.path, entry)]) rest
      else
        match store.update existing.id entry with
        | (.error error, next) => (.error error, next)
        | (.ok changed, next) =>
          collectBatch directory repositoryIgnore excludes next
            (out.merge ⟨if changed then {existing.id} else ∅, ∅⟩) additions rest
    | none =>
      collectBatch directory repositoryIgnore excludes store (out.merge ⟨∅, parentId.toFinset⟩)
        (additions ++ [(walked.path, entry)]) rest

def applyWalkedBatch (directory : Path) (repositoryIgnore excludes : Option IgnoreMatcher)
    (walked : List WalkedEntry) : Except FxError ReconcileOutcome × EntryStore :=
  match collectBatch directory repositoryIgnore excludes store .empty [] walked with
  | (.error error, next) => (.error error, next)
  | (.ok (out, additions), collected) =>
    match collected.insertBatch additions with
    | (.error error, next) => (.error error, next)
    | (.ok ids, next) => (.ok (out.merge ⟨ids.toFinset, ∅⟩), next)

end EntryStore

/-- The pages the batches of a walk are published in: a page is full once it
reaches a target that doubles up to a ceiling. A failed walk keeps the unfilled one. -/
def publicationPages (ceiling : Nat) (failed : Bool) :
    List WalkedEntry → Nat → List (List WalkedEntry) → List (List WalkedEntry)
  | pending, _, [] => if pending.isEmpty || failed then [] else [pending]
  | pending, target, batch :: rest =>
    let pending := pending ++ batch
    if pending.length ≥ target then
      pending :: publicationPages ceiling failed [] (min (target * 2) ceiling) rest
    else publicationPages ceiling failed pending target rest

/-- The pages of one progressive listing. -/
def progressivePages (batchSize : Nat) (report : WalkReport) : List (List WalkedEntry) :=
  publicationPages (min (batchSize * 16) 4096) report.failure.isSome [] batchSize
    (walkBatches batchSize report)

namespace EntryStore

variable (store : EntryStore) (config : WatchConfig) (directory : Path) (disk : Disk directory)

/-- The part of a progressive listing before its end: `cancelledAfter` pages are
published before a cancellation is seen. The result carries the listed paths. -/
def publishPages (batchSize : Nat) (cancelledAfter : Option Nat) :
    Except FxError (ReconcileOutcome × List Path) × EntryStore :=
  match buildReconcileMatchers config directory disk with
  | .error error => (.error error, store)
  | .ok matchers =>
    let report := walkCore (reconcileWalk config (some 1) matchers.traversal) directory disk.stat disk.read
    let pages := progressivePages batchSize report
    match applyEach (fun store page =>
        store.applyWalkedBatch directory matchers.repositoryIgnore matchers.excludes page)
      store .empty (cancelledAfter.elim pages pages.take) with
    | (.error error, next) => (.error error, next)
    | (.ok out, next) =>
      match cancelledAfter, report.failure with
      | some _, _ => (.error .cancelled, next)
      | none, some error => (.error error, next)
      | none, none => (.ok (out, report.entries.map (·.path)), next)

/-- The end of a progressive listing: only now do missing children go, and the
directory is marked as listed. -/
def finishListing (out : ReconcileOutcome) (diskPaths : List Path) :
    Except FxError ReconcileOutcome × EntryStore :=
  match applyEach removeMissing store out (store.missingPaths directory (some 1) diskPaths []) with
  | (.error error, next) => (.error error, next)
  | (.ok out, cleared) =>
    match cleared.getByPath directory with
    | none => (.ok out, cleared)
    | some root =>
      match cleared.markDirectoryChildrenLoaded root.id with
      | (.error error, next) => (.error error, next)
      | (.ok loaded, next) => (.ok (out.merge ⟨∅, if loaded then {root.id} else ∅⟩), next)

def reconcileDirectoryProgressive (batchSize : Nat) (cancelledAfter : Option Nat) :
    Except FxError ReconcileOutcome × EntryStore :=
  match probeExists directory disk.stat with
  | .error error => (.error error, store)
  | .ok false => store.reconcileDirectory config directory disk (some 1)
  | .ok true =>
    match store.publishPages config directory disk batchSize cancelledAfter with
    | (.error error, next) => (.error error, next)
    | (.ok (out, diskPaths), next) => next.finishListing directory out diskPaths

end EntryStore

/-- The order `apply_directory` works in: shallow entries first, then by path. -/
def walkedOrder (left right : WalkedEntry) : Bool :=
  ((compare left.depth right.depth).then (compare left.path right.path)).isLE

/-- The parent path a walk reports is the one its path gives, or none. -/
def WalkedEntry.Reported (walked : WalkedEntry) : Prop :=
  walked.parentPath = none ∨ walked.parentPath = walked.path.parent

end Mille
