import Mille.Drive.Catalog

/-! Garbage collection of a drive among the calls of other threads. Each section
under a lock and each file operation is one step; a call that needs several keeps
what it has read between them. -/

namespace Mille.Drive

open Std Mille.Bincode

/-- The folder an object lies in: its first byte. -/
def shardOf (digest : Blake3) : Nat :=
  digest.toNat / 2 ^ 248

structure GcOptions where
  dryRun : Bool
  keep : List VersionKey

/-- How far a collection has come after it read the catalog. -/
inductive GcPhase where
  /-- `built_versions` reads the item folders next. -/
  | cataloged
  /-- Item folders still to read, and the built versions found. -/
  | reading (folders : List String) (found : List VersionKey)
  /-- The retained set is complete; the shards of `objects/` are read next. -/
  | gathered (retained : ExtTreeMap Blake3 UInt64)
  /-- Shards still to read, and the objects found. -/
  | listing (retained : ExtTreeMap Blake3 UInt64) (shards : List Nat) (found : List Blake3)
  /-- Objects still to pass. -/
  | removing (retained : ExtTreeMap Blake3 UInt64) (objects : List Blake3)

structure GcTask where
  options : GcOptions
  items : Items
  phase : GcPhase

/-- `add_version` after its arguments were accepted. -/
structure AddTask where
  item : String
  files : List FileEntry
  makeCurrent : Bool
  /-- Files whose objects are still to be checked. -/
  unchecked : List FileEntry

/-- `set_attachment` after its object was found held. -/
structure AttachTask where
  item : String
  version : String
  name : String
  object : Option ObjectRef

/-- `build` after it found what to build: the files still to link. -/
structure BuildTask where
  key : VersionKey
  unlinked : List FileEntry

/-- An object that was removed, with what the drive was at that moment. -/
structure Unlinked where
  digest : Blake3
  doc : DocState
  built : List VersionKey
  keep : List VersionKey

/-- An `add_version` that returned a version made current, with the objects at that moment. -/
structure Recorded where
  files : List FileEntry
  objects : ExtTreeMap Blake3 UInt64

structure DriveState where
  doc : DocState
  /-- The objects on disk and their sizes. -/
  objects : ExtTreeMap Blake3 UInt64
  /-- The folders under `objects/`. -/
  shards : List Nat
  built : List VersionKey
  /-- The item folders under `built/`. -/
  folders : List String
  gcs : List GcTask
  adds : List AddTask
  attachments : List AttachTask
  builds : List BuildTask
  unlinked : List Unlinked
  recorded : List Recorded

namespace DriveState

def initial : DriveState :=
  ⟨.empty, {}, [], [], [], [], [], [], [], [], []⟩

variable (toLowercase : String → String) (hash : Bytes → Blake3) (hold : HoldPolicy)

def catalogOf (state : DriveState) : Items :=
  catalog toLowercase hash state.doc

def has (state : DriveState) (digest : Blake3) : Bool :=
  state.objects[digest]?.isSome

/-- An object of the given size is held. -/
def checkHeld (state : DriveState) (digest : Blake3) (bytes : UInt64) : Bool :=
  state.objects[digest]? = some bytes

/-- A staged file becomes an object, unless it is one already. -/
def publish (state : DriveState) (digest : Blake3) (bytes : UInt64) : DriveState :=
  if state.has digest then state
  else { state with
    objects := state.objects.insert digest bytes
    shards := if shardOf digest ∈ state.shards then state.shards else state.shards ++ [shardOf digest] }

/-- What a `mutate` whose change could not be saved leaves is the document before it. -/
def mutate (state : DriveState) (saved : Bool) (next : DocState) : DriveState :=
  if saved then { state with doc := next } else state

def putVersion (doc : DocState) (item id : String) (record : VersionRecord) : DocState :=
  let key := item ++ "/" ++ id
  if doc.versions.contains key then doc else { doc with versions := doc.versions.insert key (some record) }

def setCurrentIn (doc : DocState) (item version : String) : DocState :=
  { doc with current := doc.current.insert item version }

def findVersion (items : Items) (item version : String) : Option VersionView :=
  (items[item]?).bind (·.version version)

/-- The write of `add_version`. -/
def addIn (doc : DocState) (task : AddTask) (createdAt : UInt64) : DocState :=
  let id := versionId hash task.files
  let doc := putVersion doc task.item id ⟨task.files, createdAt⟩
  if task.makeCurrent then setCurrentIn doc task.item id else doc

/-- The write of `set_current`, unless it is refused. -/
def setCurrent (state : DriveState) (item version : String) : Option DocState :=
  if isValidItemId item && isValidVersionId version then
    match findVersion (state.catalogOf toLowercase hash) item version with
    | none => none
    | some view => if view.quarantined then none else some (setCurrentIn state.doc item version)
  else none

/-- The write of `set_kept`, unless it is refused. -/
def setKept (state : DriveState) (item : String) (kept : Bool) : Option DocState :=
  if isValidItemId item then
    match (state.catalogOf toLowercase hash)[item]? with
    | none => none
    | some view => if view.versions = [] then none else some { state.doc with kept := state.doc.kept.insert item kept }
  else none

/-- The write of `set_attachment`, unless it is refused. -/
def setAttachment (state : DriveState) (task : AttachTask) : Option DocState :=
  match findVersion (state.catalogOf toLowercase hash) task.item task.version with
  | none => none
  | some _ =>
    let key := task.item ++ "/" ++ task.version ++ "/" ++ task.name
    some { state.doc with attachments := match task.object with
      | some object => state.doc.attachments.insert key (some object)
      | none => state.doc.attachments.erase key }

/-- One step of a collection; `pick` says which folder or shard is read. `none`: it has returned. -/
def stepGc (state : DriveState) (task : GcTask) (pick : Nat) : Option GcTask × DriveState :=
  match task.phase with
  | .cataloged => (some { task with phase := .reading (state.folders.filter isValidItemId) [] }, state)
  | .reading folders found =>
    match folders[pick]? with
    | some folder =>
      let versions := state.built.filter fun key => key.item = folder && isValidVersionId key.version
      (some { task with phase := .reading (folders.eraseIdx pick) (found ++ versions) }, state)
    | none =>
      if folders = [] then
        let retained := retainKeys task.items (found ++ task.options.keep) (retainedByPolicy task.items hold)
        (some { task with phase := .gathered retained }, state)
      else (some task, state)
  | .gathered retained => (some { task with phase := .listing retained state.shards [] }, state)
  | .listing retained shards found =>
    match shards[pick]? with
    | some shard =>
      let inShard := state.objects.keys.filter fun digest => shardOf digest = shard
      (some { task with phase := .listing retained (shards.eraseIdx pick) (found ++ inShard) }, state)
    | none =>
      if shards = [] then
        (some { task with phase := .removing retained (found.insertionSort (· ≤ ·)) }, state)
      else (some task, state)
  | .removing _ [] => (none, state)
  | .removing retained (digest :: rest) =>
    if retained.contains digest || task.options.dryRun then
      (some { task with phase := .removing retained rest }, state)
    else if state.has digest then
      (some { task with phase := .removing retained rest },
        { state with
          objects := state.objects.erase digest
          unlinked := state.unlinked ++ [⟨digest, state.doc, state.built, task.options.keep⟩] })
    -- Removed by somebody else: an error ends the collection.
    else (none, state)

/-- One step of `add_version`: the next object is checked, or the document is written. -/
def stepAdd (state : DriveState) (task : AddTask) (createdAt : UInt64) (saved : Bool) : Option AddTask × DriveState :=
  match task.unchecked with
  | file :: rest =>
    if state.checkHeld file.blake3 file.bytes then (some { task with unchecked := rest }, state) else (none, state)
  | [] =>
    let next := state.mutate saved (addIn hash state.doc task createdAt)
    (none, if saved && task.makeCurrent then
      { next with recorded := next.recorded ++ [⟨task.files, next.objects⟩] } else next)

/-- One step of `build`: the next file is linked, or the tree is renamed into place. -/
def stepBuild (state : DriveState) (task : BuildTask) : Option BuildTask × DriveState :=
  match task.unlinked with
  | file :: rest => (if state.has file.blake3 then some { task with unlinked := rest } else none, state)
  | [] => (none, if task.key ∈ state.built then state else { state with built := state.built ++ [task.key] })

/-- What `build` reads before it links: the files of a version that is neither unknown nor quarantined. -/
def buildable (state : DriveState) (item version : String) : Option (List FileEntry) :=
  if isValidItemId item && isValidVersionId version then
    match findVersion (state.catalogOf toLowercase hash) item version with
    | none => none
    | some view => if view.quarantined then none else some view.files
  else none

/-- Removes a build, and its item's folder when that is empty now: a build in progress is inside it too. -/
def unbuild (state : DriveState) (item version : String) : DriveState :=
  if isValidItemId item && isValidVersionId version then
    let built := state.built.filter (· ≠ ⟨item, version⟩)
    { state with
      built := built
      folders := if built.any (·.item = item) || state.builds.any (·.key.item = item) then state.folders else state.folders.filter (· ≠ item) }
  else state

inductive DriveEvent where
  /-- `gc` reads the catalog. -/
  | gc (options : GcOptions)
  | stepGc (index pick : Nat)
  | addVersion (item : String) (files : List FileEntry) (makeCurrent : Bool)
  | stepAdd (index : Nat) (createdAt : UInt64) (saved : Bool)
  | setCurrent (item version : String) (saved : Bool)
  | setKept (item : String) (kept saved : Bool)
  /-- `set_attachment` checks its object; the write follows. -/
  | attach (item version name : String) (object : Option ObjectRef)
  | stepAttach (index : Nat) (saved : Bool)
  /-- `import_updates`, with the document the merge gives. -/
  | importUpdates (next : DocState) (saved : Bool)
  /-- `put_file`, `put_bytes` or the `admit` of `sync_pulled`. -/
  | publish (digest : Blake3) (bytes : UInt64)
  | build (item version : String)
  | stepBuild (index : Nat)
  | unbuild (item version : String)

/-- A task goes on or is over. -/
def settle {τ : Type} (tasks : List τ) (index : Nat) : Option τ → List τ
  | none => tasks.eraseIdx index
  | some task => tasks.set index task

def step (state : DriveState) : DriveEvent → DriveState
  | .gc options => { state with gcs := state.gcs ++ [⟨options, state.catalogOf toLowercase hash, .cataloged⟩] }
  | .stepGc index pick =>
    match state.gcs[index]? with
    | none => state
    | some task =>
      let (left, next) := state.stepGc hold task pick
      { next with gcs := settle state.gcs index left }
  | .addVersion item files makeCurrent =>
    if isValidItemId item && validManifest toLowercase files then
      { state with adds := state.adds ++ [⟨item, files, makeCurrent, files⟩] }
    else state
  | .stepAdd index createdAt saved =>
    match state.adds[index]? with
    | none => state
    | some task =>
      let (left, next) := state.stepAdd hash task createdAt saved
      { next with adds := settle state.adds index left }
  | .setCurrent item version saved =>
    match state.setCurrent toLowercase hash item version with
    | none => state
    | some next => state.mutate saved next
  | .setKept item kept saved =>
    match state.setKept toLowercase hash item kept with
    | none => state
    | some next => state.mutate saved next
  | .attach item version name object =>
    if isValidItemId item && isValidVersionId version && isValidName name &&
        object.all (fun object => state.checkHeld object.blake3 object.bytes) then
      { state with attachments := state.attachments ++ [⟨item, version, name, object⟩] }
    else state
  | .stepAttach index saved =>
    match state.attachments[index]? with
    | none => state
    | some task =>
      let dropped := { state with attachments := state.attachments.eraseIdx index }
      match state.setAttachment toLowercase hash task with
      | none => dropped
      | some next => dropped.mutate saved next
  | .importUpdates next saved => state.mutate saved next
  | .publish digest bytes => state.publish digest bytes
  | .build item version =>
    match state.buildable toLowercase hash item version with
    | none => state
    | some files =>
      if ⟨item, version⟩ ∈ state.built then state
      else { state with
        folders := if item ∈ state.folders then state.folders else state.folders ++ [item]
        builds := state.builds ++ [⟨⟨item, version⟩, files⟩] }
  | .stepBuild index =>
    match state.builds[index]? with
    | none => state
    | some task =>
      let (left, next) := state.stepBuild task
      { next with builds := settle state.builds index left }
  | .unbuild item version => state.unbuild item version

end DriveState

end Mille.Drive
