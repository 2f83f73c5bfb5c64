import Mille.Core.Walker
import Mille.Host.Boundary
import Mille.Remote.Protocol

/-! The mutations and calls a host accepts from a session: the checks made before
an operation is dispatched, and the filesystem paths the explorer then works on. -/

namespace Mille

open Remote

/-- What the filesystem answers while an operation looks at it. -/
structure DiskView where
  canonicalize : Path → Except ErrorCode Path
  /-- `symlink_metadata`: a link is reported as a link. -/
  symlinkMetadata : Path → Except ErrorCode FileType
  metadata : Path → Except ErrorCode FileType
  /-- The names of a directory, as `to_string_lossy` spells them. -/
  readDir : Path → Except ErrorCode (List String)

/-- A path an operation works on. -/
structure Touch where
  /-- The entry that names the path; its workspace root is the one that counts. -/
  named : Option EntryId
  /-- `none` for a path that is relative to the working directory. -/
  path : Option Path
  /-- Whether the operation opens the path as a directory. -/
  entered : Bool
deriving DecidableEq

inductive CollisionPolicy where
  | error | rename | overwrite | skip | merge
deriving DecidableEq

inductive DestAction where
  | create | overwrite | skip | merge
deriving DecidableEq

structure DestResolution where
  name : String
  path : Path
  action : DestAction
deriving DecidableEq

structure TransferOptions where
  crossRoot : Option Bool
  collision : Option String
deriving DecidableEq

def kindFromU8 : Nat → Except FxError EntryKind
  | 0 => .ok .file
  | 1 => .ok .directory
  | kind => .error (.invalidInput [.text "create() kind must be 0 (File) or 1 (Directory), got ", .count kind])

/-- Rejects names that are not one entry of a directory. -/
def validateEntryName (name : String) : Except FxError Unit :=
  if name = "" ∨ name = "." ∨ name = ".." then
    .error (.invalidInput [.text "invalid destination name: ", .text name])
  else if '/' ∈ name.toList ∨ '\\' ∈ name.toList ∨ '\x00' ∈ name.toList then
    .error (.invalidInput [.text "destination name must be a single path component: ", .text name])
  else if ':' ∈ name.toList then
    .error (.invalidInput [.text "destination name must be a single path component: ", .text name])
  else .ok ()

def transferPolicy (options : Option TransferOptions) : Except FxError (Bool × CollisionPolicy) :=
  let crossRoot := (options.bind (·.crossRoot)).getD false
  match options.bind (·.collision) with
  | none | some "error" => .ok (crossRoot, .error)
  | some "rename" => .ok (crossRoot, .rename)
  | some "overwrite" => .ok (crossRoot, .overwrite)
  | some "skip" => .ok (crossRoot, .skip)
  | some "merge" => .ok (crossRoot, .merge)
  | some other => .error (.invalidInput [.text "unsupported collision policy: ", .text other])

/-- The longest configured root at or above a path; among equals the last one. -/
def configuredRootForPath (roots : List Path) (path : Path) : Option Path :=
  (roots.filter (fun root => path.startsWith root)).foldl (fun best root =>
    match best with
    | none => some root
    | some found => if found.length ≤ root.length then some root else some found) none

/-- The components of an absolute path as a string spells it. -/
def Path.parse (text : String) : Option Path :=
  if text.toList.head? = some '/' then
    some ((text.toList.splitOn '/').filterMap fun part =>
      if part = [] ∨ part = ['.'] then none
      else if part = ['.', '.'] then some .parentDir
      else some (.normal (.utf8 (String.ofList part))))
  else none

/-- Climbs with every `..`; `none` above the root directory. -/
def Path.normalize (path : Path) : Option Path :=
  path.foldlM (fun (front : Path) component =>
    match component with
    | .parentDir => front.parent
    | .normal name => some (front.push name)) []

/-- `join_under_root`: the store's spelling of a destination that lies under the root. -/
def joinUnderRoot (storeParent parentCanon : Path) (name : String) (rootCanon : Path) : Except FxError Path :=
  match validateEntryName name with
  | .error error => .error error
  | .ok () =>
    let storeDest := storeParent.push (.utf8 name)
    match storeDest.normalize with
    | none => .error (.invalidInput [.text "destination path escapes its parent"])
    | some normalized =>
      let physical := parentCanon.push (.utf8 name)
      if physical.startsWith rootCanon then
        if normalized.startsWith storeParent ∨ normalized = storeDest then .ok storeDest
        else .error (.invalidInput [.text "destination path escapes its parent"])
      else .error (.invalidInput [.text "destination ", .path physical, .text " is not under workspace root ",
        .path rootCanon])

namespace DiskView

variable (disk : DiskView)

/-- `assert_parent_contained`: the canonical parent and root of a destination. -/
def assertParentContained (parent root : Path) : Except FxError (Path × Path) :=
  match disk.canonicalize parent with
  | .error code => .error (.io code parent)
  | .ok parentCanon =>
    match disk.canonicalize root with
    | .error code => .error (.io code root)
    | .ok rootCanon =>
      if parentCanon.startsWith rootCanon then .ok (parentCanon, rootCanon)
      else .error (.invalidInput [.text "destination parent ", .path parentCanon,
        .text " escapes workspace root ", .path rootCanon])

def pathsEqual (left right : Path) : Bool :=
  left = right ||
    match disk.canonicalize left, disk.canonicalize right with
    | .ok first, .ok second => first = second
    | _, _ => false

/-- `path_is_self_or_descendant`. -/
def isSelfOrDescendant (child ancestor : Path) : Bool :=
  child.startsWith ancestor ||
    match disk.canonicalize child, disk.canonicalize ancestor with
    | .ok low, .ok top => low.startsWith top
    | .error _, .ok top =>
      match child.parent.bind (fun parent => (disk.canonicalize parent).toOption) with
      | some parent => (parent ++ child.getLast?.toList).startsWith top
      | none => false
    | _, _ => false

def eqIgnoreAsciiCase (left right : String) : Bool :=
  left.toList.map Char.toLower = right.toList.map Char.toLower

/-- `find_case_conflict`: a name of the directory that differs by case alone. -/
def findCaseConflict (parent : Path) (desired : String) : Except FxError (Option String) :=
  match disk.readDir parent with
  | .error .enoent => .ok none
  | .error code => .error (.io code parent)
  | .ok names => .ok (names.find? fun name => name ≠ desired && eqIgnoreAsciiCase name desired)

/-- A name split at its last dot, unless the dot starts it. -/
def stemAndExtension (name : String) : String × Option String :=
  match name.toList.reverse.span (· ≠ '.') with
  | (_, []) => (name, none)
  | (_, [_]) => (name, none)
  | (last, _ :: front) => (String.ofList front.reverse, some (String.ofList last.reverse))

def candidateName (name : String) (suffix : Nat) : String :=
  let copySuffix := if suffix = 1 then " copy" else " copy " ++ toString suffix
  match stemAndExtension name with
  | (stem, some extension) => stem ++ copySuffix ++ "." ++ extension
  | (stem, none) => stem ++ copySuffix

/-- The first suffix that is free, among the ones that are left to try. -/
def allocateSuffix (parent : Path) (desired : String) : Nat → Nat → Except FxError DestResolution
  | 0, _ => .error (.invalidInput [.text "could not allocate a collision-free destination name"])
  | left + 1, suffix =>
    let name := candidateName desired suffix
    let candidate := parent.push (.utf8 name)
    match disk.symlinkMetadata candidate with
    | .error .enoent =>
      match disk.findCaseConflict parent name with
      | .error error => .error error
      | .ok (some _) => allocateSuffix parent desired left (suffix + 1)
      | .ok none => .ok ⟨name, candidate, .create⟩
    | .error code => .error (.io code candidate)
    | .ok _ => allocateSuffix parent desired left (suffix + 1)

/-- `resolve_transfer_destination` once the name that is taken is known. -/
def resolveCollision (parent : Path) (desired taken : String) : CollisionPolicy → Except FxError DestResolution
  | .error => .error (.io .eexist (parent.push (.utf8 taken)))
  | .skip => .ok ⟨taken, parent.push (.utf8 taken), .skip⟩
  | .overwrite => .ok ⟨taken, parent.push (.utf8 taken), .overwrite⟩
  | .merge =>
    let existing := parent.push (.utf8 taken)
    match disk.symlinkMetadata existing with
    | .error code => .error (.io code existing)
    | .ok found =>
      let isDir := found = .dir ∨ found = .symlink ∧ disk.metadata existing = .ok .dir
      .ok ⟨taken, existing, if isDir then .merge else .overwrite⟩
  | .rename => disk.allocateSuffix parent desired 10000 1

def resolveTransferDestination (parent : Path) (desired : String) (collision : CollisionPolicy) :
    Except FxError DestResolution :=
  match disk.findCaseConflict parent desired with
  | .error error => .error error
  | .ok caseConflict =>
    let path := parent.push (.utf8 desired)
    match disk.symlinkMetadata path with
    | .error .enoent =>
      match caseConflict with
      | none => .ok ⟨desired, path, .create⟩
      | some actual => disk.resolveCollision parent desired actual collision
    | .error code => .error (.io code path)
    | .ok _ => disk.resolveCollision parent desired desired collision

end DiskView

/-- The native explorer behind a host. -/
structure Explorer where
  store : EntryStore
  /-- The configured workspace roots. -/
  roots : List Path

namespace Explorer

variable (explorer : Explorer) (disk : DiskView)

def resolveEntryPath (label : String) (id : EntryId) : Except FxError Path :=
  match explorer.store.pathForId id with
  | none => .error (.invalidInput [.text label, .id id, .text " not found in snapshot"])
  | some path => .ok path

def create (parentId : EntryId) (name : String) (kind : Nat) : Except FxError (List Touch) := do
  let _ ← kindFromU8 kind
  let parentPath ← explorer.resolveEntryPath "parent id " parentId
  validateEntryName name
  return [⟨some parentId, some (parentPath.push (.utf8 name)), false⟩]

/-- A rename to the name the entry has already returns before it looks at the disk. -/
def rename (id : EntryId) (newName : String) : Except FxError (List Touch) := do
  let oldPath ← explorer.resolveEntryPath "id " id
  match oldPath.parent with
  | none => .error (.invalidInput [.text "cannot rename a root: id ", .id id])
  | some parentPath =>
    validateEntryName newName
    let newPath := parentPath.push (.utf8 newName)
    if newPath = oldPath then return []
    else return [⟨some id, some oldPath, false⟩, ⟨some id, some newPath, false⟩]

/-- The record of a transfer's source or destination, read after its path. -/
def requireEntry (label suffix : String) (id : EntryId) : Except FxError Entry :=
  match explorer.store.getById id with
  | none => .error (.invalidInput [.text label, .id id, .text suffix])
  | some entry => .ok entry

def requireFolder (what : String) (parent : Entry) : Except FxError Unit :=
  if parent.isFolder then .ok ()
  else .error (.invalidInput [.text what, .text " destination is not a directory"])

def requireRoot (message : String) : Option Path → Except FxError Path
  | none => .error (.invalidInput [.text message])
  | some root => .ok root

/-- The destination a transfer takes, checked again once a collision has changed its name. -/
def takeDestination (newParentPath parentCanon rootCanon : Path) (desiredName : String)
    (collision : CollisionPolicy) : Except FxError DestResolution := do
  let dest ← disk.resolveTransferDestination newParentPath desiredName collision
  let _ ← joinUnderRoot newParentPath parentCanon dest.name rootCanon
  return dest

def moveEntry (id newParentId : EntryId) (newName : Option String) (options : Option TransferOptions) :
    Except FxError (List Touch) := do
  let (allowCrossRoot, collision) ← transferPolicy options
  let oldPath ← explorer.resolveEntryPath "id " id
  let newParentPath ← explorer.resolveEntryPath "new_parent id " newParentId
  let source ← explorer.requireEntry "id " " vanished mid-move" id
  if source.parentId = none then .error (.invalidInput [.text "workspace roots cannot be moved"])
  let parent ← explorer.requireEntry "new_parent id " " vanished mid-move" newParentId
  requireFolder "move" parent
  if source.kind = .directory ∧ newParentPath.startsWith oldPath then
    .error (.invalidInput [.text "cannot move a directory into its own subtree"])
  let sourceRoot := configuredRootForPath explorer.roots oldPath
  let destinationRoot := configuredRootForPath explorer.roots newParentPath
  if sourceRoot ≠ destinationRoot ∧ ¬ allowCrossRoot then
    .error (.unsupported [.text "cross-root move requires \x7b crossRoot: true \x7d"])
  let desiredName := newName.getD ((oldPath.fileName.bind OsString.toStr).getD "")
  let root ← requireRoot "move destination is not under a configured root" destinationRoot
  let (parentCanon, rootCanon) ← disk.assertParentContained newParentPath root
  let desired ← joinUnderRoot newParentPath parentCanon desiredName rootCanon
  if disk.pathsEqual desired oldPath then
    return [⟨some id, some oldPath, false⟩, ⟨some newParentId, some desired, false⟩]
  let dest ← takeDestination disk newParentPath parentCanon rootCanon desiredName collision
  return [⟨some id, some oldPath, false⟩, ⟨some newParentId, some desired, false⟩,
    ⟨some newParentId, some dest.path, false⟩]

/-- The entry's own path; a soft delete moves it into the recycle directory the host manages. -/
def delete (id : EntryId) (trash recursive : Option Bool) : Except FxError (List Touch) := do
  let path ← explorer.resolveEntryPath "id " id
  let entry ← explorer.requireEntry "id " " vanished mid-delete" id
  if entry.parentId = none then .error (.invalidInput [.text "workspace roots cannot be deleted"])
  if entry.isFolder ∧ explorer.store.inner.childrenOf id ≠ [] ∧ ¬ recursive.getD false then
    .error (.unsupported [.text "delete of non-empty directory ", .path path, .text " requires recursive: true"])
  if trash.getD true then
    let _ ← requireRoot "delete path is not under a configured root" (configuredRootForPath explorer.roots path)
    return [⟨some id, some path, false⟩]
  return [⟨some id, some path, false⟩]

def copy (id newParentId : EntryId) (newName : Option String) (options : Option TransferOptions) :
    Except FxError (List Touch) := do
  let (allowCrossRoot, collision) ← transferPolicy options
  let srcPath ← explorer.resolveEntryPath "id " id
  let newParentPath ← explorer.resolveEntryPath "new_parent id " newParentId
  let source ← explorer.requireEntry "id " " vanished mid-copy" id
  let parent ← explorer.requireEntry "new_parent id " " vanished mid-copy" newParentId
  requireFolder "copy" parent
  let sourceRoot := configuredRootForPath explorer.roots srcPath
  let destinationRoot := configuredRootForPath explorer.roots newParentPath
  if sourceRoot ≠ destinationRoot ∧ ¬ allowCrossRoot then
    .error (.unsupported [.text "cross-root copy requires \x7b crossRoot: true \x7d"])
  let desiredName := newName.getD source.name
  let root ← requireRoot "copy destination is not under a configured root" destinationRoot
  let (parentCanon, rootCanon) ← disk.assertParentContained newParentPath root
  let _ ← joinUnderRoot newParentPath parentCanon desiredName rootCanon
  let dest ← takeDestination disk newParentPath parentCanon rootCanon desiredName collision
  if disk.pathsEqual dest.path srcPath then
    .error (.invalidInput [.text "cannot copy a path onto itself"])
  if dest.action ≠ .skip ∧ source.kind = .directory ∧ disk.isSelfOrDescendant dest.path srcPath then
    .error (.invalidInput [.text "cannot copy a directory into itself or a descendant"])
  return [⟨some id, some srcPath, false⟩, ⟨some newParentId, some dest.path, false⟩]

def copyFromPath (sourcePath : String) (newParentId : EntryId) (newName : Option String)
    (options : Option TransferOptions) : Except FxError (List Touch) := do
  match Path.parse sourcePath with
  | none => .error (.invalidInput [.text "copyFromPath source must be absolute: ", .text sourcePath])
  | some srcPath =>
    let (_, collision) ← transferPolicy options
    let newParentPath ← explorer.resolveEntryPath "new_parent id " newParentId
    let parent ← explorer.requireEntry "new_parent id " " vanished mid-copyFromPath" newParentId
    requireFolder "copyFromPath" parent
    let root ← requireRoot "copyFromPath destination is not under a configured root"
      (configuredRootForPath explorer.roots newParentPath)
    match disk.symlinkMetadata srcPath with
    | .error code => .error (.io code srcPath)
    | .ok found =>
      let desiredName := newName.getD ((srcPath.fileName.bind OsString.toStr).getD "imported")
      validateEntryName desiredName
      let (parentCanon, rootCanon) ← disk.assertParentContained newParentPath root
      let _ ← joinUnderRoot newParentPath parentCanon desiredName rootCanon
      let dest ← takeDestination disk newParentPath parentCanon rootCanon desiredName collision
      if disk.pathsEqual dest.path srcPath then
        .error (.invalidInput [.text "cannot copy a path onto itself"])
      if (found = .dir ∨ found = .symlink) ∧ disk.metadata srcPath = .ok .dir ∧
          disk.isSelfOrDescendant dest.path srcPath then
        .error (.invalidInput [.text "cannot copy a directory into itself or a descendant"])
      return [⟨none, some srcPath, false⟩, ⟨some newParentId, some dest.path, false⟩]

def probeDestination (parentId : EntryId) (name : String) : Except FxError (List Touch) := do
  let parentPath ← explorer.resolveEntryPath "parent id " parentId
  let root ← requireRoot "probeDestination parent is not under a configured root"
    (configuredRootForPath explorer.roots parentPath)
  validateEntryName name
  let (parentCanon, rootCanon) ← disk.assertParentContained parentPath root
  let desired ← joinUnderRoot parentPath parentCanon name rootCanon
  return [⟨some parentId, some desired, false⟩]

def readFile (id : EntryId) : Except FxError (List Touch) := do
  let path ← explorer.resolveEntryPath "id " id
  return [⟨some id, some path, false⟩]

def readText (id : EntryId) (encoding : Option String) : Except FxError (List Touch) := do
  let path ← explorer.resolveEntryPath "id " id
  let enc := String.ofList ((encoding.getD "utf-8").toList.map Char.toLower)
  if enc ≠ "utf-8" ∧ enc ≠ "utf8" then
    .error (.unsupported [.text "encoding ", .text enc, .text " not supported in v0.1 (utf-8 only)"])
  return [⟨some id, some path, false⟩]

/-- `tmp_sibling`: the name with `.mille.tmp` behind it, beside the file. -/
def tmpSibling (path : Path) : Option Path :=
  let name : OsString :=
    match path.fileName with
    | none => .utf8 ".mille.tmp"
    | some (.utf8 text) => .utf8 (text ++ ".mille.tmp")
    | some (.raw bytes) => .raw (bytes ++ ".mille.tmp".toByteArray.data.toList)
  path.parent.map (·.push name)

def writeFile (id : EntryId) (isAtomic : Option Bool) : Except FxError (List Touch) := do
  let path ← explorer.resolveEntryPath "id " id
  let _ ← explorer.requireEntry "id " " vanished mid-write" id
  if isAtomic.getD false then
    return [⟨some id, tmpSibling path, false⟩, ⟨some id, some path, false⟩]
  return [⟨some id, some path, false⟩]

/-- Directories and roots are listed themselves, anything else through its containing directory. -/
def resync (id : EntryId) : Except FxError (List Touch) := do
  let entry ← explorer.requireEntry "id " " not found in snapshot" id
  let path ← explorer.resolveEntryPath "id " id
  if entry.isFolder ∨ entry.parentId = none then return [⟨some id, some path, true⟩]
  match path.parent with
  | none => .error (.invalidInput [.text "file id ", .id id, .text " has no containing directory path"])
  | some parentPath => return [⟨some id, some parentPath, true⟩]

end Explorer

/-- A mutation as its frame names it, with the arguments it carries. -/
inductive Mutation where
  | create (parentId : EntryId) (name : String) (kind : Nat)
  | rename (id : EntryId) (newName : String)
  | move (id newParentId : EntryId) (newName : Option String) (options : Option TransferOptions)
  | delete (id : EntryId) (trash recursive : Option Bool)
  | copy (id newParentId : EntryId) (newName : Option String) (options : Option TransferOptions)
  | copyFromPath (sourcePath : String) (newParentId : EntryId) (newName : Option String)
      (options : Option TransferOptions)
  | readFile (id : EntryId)
  | readText (id : EntryId) (encoding : Option String)
  | writeFile (id : EntryId) (byteLength : Nat) (isAtomic : Option Bool)
deriving DecidableEq

namespace Mutation

def op : Mutation → String
  | create .. => "create"
  | rename .. => "rename"
  | move .. => "move"
  | delete .. => "delete"
  | copy .. => "copy"
  | copyFromPath .. => "copyFromPath"
  | readFile .. => "readFile"
  | readText .. => "readText"
  | writeFile .. => "writeFile"

/-- The arguments under `id`, `parentId` and `newParentId`. -/
def ids : Mutation → List EntryId
  | create parentId .. => [parentId]
  | rename id _ | delete id .. | readFile id | readText id _ | writeFile id .. => [id]
  | move id newParentId .. | copy id newParentId .. => [id, newParentId]
  | copyFromPath _ newParentId .. => [newParentId]

end Mutation

/-- The calls that name an entry. -/
inductive Call where
  | probeDestination (parentId : EntryId) (name : String)
  | resync (id : EntryId) (recursive : Bool)
deriving DecidableEq

inductive HostError where
  | refused (code message : String)
  | native (error : FxError)
deriving DecidableEq

/-- What the host keeps for a session, as far as these checks read it. -/
structure HostSession where
  id : Nat
  policy : SessionPolicy
  ownedOperationIds : List String
  resyncTimes : List Nat

structure Host where
  explorer : Explorer
  sessions : List HostSession

namespace Host

def maxOwnedOperations : Nat := 64

def resyncLimit : Nat := 10

def resyncWindowMs : Nat := 60000

variable (host : Host) (disk : DiskView)

def ofVerdict : PolicyVerdict → Except HostError Unit
  | .allowed => .ok ()
  | .refused code message => .error (.refused code message)

def ofNative {α : Type} : Except FxError α → Except HostError α
  | .ok value => .ok value
  | .error error => .error (.native error)

/-- Refuses ids beyond a symlink, unless the session is an admin's. -/
def assertWithinBoundary (policy : SessionPolicy) (ids : List EntryId) : Except HostError Unit :=
  if policy.access = .admin then .ok ()
  else if ids.any host.explorer.store.inner.crossesSymlink then
    .error (.refused "EACCES" "target is outside the workspace boundary")
  else .ok ()

def findOperationOwner (operationId : String) : Option HostSession :=
  host.sessions.find? (fun session => operationId ∈ session.ownedOperationIds)

def claimOperation (session : HostSession) : Option String → Except HostError Unit
  | none => .ok ()
  | some operationId =>
    if (host.findOperationOwner operationId).any (·.id ≠ session.id) then
      .error (.refused "EEXIST" ("operation " ++ operationId ++ " is already in progress"))
    else if operationId ∉ session.ownedOperationIds ∧ maxOwnedOperations ≤ session.ownedOperationIds.length then
      .error (.refused "EBUSY" ("session has " ++ toString maxOwnedOperations ++ " operations in flight"))
    else .ok ()

def assertFileSizeAllowed (policy : SessionPolicy) (id : EntryId) : Except HostError Unit :=
  match policy.maxFileBytes, host.explorer.store.getById id with
  | some max, some entry =>
    if max < entry.size.toNat then
      .error (.refused "EFBIG" ("file is " ++ toString entry.size.toNat ++ " bytes; remote export limit is " ++
        toString max ++ " bytes"))
    else .ok ()
  | _, _ => .ok ()

def assertPayloadSizeAllowed (policy : SessionPolicy) (size : Nat) : Except HostError Unit :=
  match policy.maxFileBytes with
  | some max =>
    if max < size then
      .error (.refused "EFBIG" ("payload is " ++ toString size ++ " bytes; remote export limit is " ++
        toString max ++ " bytes"))
    else .ok ()
  | none => .ok ()

def dispatchMutation (policy : SessionPolicy) : Mutation → Except HostError (List Touch)
  | .create parentId name kind => ofNative (host.explorer.create parentId name kind)
  | .rename id newName => ofNative (host.explorer.rename id newName)
  | .move id newParentId newName options => ofNative (host.explorer.moveEntry disk id newParentId newName options)
  | .delete id trash recursive => ofNative (host.explorer.delete id trash recursive)
  | .copy id newParentId newName options => ofNative (host.explorer.copy disk id newParentId newName options)
  | .copyFromPath sourcePath newParentId newName options =>
    if sourcePath = "" then .error (.refused "EUNKNOWN" "copyFromPath requires a non-empty sourcePath string")
    else ofNative (host.explorer.copyFromPath disk sourcePath newParentId newName options)
  | .readFile id => do
    host.assertFileSizeAllowed policy id
    ofNative (host.explorer.readFile id)
  | .readText id encoding => do
    host.assertFileSizeAllowed policy id
    ofNative (host.explorer.readText id encoding)
  | .writeFile id byteLength isAtomic => do
    assertPayloadSizeAllowed policy byteLength
    ofNative (host.explorer.writeFile id isAtomic)

/-- `handleMutate`: the checks, and what the dispatched operation works on. -/
def handleMutate (session : HostSession) (operationId : Option String) (mutation : Mutation) :
    Except HostError (List Touch) := do
  ofVerdict (authorizeMutation session.policy mutation.op)
  host.assertWithinBoundary session.policy mutation.ids
  host.claimOperation session operationId
  host.dispatchMutation disk session.policy mutation

def checkResyncRate (session : HostSession) (now : Nat) : Except HostError Unit :=
  if resyncLimit ≤ (session.resyncTimes.filter (now - · < resyncWindowMs)).length then
    .error (.refused "EBUSY" ("resync rate limit reached (" ++ toString resyncLimit ++ " per minute)"))
  else .ok ()

/-- `handleCall` on the calls that name an entry; neither asks for the boundary. -/
def handleCall (session : HostSession) (now : Nat) : Call → Except HostError (List Touch)
  | .probeDestination parentId name => do
    ofVerdict (authorizeCall session.policy "probeDestination")
    if name = "" then .error (.refused "EUNKNOWN" "probeDestination requires a parent id and non-empty name")
    ofNative (host.explorer.probeDestination disk parentId name)
  | .resync id _ => do
    ofVerdict (authorizeCall session.policy "resync")
    checkResyncRate session now
    ofNative (host.explorer.resync id)

end Host

end Mille
