import Mille.Core.Entry

/-! The bounded walker and the ignore rules it consults: what a walk reports for
every answer of the disk. -/

namespace Mille

/-- One compiled rule source, `matched_path_or_any_parents`: ignored, kept, or no opinion. -/
abbrev Gitignore := Path → Bool → Option Bool

/-- The `ignore` crate: how text becomes rules anchored at a directory. A bad
glob yields nothing. -/
structure GitignoreBuilder where
  fromContents : (root : Path) → (contents : String) → Option Gitignore
  fromPatterns : (root : Path) → (patterns : String) → Option Gitignore

/-- `IgnoreMatcher`: rule sources with their anchors, in the order they were added. -/
abbrev IgnoreMatcher := List (Path × Gitignore)

namespace IgnoreMatcher

def decide : List (Path × Gitignore) → Path → Bool → Option Bool
  | [], _, _ => none
  | (_, gitignore) :: rest, path, isDir => (gitignore path isDir).or (decide rest path isDir)

/-- The first decisive rule among the sources anchored above a path. -/
def decision (matcher : IgnoreMatcher) (path : Path) (isDir : Bool) : Option Bool :=
  decide (matcher.filter (fun source => path.startsWith source.1)) path isDir

def isIgnored (matcher : IgnoreMatcher) (path : Path) (isDir : Bool) : Bool :=
  (matcher.decision path isDir).getD false

/-- `let _ = add_from_contents(..)`: a file with a bad glob adds nothing. -/
def addFromContents (builder : GitignoreBuilder) (matcher : IgnoreMatcher) (file : Path × String) :
    IgnoreMatcher :=
  match file.1.parent with
  | none => matcher
  | some root =>
    match builder.fromContents root file.2 with
    | none => matcher
    | some gitignore => matcher ++ [(root, gitignore)]

def addFromString (builder : GitignoreBuilder) (matcher : IgnoreMatcher) (root : Path)
    (patterns : String) : Except FxError IgnoreMatcher :=
  match builder.fromPatterns root patterns with
  | none => .error (.io .einval root)
  | some gitignore => .ok (matcher ++ [(root, gitignore)])

end IgnoreMatcher

def ignoreFileNames : List String :=
  [".gitignore", ".ignore", ".rgignore"]

inductive FileType where
  | file | dir | symlink | other
  deriving DecidableEq

structure Metadata where
  fileType : FileType
  len : UInt64
  mtimeMs : Int
  ctimeMs : Int
  readonly : Bool
  deriving DecidableEq

inductive ReadFailure where
  | timedOut | stuck | saturated | dataless | cancelled | io
  deriving DecidableEq

namespace ReadFailure

def intoFx (path : Path) : ReadFailure → FxError
  | timedOut | stuck | saturated => .io .etimedout path
  | dataless => .io .edataless path
  | cancelled => .cancelled
  | io => .io .eunknown path

end ReadFailure

/-- One name of a directory with what the OS answers about it. Only a regular
file, or a link to one, has text. -/
structure DiskChild where
  name : OsString
  fileType : FileType
  lstat : Option Metadata
  stat : Option Metadata
  canonical : Option Path
  text : Option String
  text_regular : text.isSome = true → stat.any (·.fileType = .file) = true

/-- The answer to one directory read, with the answers its subdirectories would
give. `list_dir` sorts the names; the model keeps any order. -/
inductive DirRead where
  | listed (children : List (DiskChild × DirRead))
  | failed (failure : ReadFailure)

structure ListedChild where
  name : OsString
  fileType : FileType
  effectiveType : FileType
  metadata : Option Metadata
  targetIsDir : Option Bool
  canonical : Option Path
  followFailed : Bool
  ignoreContents : Option String

structure ListOptions where
  followSymlinks : Bool
  ignoreContents : Bool

/-- Type and metadata of one name, through a link that is followed. -/
def DiskChild.inspect (child : DiskChild) (followSymlinks : Bool) : ListedChild :=
  if followSymlinks && child.fileType = .symlink then
    match child.stat with
    | none => ⟨child.name, child.fileType, child.fileType, none, none, none, true, none⟩
    | some target =>
      let isDir : Bool := target.fileType = .dir
      ⟨child.name, child.fileType, target.fileType, some target, none,
        if isDir then child.canonical else none, isDir && child.canonical.isNone, none⟩
  else
    let isLink := child.fileType = .symlink || child.lstat.any (·.fileType = .symlink)
    ⟨child.name, child.fileType, child.fileType, child.lstat,
      if isLink then some (child.stat.any (·.fileType = .dir)) else none, none, false, none⟩

/-- What `list_dir` records for one name. -/
def DiskChild.list (child : DiskChild) (options : ListOptions) : ListedChild :=
  let listed := child.inspect options.followSymlinks
  let ignoreNamed := child.name.toStr.any (· ∈ ignoreFileNames)
  let readable := listed.effectiveType = .file ||
    (listed.fileType = .symlink && listed.targetIsDir = some false)
  if options.ignoreContents && ignoreNamed && readable then { listed with ignoreContents := child.text }
  else listed

/-- `read_ignore_files` of a directory whose names are known. -/
def readIgnoreFiles (directory : Path) (children : List (DiskChild × DirRead)) : List (Path × String) :=
  ignoreFileNames.filterMap (fun name =>
    (children.find? (fun child => child.1.name = .utf8 name)).bind (fun child =>
      if child.1.stat.any (·.fileType = .file) then
        child.1.text.map (fun contents => (directory.push (.utf8 name), contents))
      else none))

inductive SymlinkPolicy where
  | never | always | smart
  deriving DecidableEq

structure WalkOptions where
  maxDepth : Option Nat
  followSymlinks : SymlinkPolicy
  includeHidden : Bool
  includeRoot : Bool

structure WalkedEntry where
  path : Path
  parentPath : Option Path
  name : String
  kind : EntryKind
  size : UInt64
  mtimeMs : Int
  ctimeMs : Int
  isSymlink : Bool
  symlinkTargetIsDir : Option Bool
  isReadonly : Bool
  isHidden : Bool
  depth : Nat
  deriving DecidableEq

/-- `kind == Directory || symlink_target_is_dir == Some(true)`. -/
def WalkedEntry.directoryLike (entry : WalkedEntry) : Bool :=
  entry.kind = .directory || entry.symlinkTargetIsDir = some true

/-- The depth is stored in 16 bits. -/
def entryFromMetadata (path : Path) (parentPath : Option Path) (name : String) (entryType : FileType)
    (metadata : Metadata) (targetIsDir : Option Bool) (isHidden : Bool) (depth : Nat) : WalkedEntry :=
  let isSymlink := entryType = .symlink || metadata.fileType = .symlink
  let kind : EntryKind :=
    if isSymlink then .symlink
    else if metadata.fileType = .dir || entryType = .dir then .directory
    else if metadata.fileType = .file || entryType = .file then .file
    else .unknown
  { path, parentPath, name, kind
    size := if kind = .file then metadata.len else 0
    mtimeMs := metadata.mtimeMs
    ctimeMs := metadata.ctimeMs
    isSymlink
    symlinkTargetIsDir := if isSymlink then some (targetIsDir.getD false) else none
    isReadonly := metadata.readonly
    isHidden
    depth := depth % 2 ^ 16 }

def walkedEntry (listed : ListedChild) (path : Path) (depth : Nat) (options : WalkOptions) :
    Option WalkedEntry :=
  listed.name.toStr.bind (fun name =>
    let isHidden := name.startsWith "."
    if isHidden && !options.includeHidden then none
    else listed.metadata.map (fun metadata =>
      entryFromMetadata path path.parent name listed.effectiveType metadata listed.targetIsDir
        isHidden depth))

/-- `stat` of the walk root, a final symlink also followed. -/
structure PathStat where
  metadata : Metadata
  target : Option Metadata
  canonical : Option Path
  target_link : target.isSome = true → metadata.fileType = .symlink

namespace PathStat

def isDirLike (stat : PathStat) : Bool :=
  stat.metadata.fileType = .dir || stat.target.any (·.fileType = .dir)

/-- `Path::exists`: a symlink must lead somewhere. -/
def pathExists (stat : PathStat) : Bool :=
  stat.metadata.fileType ≠ .symlink || stat.target.isSome

end PathStat

/-- The text of a path that has no file name. -/
def asStr (path : Path) : Option String :=
  (path.mapM (fun
    | Component.parentDir => some ".."
    | Component.normal name => name.toStr)).map (fun names => "/" ++ "/".intercalate names)

/-- The name a walk reports for its root; a name that is not UTF-8 is none. -/
def rootName (root : Path) : Option String :=
  root.fileName.elim (asStr root) (·.toStr)

def rootEntry (root : Path) (stat : PathStat) (follow : Bool) : Option WalkedEntry :=
  let targetIsDir := stat.target.map (fun target => decide (target.fileType = .dir))
  let metadata := if follow && stat.metadata.fileType = .symlink then stat.target else some stat.metadata
  match rootName root, metadata with
  | some name, some metadata =>
    some (entryFromMetadata root none name metadata.fileType metadata targetIsDir false 0)
  | _, _ => none

structure WalkReport where
  entries : List WalkedEntry
  unread : List (Path × ReadFailure)
  ignoreFiles : List (Path × String)
  /-- The error that ended the walk after what is reported here. -/
  failure : Option FxError

namespace WalkReport

def empty : WalkReport :=
  ⟨[], [], [], none⟩

/-- What a walk reports first and next; nothing follows a failure. -/
def append (first next : WalkReport) : WalkReport :=
  if first.failure.isSome then first
  else ⟨first.entries ++ next.entries, first.unread ++ next.unread,
    first.ignoreFiles ++ next.ignoreFiles, next.failure⟩

end WalkReport

/-- What every directory of one walk shares. -/
structure Walk where
  builder : GitignoreBuilder
  options : WalkOptions
  ignore : Option IgnoreMatcher

/-- A directory the walk reads: the rules of the ignore files found above it and
the canonical paths that would close a cycle, its own first. -/
structure WalkDir where
  path : Path
  depth : Nat
  nested : IgnoreMatcher
  canonicals : List (Option Path)

namespace Walk

def follow (walk : Walk) : Bool :=
  walk.options.followSymlinks = .always

def listOptions (walk : Walk) : ListOptions :=
  ⟨walk.follow, walk.ignore.isSome⟩

/-- The rules of a directory's own ignore files join before its names are planned. -/
def stack (walk : Walk) (dir : WalkDir) (children : List (DiskChild × DirRead)) : IgnoreMatcher :=
  if walk.ignore.isSome then
    (children.filterMap (fun child =>
      let listed := child.1.list walk.listOptions
      if listed.effectiveType = .file then
        listed.ignoreContents.map (fun contents => (dir.path.push listed.name, contents))
      else none)).foldl (IgnoreMatcher.addFromContents walk.builder) dir.nested
  else dir.nested

def isPruned (walk : Walk) (nested : IgnoreMatcher) (path : Path) (listed : ListedChild) : Bool :=
  match walk.ignore with
  | none => false
  | some ignore =>
    let dirLike := listed.effectiveType = .dir || listed.effectiveType = .symlink
    ((ignore.decision path dirLike).or (nested.decision path dirLike)).getD false

/-- `plan` drops a followed link that does not resolve or closes a cycle. -/
def drops (walk : Walk) (dir : WalkDir) (listed : ListedChild) : Bool :=
  walk.follow && (listed.followFailed ||
    (listed.fileType = .symlink && listed.effectiveType = .dir && listed.canonical.isSome &&
      listed.canonical ∈ dir.canonicals))

/-- Whether the walk reads below a listed name. -/
def descends (walk : Walk) (dir : WalkDir) (listed : ListedChild) : Bool :=
  walk.options.maxDepth.all (dir.depth + 1 < ·) && listed.effectiveType = .dir &&
    !walk.isPruned dir.nested (dir.path.push listed.name) listed

/-- The directory a walk goes on with below a listed name. -/
def below (walk : Walk) (dir : WalkDir) (listed : ListedChild) : WalkDir :=
  let canonical :=
    if !walk.follow then none
    else if listed.fileType = .symlink && listed.effectiveType = .dir then listed.canonical
    else (dir.canonicals.head?.join).map (·.push listed.name)
  ⟨dir.path.push listed.name, dir.depth + 1, dir.nested, canonical :: dir.canonicals⟩

/-- The record of one name, reported before anything below it. -/
def emit (walk : Walk) (dir : WalkDir) (listed : ListedChild) : WalkReport :=
  let path := dir.path.push listed.name
  match walkedEntry listed path (dir.depth + 1) walk.options with
  | none => .empty
  | some entry =>
    ⟨[entry], [], (listed.ignoreContents.map (fun contents => (path, contents))).toList, none⟩

mutual

/-- The loop of `walk_core` over one directory's names, its rules already stacked. -/
def children (walk : Walk) (dir : WalkDir) : List (DiskChild × DirRead) → WalkReport
  | [] => .empty
  | (child, read) :: rest =>
    let listed := child.list walk.listOptions
    let own :=
      if walk.drops dir listed then .empty
      else
        (walk.emit dir listed).append
          (if walk.descends dir listed then walk.subdirectory (walk.below dir listed) read else .empty)
    own.append (walk.children dir rest)

/-- A directory below the walk root: an OS error reads as empty, a read that
did not answer is reported. -/
def subdirectory (walk : Walk) (dir : WalkDir) : DirRead → WalkReport
  | .listed children =>
    walk.children { dir with nested := walk.stack dir children } children
  | .failed .io => .empty
  | .failed .cancelled => ⟨[], [], [], some .cancelled⟩
  | .failed failure => ⟨[], [(dir.path, failure)], [], none⟩

end

/-- The names of the walk root; only here does a read that did not answer fail the walk. -/
def root (walk : Walk) (path : Path) (canonical : Option Path) : DirRead → WalkReport
  | .listed children =>
    let dir : WalkDir := ⟨path, 0, [], [canonical]⟩
    walk.children { dir with nested := walk.stack dir children } children
  | .failed .io => .empty
  | .failed failure => ⟨[], [], [], some (failure.intoFx path)⟩

end Walk

/-- The answer to the `stat` of one path. -/
abbrev StatRead := Except ReadFailure PathStat

def missingRoot (root : Path) : FxError :=
  .io .enoent root

/-- `walk_core`, as far as nothing cancels it. -/
def walkCore (walk : Walk) (root : Path) (stat : StatRead) (read : DirRead) : WalkReport :=
  match stat with
  | .error .io => ⟨[], [], [], some (missingRoot root)⟩
  | .error failure => ⟨[], [], [], some (failure.intoFx root)⟩
  | .ok stat =>
    if !stat.pathExists then ⟨[], [], [], some (missingRoot root)⟩
    else
      let own : WalkReport :=
        ⟨if walk.options.includeRoot then (rootEntry root stat walk.follow).toList else [], [], [], none⟩
      if walk.options.maxDepth.all (1 ≤ ·) && stat.isDirLike then
        own.append (walk.root root (if walk.follow then stat.canonical else none) read)
      else own

/-- The batches `walk_bounded_batched` hands over; a failed walk loses the last, unfilled one. -/
def walkBatches (batchSize : Nat) (report : WalkReport) : List (List WalkedEntry) :=
  let rec go : List WalkedEntry → List WalkedEntry → List (List WalkedEntry)
    | batch, [] => if batch.isEmpty || report.failure.isSome then [] else [batch]
    | batch, entry :: rest =>
      let batch := batch ++ [entry]
      if batch.length ≥ max batchSize 1 then batch :: go [] rest else go batch rest
  go [] report.entries

section Records

variable {listed : ListedChild} {options : WalkOptions} {path : Path} {depth : Nat}
variable {entry : WalkedEntry} {child : DiskChild}

theorem walkedEntry_fields (walked : walkedEntry listed path depth options = some entry) :
    entry.path = path ∧ entry.parentPath = path.parent ∧ entry.depth = depth % 2 ^ 16 := by
  obtain ⟨name, _, walked⟩ := Option.bind_eq_some_iff.mp walked
  dsimp only at walked
  split at walked
  · cases walked
  · obtain ⟨metadata, _, rfl⟩ := Option.map_eq_some_iff.mp walked
    exact ⟨rfl, rfl, rfl⟩

theorem rootEntry_fields {root : Path} {stat : PathStat} {follow : Bool}
    (walked : rootEntry root stat follow = some entry) :
    entry.path = root ∧ entry.parentPath = none ∧ entry.depth = 0 := by
  unfold rootEntry at walked
  dsimp only at walked
  split at walked
  · cases walked
    exact ⟨rfl, rfl, rfl⟩
  · cases walked

end Records

namespace Walk

variable {walk : Walk} {dir : WalkDir}

/-- The record a walk reports for one name, if it reports one. -/
def entryOf (walk : Walk) (dir : WalkDir) (child : DiskChild) : Option WalkedEntry :=
  let listed := child.list walk.listOptions
  if walk.drops dir listed then none
  else walkedEntry listed (dir.path.push listed.name) (dir.depth + 1) walk.options

/-- The ignore file a walk reports for one name. -/
def ignoreFileOf (walk : Walk) (dir : WalkDir) (child : DiskChild) : Option (Path × String) :=
  (walk.entryOf dir child).bind (fun _ => (child.list walk.listOptions).ignoreContents.map (fun contents =>
    (dir.path.push child.name, contents)))

end Walk

end Mille
