import Mathlib
import Mille.Drive.Frames

/-! The document of a drive read as items, and what the hold policy retains of
them. A JSON value of the document stands for what the decoder reads from it. -/

namespace Mille.Drive

open Std Mille.Bincode

/-- The longest item id, attachment name or meta key. -/
def maxIdLen : Nat := 64

/-- The most files one version may hold. -/
def maxFiles : Nat := 65536

/-- The longest relative path in a manifest, in bytes. -/
def maxPathBytes : Nat := 1024

/-- The longest path segment, in bytes. -/
def maxSegmentBytes : Nat := 255

structure FileEntry where
  path : String
  blake3 : Blake3
  bytes : UInt64
deriving DecidableEq

structure ObjectRef where
  blake3 : Blake3
  bytes : UInt64
deriving DecidableEq

structure VersionRecord where
  files : List FileEntry
  createdAt : UInt64
deriving DecidableEq

/-- The maps of the document that say what is held; `none` is a value the decoder refuses. -/
structure DocState where
  versions : ExtTreeMap String (Option VersionRecord)
  current : ExtTreeMap String String
  kept : ExtTreeMap String Bool
  attachments : ExtTreeMap String (Option ObjectRef)

def DocState.empty : DocState := ⟨{}, {}, {}, {}⟩

section Names

def reserved : List String :=
  ["con", "prn", "aux", "nul", "com1", "com2", "com3", "com4", "com5", "com6", "com7", "com8", "com9",
    "lpt1", "lpt2", "lpt3", "lpt4", "lpt5", "lpt6", "lpt7", "lpt8", "lpt9"]

/-- The name before the first dot is a Windows device. -/
def isReserved (segment : String) : Bool :=
  let stem := segment.toList.takeWhile (· ≠ '.')
  let stem := (stem.reverse.dropWhile (· = ' ')).reverse
  reserved.contains (String.ofList (stem.map Char.toLower))

def lowerAlnum (char : Char) : Bool :=
  ('a' ≤ char && char ≤ 'z') || ('0' ≤ char && char ≤ '9')

def isValidItemId (id : String) : Bool :=
  match id.toList with
  | [] => false
  | first :: rest => (first :: rest).length ≤ maxIdLen && lowerAlnum first &&
      (first :: rest).all (fun char => lowerAlnum char || char = '-') && !isReserved id

/-- Two dots in a row. -/
def hasDoubleDot : List Char → Bool
  | '.' :: '.' :: _ => true
  | _ :: rest => hasDoubleDot rest
  | [] => false

def isValidName (name : String) : Bool :=
  match name.toList with
  | [] => false
  | first :: rest => (first :: rest).length ≤ maxIdLen && lowerAlnum first &&
      (first :: rest).all (fun char => lowerAlnum char || char = '.' || char = '_' || char = '-') &&
      !hasDoubleDot (first :: rest)

def isHex (char : Char) : Bool :=
  ('0' ≤ char && char ≤ '9') || ('a' ≤ char && char ≤ 'f')

def isValidVersionId (id : String) : Bool :=
  id.toList.length = 64 && id.toList.all isHex

/-- `split_once('/')`. -/
def splitOnce (key : String) : Option (String × String) :=
  match key.toList.span (· ≠ '/') with
  | (_, []) => none
  | (before, _ :: after) => some (String.ofList before, String.ofList after)

/-- `splitn(3, '/')` when it gives three parts. -/
def splitTwice (key : String) : Option (String × String × String) :=
  match splitOnce key with
  | none => none
  | some (first, rest) => (splitOnce rest).map fun (second, third) => (first, second, third)

end Names

section Manifests

variable (toLowercase : String → String) (hash : Bytes → Blake3)

def isControl (char : Char) : Bool :=
  char.toNat ≤ 0x1F || (0x7F ≤ char.toNat && char.toNat ≤ 0x9F)

def isPortableSegment (segment : String) : Bool :=
  !segment.isEmpty && segment.utf8ByteSize ≤ maxSegmentBytes && segment ≠ "." && segment ≠ ".." &&
    !segment.toList.any (fun char => isControl char || "<>:\"|?*\\".toList.contains char) &&
    segment.toList.getLast? ≠ some '.' && segment.toList.getLast? ≠ some ' ' && !isReserved segment

/-- `split('/')`. -/
def segments (path : String) : List String :=
  (path.toList.splitOnP (· = '/')).map String.ofList

def isPortableRelativePath (path : String) : Bool :=
  !path.isEmpty && path.utf8ByteSize ≤ maxPathBytes && path.toList.head? ≠ some '/' && path.toList.head? ≠ some '~' &&
    (segments path).all isPortableSegment

/-- Every folder a path needs. -/
def foldersOf (path : String) : List String :=
  (segments path).dropLast.inits.tail.map (String.intercalate "/")

/-- `validate_manifest`: what it accepts. -/
def validManifest (files : List FileEntry) : Bool :=
  let folded := files.map fun file => toLowercase file.path
  files ≠ [] && files.length ≤ maxFiles && files.all (fun file => isPortableRelativePath file.path) &&
    folded.Nodup && folded.all fun path => !(folded.flatMap foldersOf).contains path

def hexDigit (nibble : Nat) : Char :=
  "0123456789abcdef".toList.getD nibble '0'

def Blake3.toHex (digest : Blake3) : String :=
  String.ofList (digest.asBytes.flatMap fun byte => [hexDigit (byte.toNat / 16), hexDigit (byte.toNat % 16)])

/-- The encoding a version id hashes, one line for each file in the order of paths. -/
def canonicalManifest (files : List FileEntry) : Bytes :=
  let sorted := files.insertionSort fun left right => left.path ≤ right.path
  ("mille-drive manifest v1\n" ++ String.join (sorted.map fun file =>
    file.path ++ "\x00" ++ file.blake3.toHex ++ "\x00" ++ toString file.bytes.toNat ++ "\n")).toUTF8.toList

def versionId (files : List FileEntry) : String :=
  (hash (canonicalManifest files)).toHex

end Manifests

structure VersionView where
  id : String
  files : List FileEntry
  createdAt : UInt64
  attachments : ExtTreeMap String ObjectRef
  quarantined : Bool

structure ItemView where
  current : Option String
  kept : Bool
  /-- Oldest first. -/
  versions : List VersionView

def ItemView.empty : ItemView := ⟨none, false, []⟩

def ItemView.version (item : ItemView) (id : String) : Option VersionView :=
  item.versions.find? (·.id = id)

def ItemView.currentVersion (item : ItemView) : Option VersionView :=
  item.current.bind item.version

structure VersionKey where
  item : String
  version : String
deriving DecidableEq

abbrev Items := ExtTreeMap String ItemView

section Catalog

variable (toLowercase : String → String) (hash : Bytes → Blake3)

def versionView (id : String) : Option VersionRecord → VersionView
  | none => ⟨id, [], 0, {}, true⟩
  | some record =>
    ⟨id, record.files, record.createdAt, {},
      !(validManifest toLowercase record.files && versionId hash record.files = id)⟩

/-- `item_entry`, changed in place. -/
def onItem (items : Items) (item : String) (change : ItemView → ItemView) : Items :=
  items.insert item (change ((items[item]?).getD .empty))

def addVersionView (items : Items) (binding : String × Option VersionRecord) : Items :=
  match splitOnce binding.1 with
  | none => items
  | some (item, id) =>
    if isValidItemId item && isValidVersionId id then
      onItem items item fun view => { view with versions := view.versions ++ [versionView toLowercase hash id binding.2] }
    else items

def addCurrent (items : Items) (binding : String × String) : Items :=
  if isValidItemId binding.1 && isValidVersionId binding.2 then
    onItem items binding.1 fun view => { view with current := some binding.2 }
  else items

def addKept (items : Items) (binding : String × Bool) : Items :=
  if isValidItemId binding.1 then onItem items binding.1 fun view => { view with kept := binding.2 } else items

/-- An attachment goes to the first version of the item with its id. -/
def attach (version name : String) (object : ObjectRef) : List VersionView → List VersionView
  | [] => []
  | view :: rest =>
    if view.id = version then { view with attachments := view.attachments.insert name object } :: rest
    else view :: attach version name object rest

def addAttachment (items : Items) (binding : String × Option ObjectRef) : Items :=
  match splitTwice binding.1, binding.2 with
  | some (item, version, name), some object =>
    if isValidName name then
      match items[item]? with
      | none => items
      | some view => items.insert item { view with versions := attach version name object view.versions }
    else items
  | _, _ => items

/-- Oldest first, then by id. -/
def ItemView.sorted (item : ItemView) : ItemView :=
  { item with versions := item.versions.insertionSort fun left right =>
      left.createdAt < right.createdAt ∨ left.createdAt = right.createdAt ∧ left.id ≤ right.id }

/-- The document read as items. -/
def catalog (state : DocState) : Items :=
  let items := state.versions.toList.foldl (addVersionView toLowercase hash) {}
  let items := state.current.toList.foldl addCurrent items
  let items := state.kept.toList.foldl addKept items
  let items := state.attachments.toList.foldl addAttachment items
  items.map fun _ item => item.sorted

end Catalog

inductive KeptScope where
  | current
  | all
deriving DecidableEq

structure HoldPolicy where
  current : Bool
  keptVersions : KeptScope
  attachments : Bool

section Retained

/-- The smallest size any reference declares. -/
def addLeast (out : ExtTreeMap Blake3 UInt64) (object : ObjectRef) : ExtTreeMap Blake3 UInt64 :=
  out.insert object.blake3 (match out[object.blake3]? with
    | none => object.bytes
    | some least => min least object.bytes)

/-- The objects a version names. -/
def VersionView.objects (view : VersionView) (attachments : Bool) : List ObjectRef :=
  if view.quarantined then []
  else view.files.map (fun file => ⟨file.blake3, file.bytes⟩) ++
    if attachments then view.attachments.toList.map Prod.snd else []

def versionObjects (view : VersionView) (attachments : Bool) (out : ExtTreeMap Blake3 UInt64) :
    ExtTreeMap Blake3 UInt64 :=
  (view.objects attachments).foldl addLeast out

/-- The versions of an item the policy holds, in the order they are added. -/
def heldVersions (hold : HoldPolicy) (item : ItemView) : List VersionView :=
  (if hold.current then item.currentVersion.toList else []) ++
    if item.kept then
      match hold.keptVersions with
      | .current => item.currentVersion.toList
      | .all => item.versions
    else []

/-- What the hold policy says this drive holds. -/
def retainedByPolicy (items : Items) (hold : HoldPolicy) : ExtTreeMap Blake3 UInt64 :=
  items.toList.foldl (fun out binding =>
    (heldVersions hold binding.2).foldl (fun out version => versionObjects version hold.attachments out) out) {}

/-- Adds the objects of versions named by their keys. -/
def retainKeys (items : Items) (keys : List VersionKey) (out : ExtTreeMap Blake3 UInt64) : ExtTreeMap Blake3 UInt64 :=
  keys.foldl (fun out key =>
    match (items[key.item]?).bind (·.version key.version) with
    | none => out
    | some version => versionObjects version false out) out

end Retained

end Mille.Drive
