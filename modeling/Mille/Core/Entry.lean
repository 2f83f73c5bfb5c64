import Mille.Lib.Path
import Mille.Lib.Maps

/-! Entry records, their identities and the errors of the engine. -/

namespace Mille

/-- `EntryId`: a session-scoped identity, below `entryIdMax`. -/
abbrev EntryId := Nat

abbrev IdMap (ν : Type) := Std.ExtTreeMap EntryId ν

/-- JavaScript's safe-integer ceiling. -/
def entryIdMax : Nat := 2 ^ 53

inductive ErrorCode where
  | eacces | enoent | eexist | eisdir | enotdir | eloop | enospc | erofs | ebusy | einval
  | ecanceled | eunsupported | eunknown | etimedout | edataless
  deriving DecidableEq

/-- One argument of a formatted message; paths and ids stay values. -/
inductive MessagePart where
  | text (part : String)
  | path (value : Path)
  | id (value : EntryId)
  | count (value : Nat)
  deriving DecidableEq

abbrev Message := List MessagePart

inductive FxError where
  | io (code : ErrorCode) (path : Path)
  | unsupported (message : Message)
  | cancelled
  | invalidInput (message : Message)
  | internalBug (message : Message)
  | entryIdExhausted
  | incomplete (unread : List (Path × ErrorCode))
  deriving DecidableEq

/-- `FxError::code`. -/
def FxError.code : FxError → ErrorCode
  | io code _ => code
  | unsupported _ => .eunsupported
  | cancelled => .ecanceled
  | invalidInput _ => .einval
  | internalBug _ => .eunknown
  | entryIdExhausted => .eunknown
  | incomplete [] => .etimedout
  | incomplete ((_, code) :: _) => code

/-- `EntryId::alloc_from`: the result and the counter it leaves behind. -/
def EntryId.allocFrom (counter : Nat) : Except FxError EntryId × Nat :=
  if counter ≥ entryIdMax then (.error .entryIdExhausted, entryIdMax)
  else (.ok counter, counter + 1)

inductive EntryKind where
  | file | directory | symlink | unknown | unavailable
  deriving DecidableEq

structure Entry where
  id : EntryId
  parentId : Option EntryId
  name : String
  kind : EntryKind
  size : UInt64
  mtimeMs : Int
  ctimeMs : Int
  symlinkTargetIsDir : Option Bool
  pathSegments : Option (List String)
  isIgnored : Bool
  isReadonly : Bool
  isHidden : Bool
  isExcluded : Bool
  deriving DecidableEq

namespace Entry

def isIgnoredOrExcluded (entry : Entry) : Bool :=
  entry.isIgnored || entry.isExcluded

/-- Whether an entry may own children: a directory, or a symlink to one. -/
def isFolder (entry : Entry) : Bool :=
  entry.kind = .directory || entry.symlinkTargetIsDir = some true

/-- A root record while its directory cannot be reached. -/
def unavailable (root : Entry) : Entry :=
  { root with
    kind := .unavailable, size := 0, symlinkTargetIsDir := none, pathSegments := none
    isReadonly := true }

end Entry

/-- Which rows a projection shows. -/
structure VisibilityPolicy where
  showHiddenFiles : Bool
  showIgnoredFiles : Bool
  deriving DecidableEq

namespace VisibilityPolicy

instance : Inhabited VisibilityPolicy := ⟨⟨false, false⟩⟩

def isOsOrVcsNoise (name : String) : Bool :=
  name ∈ [".DS_Store", "Thumbs.db", "desktop.ini", ".git"]

def includes (policy : VisibilityPolicy) (entry : Entry) : Bool :=
  if isOsOrVcsNoise entry.name then false
  else (policy.showHiddenFiles || !entry.isHidden) &&
    (policy.showIgnoredFiles || !entry.isIgnoredOrExcluded)

end VisibilityPolicy

namespace EntryId

variable {counter counter' : Nat} {id : EntryId}

theorem allocFrom_ok (allocated : allocFrom counter = (.ok id, counter')) :
    id = counter ∧ counter < entryIdMax ∧ counter' = counter + 1 := by
  unfold allocFrom at allocated
  split at allocated
  · cases allocated
  · cases allocated
    exact ⟨rfl, by omega, rfl⟩

theorem allocFrom_counter (bounded : counter ≤ entryIdMax) :
    counter ≤ (allocFrom counter).2 ∧ (allocFrom counter).2 ≤ entryIdMax := by
  unfold allocFrom
  split <;> dsimp only <;> omega

end EntryId

end Mille
