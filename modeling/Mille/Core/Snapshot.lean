import Mille.Core.Sort
import Mille.Lib.Forest

/-! The immutable snapshot a store publishes, and the edits its operations
make to the next one. -/

namespace Mille

open Maps

structure FileNestingRule where
  parentPrefix : String
  parentSuffix : String
  hasWildcard : Bool
  childTemplates : List String
  deriving DecidableEq

structure FileNestingPolicy where
  rules : List FileNestingRule
  caseSensitive : Bool
  deriving DecidableEq

instance : Inhabited FileNestingPolicy := ⟨⟨[], false⟩⟩

/-- Structural changes since the last drain. -/
structure ChangeSet where
  changedIds : Finset EntryId
  reparentedIds : IdMap (Option EntryId × Option EntryId)
  subtreeRootsChanged : Finset EntryId
  childSetChanged : Finset EntryId
  projectionChanged : Bool
  fromVersion : Nat
  toVersion : Nat

namespace ChangeSet

instance : Inhabited ChangeSet := ⟨⟨∅, ∅, ∅, ∅, false, 0, 0⟩⟩

def isEmpty (changes : ChangeSet) : Bool :=
  changes.changedIds = ∅ && changes.reparentedIds.isEmpty && changes.subtreeRootsChanged = ∅ &&
    changes.childSetChanged = ∅ && !changes.projectionChanged

end ChangeSet

/-- The ancestor summaries, both inclusive of the entry itself. -/
structure Summaries where
  visibleCounts : IdMap UInt32
  totalSizes : IdMap UInt64

structure StoreSnapshot where
  entries : IdMap Entry
  children : IdMap (List EntryId)
  loadedDirectories : Finset EntryId
  roots : List EntryId
  treeVersion : Nat
  directChildCounts : IdMap UInt32
  descendants : Summaries
  visibility : VisibilityPolicy
  compactFolders : Bool
  fileNesting : FileNestingPolicy

/-- A resolved entry on its way into the store. -/
structure Addition where
  path : Path
  id : EntryId
  entry : Entry

def maxAncestorWalk : Nat := 128

/-- The ids an ancestor walk visits: at most `fuel` of them. -/
def ancestorChain (entries : IdMap Entry) : Nat → Option EntryId → List EntryId
  | fuel + 1, some id => id :: ancestorChain entries fuel (entries[id]?.bind (·.parentId))
  | _, _ => []

def saturatingSub32 (left right : UInt32) : UInt32 :=
  if left < right then 0 else left - right

def saturatingSub64 (left right : UInt64) : UInt64 :=
  if left < right then 0 else left - right

def saturatingAdd32 (left right : UInt32) : UInt32 :=
  if left + right < left then 0xFFFFFFFF else left + right

def saturatingAdd64 (left right : UInt64) : UInt64 :=
  if left + right < left then 0xFFFFFFFFFFFFFFFF else left + right

namespace Summaries

def seed (summaries : Summaries) (id : EntryId) (visible : Bool) (size : UInt64) : Summaries :=
  ⟨summaries.visibleCounts.insert id (if visible then 1 else 0), summaries.totalSizes.insert id size⟩

/-- Adds to every id of a walk; `+=` wraps, and `none` leaves the counts alone. -/
def add (summaries : Summaries) (chain : List EntryId) (visible : Option UInt32) (size : UInt64) :
    Summaries :=
  chain.foldl (fun sums id =>
    ⟨match visible with
      | none => sums.visibleCounts
      | some count => sums.visibleCounts.insert id (sums.visibleCounts.getD id 0 + count),
    sums.totalSizes.insert id (sums.totalSizes.getD id 0 + size)⟩) summaries

/-- Moves every slot of a walk by a signed difference, saturating. -/
def shift (summaries : Summaries) (chain : List EntryId) (visible size : Int) : Summaries :=
  chain.foldl (fun sums id =>
    ⟨if visible = 0 then sums.visibleCounts
      else
        let slot := sums.visibleCounts.getD id 0
        sums.visibleCounts.insert id
          (if visible > 0 then saturatingAdd32 slot (.ofNat visible.toNat)
            else saturatingSub32 slot (.ofNat (-visible).toNat)),
    if size = 0 then sums.totalSizes
      else
        let slot := sums.totalSizes.getD id 0
        sums.totalSizes.insert id
          (if size > 0 then saturatingAdd64 slot (.ofNat size.toNat)
            else saturatingSub64 slot (.ofNat (-size).toNat))⟩) summaries

/-- Takes from every id of a walk that has a slot. -/
def sub (summaries : Summaries) (chain : List EntryId) (visible : UInt32) (size : UInt64) :
    Summaries :=
  chain.foldl (fun sums id =>
    ⟨sums.visibleCounts.modify id (saturatingSub32 · visible),
    sums.totalSizes.modify id (saturatingSub64 · size)⟩) summaries

def erase (summaries : Summaries) (ids : List EntryId) : Summaries :=
  ⟨eraseAll summaries.visibleCounts ids, eraseAll summaries.totalSizes ids⟩

end Summaries

namespace StoreSnapshot

def emptyWithProjection (visibility : VisibilityPolicy) (compactFolders : Bool)
    (fileNesting : FileNestingPolicy) : StoreSnapshot :=
  ⟨∅, ∅, ∅, [], 0, ∅, ⟨∅, ∅⟩, visibility, compactFolders, fileNesting⟩

def childrenOf (snapshot : StoreSnapshot) (id : EntryId) : List EntryId :=
  snapshot.children.getD id []

/-- An id and its known descendants, in the order of the stack walk. -/
def subtree (snapshot : StoreSnapshot) (stack : List EntryId) : List EntryId :=
  Forest.collect snapshot.childrenOf snapshot.entries.size stack

/-- Drops every record of the given ids; `roots` and parent lists stay. -/
def evict (snapshot : StoreSnapshot) (ids : List EntryId) : StoreSnapshot :=
  { snapshot with
    entries := eraseAll snapshot.entries ids
    children := eraseAll snapshot.children ids
    loadedDirectories := snapshot.loadedDirectories.filter (· ∉ ids)
    directChildCounts := eraseAll snapshot.directChildCounts ids
    descendants := snapshot.descendants.erase ids }

/-- Records a fresh entry and its own summaries; it is not linked yet. -/
def addRecord (snapshot : StoreSnapshot) (visibility : VisibilityPolicy) (id : EntryId)
    (entry : Entry) : StoreSnapshot :=
  { snapshot with
    entries := snapshot.entries.insert id entry
    descendants := snapshot.descendants.seed id (visibility.includes entry) entry.size }

/-- Records a page before any of it is linked. -/
def addRecords (snapshot : StoreSnapshot) (visibility : VisibilityPolicy)
    (additions : List Addition) : StoreSnapshot :=
  additions.foldl (fun snapshot addition =>
    snapshot.addRecord visibility addition.id addition.entry) snapshot

/-- Hangs an id below a parent at its sorted place and counts it. -/
def addChild (snapshot : StoreSnapshot) (order : SiblingOrder) (parentId id : EntryId) :
    StoreSnapshot :=
  { snapshot with
    children := snapshot.children.insert parentId
      (order.insertSorted snapshot.entries id (snapshot.childrenOf parentId))
    directChildCounts := snapshot.directChildCounts.insert parentId
      (snapshot.directChildCounts.getD parentId 0 + 1) }

/-- Takes an id out of a parent's list, if there is one, and its count. -/
def dropChild (snapshot : StoreSnapshot) (parentId id : EntryId) : StoreSnapshot :=
  { snapshot with
    children := snapshot.children.modify parentId (·.filter (· ≠ id))
    directChildCounts := snapshot.directChildCounts.modify parentId (saturatingSub32 · 1) }

/-- Marks directories as listed and pins their counts to their lists. -/
def markLoaded (snapshot : StoreSnapshot) (ids : List EntryId) : StoreSnapshot :=
  { snapshot with
    loadedDirectories := snapshot.loadedDirectories ∪ ids.toFinset
    directChildCounts := insertAll snapshot.directChildCounts (ids.map (fun id =>
      (id, UInt32.ofNat (min (snapshot.childrenOf id).length 0xFFFFFFFF)))) }

/-- The parent field of a live id. -/
def parentLink (snapshot : StoreSnapshot) (id : EntryId) : Option (Option EntryId) :=
  snapshot.entries[id]?.map (·.parentId)

variable {snapshot : StoreSnapshot} {visibility : VisibilityPolicy} {order : SiblingOrder}
variable {ids : List EntryId} {additions : List Addition} {id other parentId : EntryId}

theorem childrenOf_eq : snapshot.childrenOf id = snapshot.children[id]?.getD [] :=
  Std.ExtTreeMap.getD_eq_getD_getElem?

theorem parentLink_eq_some {link : Option EntryId} :
    snapshot.parentLink id = some link ↔ ∃ entry, snapshot.entries[id]? = some entry ∧ entry.parentId = link := by
  simp [parentLink]

theorem parentLink_isSome :
    (snapshot.parentLink id).isSome = true ↔ snapshot.entries[id]?.isSome = true := by
  simp [parentLink]

theorem evict_entries : (snapshot.evict ids).entries[id]? =
    if id ∈ ids then none else snapshot.entries[id]? :=
  lookup_eraseAll

theorem evict_childrenOf : (snapshot.evict ids).childrenOf id =
    if id ∈ ids then [] else snapshot.childrenOf id := by
  rw [childrenOf_eq, childrenOf_eq]
  simp only [evict, lookup_eraseAll]
  split <;> rfl

theorem evict_counts : (snapshot.evict ids).directChildCounts[id]? =
    if id ∈ ids then none else snapshot.directChildCounts[id]? :=
  lookup_eraseAll

@[simp] theorem addRecord_childrenOf {entry : Entry} :
    (snapshot.addRecord visibility id entry).childrenOf other = snapshot.childrenOf other := rfl

theorem addChild_childrenOf : (snapshot.addChild order parentId id).childrenOf other =
    if parentId = other then order.insertSorted snapshot.entries id (snapshot.childrenOf parentId)
    else snapshot.childrenOf other := by
  rw [childrenOf_eq]
  simp only [addChild, lookup_insert]
  split
  · rfl
  · exact childrenOf_eq.symm

theorem addChild_counts (snapshot : StoreSnapshot) (order : SiblingOrder) (parentId id other : EntryId) :
    (snapshot.addChild order parentId id).directChildCounts[other]? =
    if parentId = other then some (snapshot.directChildCounts[parentId]?.getD 0 + 1)
    else snapshot.directChildCounts[other]? := by
  simp only [addChild, lookup_insert, Std.ExtTreeMap.getD_eq_getD_getElem?]

theorem dropChild_childrenOf : (snapshot.dropChild parentId id).childrenOf other =
    if parentId = other then (snapshot.childrenOf other).filter (· ≠ id)
    else snapshot.childrenOf other := by
  rw [childrenOf_eq, childrenOf_eq]
  simp only [dropChild, lookup_modify]
  split
  · cases snapshot.children[other]? <;> rfl
  · rfl

theorem dropChild_counts : (snapshot.dropChild parentId id).directChildCounts[other]? =
    if parentId = other then snapshot.directChildCounts[other]?.map (saturatingSub32 · 1)
    else snapshot.directChildCounts[other]? :=
  lookup_modify

theorem addRecords_entries : (snapshot.addRecords visibility additions).entries =
    insertAll snapshot.entries (additions.map (fun addition => (addition.id, addition.entry))) := by
  unfold addRecords insertAll
  induction additions generalizing snapshot with
  | nil => rfl
  | cons head tail ih => exact ih

theorem addRecords_frame :
    (snapshot.addRecords visibility additions).children = snapshot.children ∧
      (snapshot.addRecords visibility additions).roots = snapshot.roots ∧
      (snapshot.addRecords visibility additions).directChildCounts = snapshot.directChildCounts ∧
      (snapshot.addRecords visibility additions).loadedDirectories = snapshot.loadedDirectories := by
  unfold addRecords
  induction additions generalizing snapshot with
  | nil => exact ⟨rfl, rfl, rfl, rfl⟩
  | cons head tail ih => exact ih

theorem addRecords_childrenOf :
    (snapshot.addRecords visibility additions).childrenOf id = snapshot.childrenOf id := by
  rw [childrenOf_eq, childrenOf_eq, addRecords_frame.1]

end StoreSnapshot

end Mille
