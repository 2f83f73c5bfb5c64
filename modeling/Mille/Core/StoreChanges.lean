import Mille.Core.SortLaws
import Mille.Core.StoreLists
import Mille.Core.Summaries

/-! What a drained `ChangeSet` covers. One lemma per mutation compares the
snapshots around it with what it records; a dead id never comes back, so the
comparison carries over to the whole stretch between two drains. -/

namespace Mille.EntryStore

open Maps Forest

variable {store after : EntryStore} {id : EntryId} {entry : Entry} {path : Path}
variable {next : StoreSnapshot} {change : ChangeSet → ChangeSet}

theorem publish_pending : ∃ changes, (store.publish next change).pendingChanges = change changes ∧
    changes.changedIds = store.pendingChanges.changedIds ∧
    changes.childSetChanged = store.pendingChanges.childSetChanged ∧
    changes.subtreeRootsChanged = store.pendingChanges.subtreeRootsChanged ∧
    changes.projectionChanged = store.pendingChanges.projectionChanged := by
  unfold publish recordMutation
  dsimp only
  split
  · exact ⟨_, rfl, rfl, rfl, rfl, rfl⟩
  · exact ⟨_, rfl, rfl, rfl, rfl, rfl⟩

theorem unindex_pending (store : EntryStore) (ids : List EntryId) :
    (store.unindex ids).pendingChanges = store.pendingChanges := by
  unfold unindex
  induction ids generalizing store with
  | nil => rfl
  | cons head tail ih =>
    rw [List.foldl_cons, ih]
    split <;> rfl

@[simp] theorem index_pending (additions : List Addition) :
    (store.index additions).pendingChanges = store.pendingChanges := rfl

@[simp] theorem unindexScan_pending (ids : List EntryId) :
    (store.unindexScan ids).pendingChanges = store.pendingChanges := rfl

@[simp] theorem moveIndex_pending (updates : List PathUpdate) :
    (store.moveIndex updates).pendingChanges = store.pendingChanges := rfl

/-- Pending sets with three of them enlarged. -/
structure Enlarged (before changes : ChangeSet) (ids lists tops : Finset EntryId) : Prop where
  changed : changes.changedIds = before.changedIds ∪ ids
  childSet : changes.childSetChanged = before.childSetChanged ∪ lists
  subtree : changes.subtreeRootsChanged = before.subtreeRootsChanged ∪ tops
  projection : changes.projectionChanged = before.projectionChanged

theorem publish_enlarged {ids lists tops : Finset EntryId}
    (grows : ∀ changes, Enlarged changes (change changes) ids lists tops) :
    Enlarged store.pendingChanges (store.publish next change).pendingChanges ids lists tops := by
  obtain ⟨changes, shown, changed, childSet, subtree, projection⟩ := @publish_pending store next change
  obtain ⟨first, second, third, fourth⟩ := grows changes
  rw [shown]
  exact ⟨first.trans (by rw [changed]), second.trans (by rw [childSet]), third.trans (by rw [subtree]),
    fourth.trans projection⟩

/-- Outside the given ids no record differs. -/
def RecordsWithin (store after : EntryStore) (ids : Finset EntryId) : Prop :=
  ∀ id ∉ ids, after.inner.entries[id]? = store.inner.entries[id]?

/-- Outside the given ids no live id has another child list or loaded mark. -/
def ListsWithin (store after : EntryStore) (ids : Finset EntryId) : Prop :=
  ∀ id ∉ ids, after.Live id → after.inner.childrenOf id = store.inner.childrenOf id ∧
    (id ∈ after.inner.loadedDirectories ↔ id ∈ store.inner.loadedDirectories)

/-- Outside the given ids no live id has another summary. -/
def SumsWithin (store after : EntryStore) (ids : Finset EntryId) : Prop :=
  ∀ id ∉ ids, after.Live id →
    after.inner.descendants.visible id = store.inner.descendants.visible id ∧
      after.inner.descendants.size id = store.inner.descendants.size id

/-- A changed record leaves the order of its siblings as it was. -/
def KeepsOrder (store : EntryStore) : Edit → Prop
  | .op (.update id updated) => ∀ existing parentId, store.inner.entries[id]? = some existing →
      updated.parentId = existing.parentId → updated.name = existing.name →
      existing.parentId = some parentId → needsResort store.siblingOrder existing updated = true →
        store.siblingOrder.Ordered (store.inner.entries.insert id { updated with id := id })
          (store.inner.childrenOf parentId)
  | _ => True

/-- A moved subtree counts for nothing, or the walks up from its old and from its
new parent pass the same ids above them, none of which would run short. -/
def WalksAgree (store : EntryStore) : Edit → Prop
  | .op (.rename id newPath) => ∀ entry oldPath oldParent newParent updates newName,
      store.inner.entries[id]? = some entry → store.idToPath[id]? = some oldPath →
      store.planRename id entry oldPath newPath = .ok (some newParent, updates, newName) →
      entry.parentId = some oldParent → oldParent ≠ newParent →
        store.inner.descendants.visible id = 0 ∧ store.inner.descendants.size id = 0 ∨
        id ∉ ancestorChain store.inner.entries maxAncestorWalk (some oldParent) ∧
          ∀ other, other ≠ oldParent → other ≠ newParent →
            let passes := (ancestorChain store.inner.entries maxAncestorWalk (some oldParent)).count other
            passes = (ancestorChain store.inner.entries maxAncestorWalk (some newParent)).count other ∧
              passes * store.inner.descendants.visible id ≤ store.inner.descendants.visible other ∧
              passes * store.inner.descendants.size id ≤ store.inner.descendants.size other
  | _ => True

/-- What a mutation adds to the pending sets covers what it changes. -/
structure Noted (store : EntryStore) (edit : Edit) (after : EntryStore) (ids lists tops : Finset EntryId) :
    Prop where
  enlarged : Enlarged store.pendingChanges after.pendingChanges ids lists tops
  ages : store.Ages after
  records : RecordsWithin store after ids
  lists : store.KeepsOrder edit → ListsWithin store after lists
  sums : store.WalksAgree edit → SumsWithin store after (ids ∪ tops)

theorem idle_noted (edit : Edit) {counter : Nat} (later : store.idCounter ≤ counter) :
    store.Noted edit { store with idCounter := counter } ∅ ∅ ∅ where
  enlarged := ⟨by simp, by simp, by simp, rfl⟩
  ages := .advance later
  records _ _ := rfl
  lists _ _ _ _ := ⟨rfl, Iff.rfl⟩
  sums _ _ _ _ := ⟨rfl, rfl⟩

section Additions

variable {additions : List Addition}

theorem installInsert_descendants : (store.installInsert path id entry).inner.descendants =
    (store.inner.descendants.seed id (store.visibility.includes entry) entry.size).add
      (ancestorChain (store.inner.entries.insert id entry) maxAncestorWalk entry.parentId)
      (if store.visibility.includes entry then some 1 else none) entry.size := by
  unfold installInsert
  cases entry.parentId <;> rfl

theorem add_silent {sums : Summaries} {chain : List EntryId} {counted : Bool} {size : UInt64} {other : EntryId}
    (silent : (counted || size > 0) = true → other ∉ chain) :
    (sums.add chain (if counted then some 1 else none) size).visible other = sums.visible other ∧
      (sums.add chain (if counted then some 1 else none) size).size other = sums.size other := by
  by_cases heard : (counted || size > 0) = true
  · have out := silent heard
    constructor
    · split
      · rw [Summaries.add_visible, List.count_eq_zero.mpr out, Nat.zero_mul, Nat.add_zero,
          Nat.mod_eq_of_lt Summaries.visible_lt]
      · exact Summaries.add_visible_none _
    · rw [Summaries.add_size, List.count_eq_zero.mpr out, Nat.zero_mul, Nat.add_zero,
        Nat.mod_eq_of_lt Summaries.size_lt]
  · simp only [Bool.or_eq_true, decide_eq_true_eq, not_or, Bool.not_eq_true, gt_iff_lt] at heard
    have none : size = 0 := UInt64.le_antisymm (UInt64.not_lt.mp heard.2) UInt64.zero_le
    rw [heard.1, none]
    refine ⟨Summaries.add_visible_none _, ?_⟩
    rw [Summaries.add_size, UInt64.toNat_zero, Nat.mul_zero, Nat.add_zero,
      Nat.mod_eq_of_lt Summaries.size_lt]

theorem installInsert_enlarged : Enlarged store.pendingChanges
    (store.installInsert path id entry).pendingChanges {id} entry.parentId.toFinset
    (if store.visibility.includes entry || entry.size > 0 then
      ancestorChain (store.inner.entries.insert id entry) maxAncestorWalk entry.parentId else []).toFinset := by
  unfold installInsert
  rw [index_pending]
  refine publish_enlarged fun changes => ⟨rfl, rfl, ?_, rfl⟩
  cases entry.parentId <;> rfl

theorem installInsert_noted (edit : Edit) : ∃ ids lists tops, store.Noted edit
    ({ store with idCounter := store.idCounter + 1 }.installInsert path store.idCounter entry)
    ids lists tops := by
  have enlarged := @installInsert_enlarged
    { store with idCounter := store.idCounter + 1 } store.idCounter entry path
  have entries := @installInsert_entries { store with idCounter := store.idCounter + 1 } store.idCounter
    entry path
  refine ⟨_, _, _, enlarged, ⟨Nat.le_succ _, fun other live => ?_⟩, fun other outside => ?_,
    fun _ other outside live => ?_, fun _ other outside live => ?_⟩
  · unfold Live at live ⊢
    rw [entries, lookup_insert] at live
    split at live
    · rename_i same
      exact .inr same.le
    · exact .inl live
  · rw [entries, lookup_insert, if_neg (by simpa [eq_comm] using outside)]
  · have loaded : ({ store with idCounter := store.idCounter + 1 }.installInsert path store.idCounter
        entry).inner.loadedDirectories = store.inner.loadedDirectories := by
      unfold installInsert
      cases entry.parentId <;> rfl
    rw [loaded, installInsert_lists, if_neg (by simpa [Option.mem_toFinset] using outside)]
    exact ⟨rfl, Iff.rfl⟩
  · simp only [Finset.mem_union, Finset.mem_singleton, List.mem_toFinset, not_or] at outside
    obtain ⟨visible, size⟩ := @add_silent
      (store.inner.descendants.seed store.idCounter (store.visibility.includes entry) entry.size)
      (ancestorChain (store.inner.entries.insert store.idCounter entry) maxAncestorWalk entry.parentId)
      (store.visibility.includes entry) entry.size other
      (fun heard => by have out := outside.2; rwa [if_pos heard] at out)
    rw [installInsert_descendants, visible, size, Summaries.seed_visible, Summaries.seed_size,
      if_neg (Ne.symm outside.1), if_neg (Ne.symm outside.1)]
    exact ⟨rfl, rfl⟩

theorem addRecords_sums {snapshot : StoreSnapshot} {visibility : VisibilityPolicy} {other : EntryId}
    (outside : other ∉ additions.map (·.id)) :
    (snapshot.addRecords visibility additions).descendants.visible other =
        snapshot.descendants.visible other ∧
      (snapshot.addRecords visibility additions).descendants.size other =
        snapshot.descendants.size other := by
  unfold StoreSnapshot.addRecords
  induction additions generalizing snapshot with
  | nil => exact ⟨rfl, rfl⟩
  | cons head rest ih =>
    simp only [List.map_cons, List.mem_cons, not_or] at outside
    obtain ⟨visible, size⟩ := @ih (snapshot.addRecord visibility head.id head.entry) outside.2
    rw [List.foldl_cons, visible, size]
    simp only [StoreSnapshot.addRecord, Summaries.seed_visible, Summaries.seed_size,
      if_neg (Ne.symm outside.1)]
    exact ⟨trivial, trivial⟩

theorem foldl_add_silent {visibility : VisibilityPolicy} {chainOf : Addition → List EntryId}
    {sums : Summaries} {other : EntryId} (silent : other ∉ additions.flatMap (fun addition =>
      if visibility.includes addition.entry || addition.entry.size > 0 then chainOf addition else [])) :
    (additions.foldl (fun sums addition => sums.add (chainOf addition)
        (if visibility.includes addition.entry then some 1 else none) addition.entry.size) sums).visible other =
        sums.visible other ∧
      (additions.foldl (fun sums addition => sums.add (chainOf addition)
        (if visibility.includes addition.entry then some 1 else none) addition.entry.size) sums).size other =
        sums.size other := by
  induction additions generalizing sums with
  | nil => exact ⟨rfl, rfl⟩
  | cons head rest ih =>
    rw [List.flatMap_cons, List.mem_append, not_or] at silent
    obtain ⟨visible, size⟩ := @add_silent sums (chainOf head) (visibility.includes head.entry)
      head.entry.size other (fun heard => by have out := silent.1; rwa [if_pos heard] at out)
    rw [List.foldl_cons, (ih silent.2).1, (ih silent.2).2]
    exact ⟨visible, size⟩

theorem installBatch_enlarged : Enlarged store.pendingChanges (store.installBatch additions).pendingChanges
    (additions.map (·.id)).toFinset (additions.filterMap (·.entry.parentId)).dedup.toFinset
    (additions.flatMap (fun addition =>
      if store.visibility.includes addition.entry || addition.entry.size > 0 then
        ancestorChain (store.inner.addRecords store.visibility additions).entries maxAncestorWalk
          addition.entry.parentId
      else [])).toFinset := by
  unfold installBatch
  rw [index_pending]
  exact publish_enlarged fun changes => ⟨rfl, rfl, rfl, rfl⟩

theorem installBatch_noted (edit : Edit) {counter : Nat} (later : store.idCounter ≤ counter)
    (fresh : store.Fresh [] store.idCounter counter additions) : ∃ ids lists tops, store.Noted edit
    ({ store with idCounter := counter }.installBatch additions) ids lists tops := by
  have entries : ({ store with idCounter := counter }.installBatch additions).inner.entries =
      insertAll store.inner.entries (additions.map (fun addition => (addition.id, addition.entry))) :=
    StoreSnapshot.addRecords_entries
  have loaded : ({ store with idCounter := counter }.installBatch additions).inner.loadedDirectories =
      store.inner.loadedDirectories := StoreSnapshot.addRecords_frame.2.2.2
  have keys : (additions.map (fun addition => (addition.id, addition.entry))).map Prod.fst =
      additions.map (·.id) := by
    rw [List.map_map]
    rfl
  have enlarged := @installBatch_enlarged { store with idCounter := counter } additions
  refine ⟨_, _, _, enlarged, ⟨later, fun other live => ?_⟩, fun other outside => ?_,
    fun _ other outside live => ?_, fun _ other outside live => ?_⟩
  · unfold Live at live ⊢
    rw [entries, isSome_insertAll, keys] at live
    rcases live with new | old
    · obtain ⟨addition, present, rfl⟩ := List.mem_map.mp new
      exact .inr (fresh.range addition present).1
    · exact .inl old
  · rw [List.mem_toFinset] at outside
    rw [entries, lookup_insertAll_of_not_mem (keys ▸ outside)]
  · rw [List.mem_toFinset] at outside
    rw [loaded, installBatch_lists, if_neg outside]
    exact ⟨rfl, Iff.rfl⟩
  · simp only [Finset.mem_union, List.mem_toFinset, not_or] at outside
    obtain ⟨visible, size⟩ := @foldl_add_silent _ store.visibility (fun addition =>
      ancestorChain (store.inner.addRecords store.visibility additions).entries maxAncestorWalk
        addition.entry.parentId) (store.inner.addRecords store.visibility additions).descendants other
      outside.2
    obtain ⟨visible', size'⟩ := @addRecords_sums _ store.inner store.visibility other outside.1
    exact ⟨visible.trans visible', size.trans size'⟩

end Additions

section Records

/-- What an update adds to the counts of an entry and its ancestors. -/
def visibleDelta (store : EntryStore) (existing updated : Entry) : Int :=
  (if store.visibility.includes updated then 1 else 0) - (if store.visibility.includes existing then 1 else 0)

/-- What an update adds to their sizes. -/
def sizeDelta (existing updated : Entry) : Int :=
  updated.size.toNat - existing.size.toNat

theorem installUpdate_descendants {existing updated : Entry} :
    (store.installUpdate id existing updated).inner.descendants = store.inner.descendants.shift
      (ancestorChain (store.inner.entries.insert id updated) maxAncestorWalk (some id))
      (store.visibleDelta existing updated) (sizeDelta existing updated) := rfl

theorem installUpdate_enlarged {existing updated : Entry} : Enlarged store.pendingChanges
    (store.installUpdate id existing updated).pendingChanges {id} ∅
    (if store.visibleDelta existing updated = 0 ∧ sizeDelta existing updated = 0 then []
      else (ancestorChain (store.inner.entries.insert id updated) maxAncestorWalk (some id)).filter
        (· ≠ id)).toFinset := by
  unfold installUpdate
  exact publish_enlarged fun changes => ⟨rfl, (Finset.union_empty _).symm, rfl, rfl⟩

theorem installUpdate_noted {existing updated given : Entry}
    (found : store.inner.entries[id]? = some existing) (stamped : updated = { given with id := id })
    (parent : updated.parentId = existing.parentId) (name : updated.name = existing.name) :
    ∃ ids lists tops, store.Noted (.op (.update id given)) (store.installUpdate id existing updated)
      ids lists tops := by
  have lookup (other : EntryId) : (store.installUpdate id existing updated).inner.entries[other]? =
      if id = other then some updated else store.inner.entries[other]? :=
    lookup_insert
  refine ⟨_, _, _, installUpdate_enlarged, .of_live rfl fun other live => ?_, fun other outside => ?_,
    fun keeps other outside live => ?_, fun _ other outside live => ?_⟩
  · unfold Live at live ⊢
    rw [lookup] at live
    split at live
    · rename_i same
      simp [← same, found]
    · exact live
  · rw [lookup, if_neg (by simpa [eq_comm] using outside)]
  · refine ⟨?_, Iff.rfl⟩
    rw [installUpdate_lists]
    split
    · rename_i resort
      subst stamped
      exact List.mergeSort_of_pairwise (keeps existing other found parent name resort.1 resort.2)
    · rfl
  · simp only [Finset.mem_union, Finset.mem_singleton, List.mem_toFinset, not_or] at outside
    have still : (store.visibleDelta existing updated = 0 ∧ sizeDelta existing updated = 0) ∨
        other ∉ ancestorChain (store.inner.entries.insert id updated) maxAncestorWalk (some id) := by
      by_cases none : store.visibleDelta existing updated = 0 ∧ sizeDelta existing updated = 0
      · exact .inl none
      · have out := outside.2
        rw [if_neg none, List.mem_filter] at out
        exact .inr fun member => out ⟨member, by simpa using outside.1⟩
    rw [installUpdate_descendants]
    exact ⟨Summaries.shift_visible_same (still.imp_left And.left),
      Summaries.shift_size_same (still.imp_left And.right)⟩

theorem reorderRoots_noted (edit : Edit) (roots : List EntryId) : ∃ ids lists tops, store.Noted edit
    (store.publish { store.inner with roots := roots } (fun changes =>
      { changes with changedIds := changes.changedIds ∪ roots.toFinset })) ids lists tops := by
  refine ⟨roots.toFinset, ∅, ∅, ?_, .of_live rfl fun _ live => live, fun _ _ => rfl,
    fun _ _ _ _ => ⟨rfl, Iff.rfl⟩, fun _ _ _ _ => ⟨rfl, rfl⟩⟩
  exact publish_enlarged fun changes => ⟨rfl, (Finset.union_empty _).symm, (Finset.union_empty _).symm, rfl⟩

theorem markLoaded_noted (edit : Edit) (loaded : List EntryId) : ∃ ids lists tops, store.Noted edit
    (store.publish (store.inner.markLoaded loaded) (fun changes =>
      { changes with childSetChanged := changes.childSetChanged ∪ loaded.toFinset })) ids lists tops := by
  refine ⟨∅, loaded.toFinset, ∅, ?_, .of_live rfl fun _ live => live, fun _ _ => rfl,
    fun _ other outside _ => ⟨rfl, ?_⟩, fun _ _ _ _ => ⟨rfl, rfl⟩⟩
  · exact publish_enlarged fun changes => ⟨(Finset.union_empty _).symm, rfl, (Finset.union_empty _).symm, rfl⟩
  · have marks : (store.publish (store.inner.markLoaded loaded) (fun changes =>
        { changes with
          childSetChanged := changes.childSetChanged ∪ loaded.toFinset })).inner.loadedDirectories =
        store.inner.loadedDirectories ∪ loaded.toFinset := rfl
    rw [marks, Finset.mem_union, or_iff_left outside]

end Records

section Removal

theorem installRemoval_enlarged {gone : List EntryId} : Enlarged store.pendingChanges
    (store.installRemoval id entry gone).pendingChanges gone.toFinset entry.parentId.toFinset
    (if store.inner.descendants.visibleCounts.getD id 0 ≠ 0 ∨
        store.inner.descendants.totalSizes.getD id 0 ≠ 0 then
      ancestorChain (store.inner.evict gone).entries maxAncestorWalk entry.parentId else []).toFinset := by
  unfold installRemoval
  rw [unindexScan_pending]
  refine publish_enlarged fun changes => ⟨rfl, rfl, ?_, rfl⟩
  cases entry.parentId <;> rfl

theorem installRemoval_descendants {gone : List EntryId} :
    (store.installRemoval id entry gone).inner.descendants = (store.inner.descendants.erase gone).sub
      (ancestorChain (store.inner.evict gone).entries maxAncestorWalk entry.parentId)
      (store.inner.descendants.visibleCounts.getD id 0) (store.inner.descendants.totalSizes.getD id 0) := by
  unfold installRemoval
  cases entry.parentId <;> rfl

theorem sub_silent {sums : Summaries} {chain : List EntryId} {visible : UInt32} {size : UInt64}
    {other : EntryId} (silent : visible = 0 ∧ size = 0 ∨ other ∉ chain) :
    (sums.sub chain visible size).visible other = sums.visible other ∧
      (sums.sub chain visible size).size other = sums.size other := by
  rw [Summaries.sub_visible, Summaries.sub_size]
  rcases silent with ⟨rfl, rfl⟩ | out
  · simp
  · simp [List.count_eq_zero.mpr out]

theorem installRemoval_noted (edit : Edit) : ∃ ids lists tops, store.Noted edit
    (store.installRemoval id entry (store.inner.subtree [id])) ids lists tops := by
  set gone := store.inner.subtree [id]
  obtain ⟨entries, _, _, _, counter⟩ := installRemoval_inner store id entry gone
  have loaded : (store.installRemoval id entry gone).inner.loadedDirectories =
      store.inner.loadedDirectories.filter (· ∉ gone) := by
    unfold installRemoval
    cases entry.parentId <;> rfl
  have live (other : EntryId) (known : (store.installRemoval id entry gone).Live other) :
      other ∉ gone ∧ store.Live other := by
    unfold Live at known ⊢
    rw [entries, StoreSnapshot.evict_entries] at known
    split at known
    · cases known
    · rename_i kept
      exact ⟨kept, known⟩
  refine ⟨_, _, _, installRemoval_enlarged, .of_live counter fun other known => (live other known).2,
    fun other outside => ?_, fun _ other outside known => ?_, fun _ other outside known => ?_⟩
  · rw [entries, StoreSnapshot.evict_entries, if_neg (by simpa using outside)]
  · have kept := (live other known).1
    rw [loaded, installRemoval_childrenOf, if_neg kept,
      if_neg (by simpa [Option.mem_toFinset] using outside)]
    exact ⟨rfl, by simp [kept]⟩
  · have kept := (live other known).1
    simp only [Finset.mem_union, List.mem_toFinset, not_or] at outside
    obtain ⟨visible, size⟩ := @sub_silent (store.inner.descendants.erase gone)
      (ancestorChain (store.inner.evict gone).entries maxAncestorWalk entry.parentId)
      (store.inner.descendants.visibleCounts.getD id 0) (store.inner.descendants.totalSizes.getD id 0) other
      (by
        by_contra heard
        rw [not_or, not_not] at heard
        exact outside.2 (by rw [if_pos (not_and_or.mp heard.1)]; exact heard.2))
    rw [installRemoval_descendants, visible, size, Summaries.erase_visible, Summaries.erase_size,
      if_neg kept, if_neg kept]
    exact ⟨rfl, rfl⟩

theorem remove_enlarged (found : store.inner.entries[id]? = some entry) : Enlarged store.pendingChanges
    (store.remove id).2.pendingChanges {id} entry.parentId.toFinset
    (if (if store.visibility.includes entry then (1 : UInt32) else 0) > 0 || entry.size > 0 then
      ancestorChain (store.inner.entries.erase id) maxAncestorWalk entry.parentId else []).toFinset := by
  simp only [remove, found]
  rw [unindex_pending]
  refine publish_enlarged fun changes => ⟨rfl, rfl, ?_, rfl⟩
  cases entry.parentId <;> rfl

theorem remove_descendants (found : store.inner.entries[id]? = some entry) :
    (store.remove id).2.inner.descendants = (store.inner.descendants.erase [id]).sub
      (ancestorChain (store.inner.entries.erase id) maxAncestorWalk entry.parentId)
      (if store.visibility.includes entry then (1 : UInt32) else 0) entry.size := by
  simp only [remove, found, unindex_inner]
  cases entry.parentId <;> rfl

theorem remove_noted (edit : Edit) (found : store.inner.entries[id]? = some entry) :
    ∃ ids lists tops, store.Noted edit (store.remove id).2 ids lists tops := by
  obtain ⟨entries, children, _, counter⟩ := remove_inner found
  have loaded : (store.remove id).2.inner.loadedDirectories = store.inner.loadedDirectories.erase id := by
    simp only [remove, found, unindex_inner]
    cases entry.parentId <;> rfl
  have live (other : EntryId) (known : (store.remove id).2.Live other) : id ≠ other ∧ store.Live other := by
    unfold Live at known ⊢
    rw [entries, lookup_erase] at known
    split at known
    · cases known
    · rename_i distinct
      exact ⟨distinct, known⟩
  refine ⟨_, _, _, remove_enlarged found, .of_live counter fun other known => (live other known).2,
    fun other outside => ?_, fun _ other outside known => ?_, fun _ other outside known => ?_⟩
  · rw [entries, lookup_erase, if_neg (by simpa [eq_comm] using outside)]
  · have distinct := (live other known).1
    rw [loaded, children, if_neg (by simpa [Option.mem_toFinset] using outside)]
    exact ⟨rfl, by simp [Ne.symm distinct]⟩
  · have apart : other ∉ [id] := by simpa using Ne.symm (live other known).1
    simp only [Finset.mem_union, List.mem_toFinset, not_or] at outside
    obtain ⟨visible, size⟩ := @sub_silent (store.inner.descendants.erase [id])
      (ancestorChain (store.inner.entries.erase id) maxAncestorWalk entry.parentId)
      (if store.visibility.includes entry then (1 : UInt32) else 0) entry.size other
      (by
        by_contra heard
        rw [not_or, not_not] at heard
        refine outside.2 ?_
        rw [if_pos]
        · exact heard.2
        · by_contra silent
          simp only [Bool.or_eq_true, decide_eq_true_eq, not_or, gt_iff_lt] at silent
          exact heard.1 ⟨UInt32.le_antisymm (UInt32.not_lt.mp silent.1) UInt32.zero_le,
            UInt64.le_antisymm (UInt64.not_lt.mp silent.2) UInt64.zero_le⟩)
    rw [remove_descendants found, visible, size, Summaries.erase_visible, Summaries.erase_size,
      if_neg apart, if_neg apart]
    exact ⟨rfl, rfl⟩

end Removal

section Roots

theorem installUnavailable_noted (edit : Edit) (found : store.inner.entries[id]? = some entry)
    (gone : List EntryId) :
    ∃ ids lists tops, store.Noted edit (store.installUnavailable id entry gone) ids lists tops := by
  have enlarged : Enlarged store.pendingChanges (store.installUnavailable id entry gone).pendingChanges
      ({id} ∪ gone.toFinset) {id} ∅ := by
    unfold installUnavailable
    rw [unindex_pending]
    exact publish_enlarged fun changes =>
      ⟨(Finset.union_assoc _ _ _), rfl, (Finset.union_empty _).symm, rfl⟩
  have descendants : (store.installUnavailable id entry gone).inner.descendants =
      (store.inner.descendants.erase gone).seed id (store.visibility.includes entry.unavailable) 0 := by
    simp only [installUnavailable, unindex_inner]
    rfl
  have loaded : (store.installUnavailable id entry gone).inner.loadedDirectories =
      (store.inner.loadedDirectories.filter (· ∉ gone)).erase id := by
    simp only [installUnavailable, unindex_inner]
    rfl
  have live (other : EntryId) (known : (store.installUnavailable id entry gone).Live other) :
      (id = other ∨ other ∉ gone) ∧ store.Live other := by
    unfold Live at known ⊢
    rw [installUnavailable_lookup, StoreSnapshot.evict_entries] at known
    split at known
    · rename_i same
      exact ⟨.inl same, by simp [← same, found]⟩
    · split at known
      · cases known
      · rename_i kept
        exact ⟨.inr kept, known⟩
  refine ⟨_, _, _, enlarged, .of_live ?_ fun other known => (live other known).2,
    fun other outside => ?_, fun _ other outside known => ?_, fun _ other outside known => ?_⟩
  · simp only [installUnavailable, unindex_idCounter, publish_idCounter]
  · simp only [Finset.mem_union, Finset.mem_singleton, List.mem_toFinset, not_or] at outside
    rw [installUnavailable_lookup, if_neg (Ne.symm outside.1), StoreSnapshot.evict_entries,
      if_neg outside.2]
  · rw [Finset.mem_singleton] at outside
    have kept := (live other known).1.resolve_left (Ne.symm outside)
    rw [loaded, installUnavailable_childrenOf, if_neg (by simp [Ne.symm outside, kept])]
    exact ⟨rfl, by simp [outside, kept]⟩
  · simp only [Finset.mem_union, Finset.mem_singleton, List.mem_toFinset, not_or] at outside
    rw [descendants, Summaries.seed_visible, Summaries.seed_size, if_neg (Ne.symm outside.1.1),
      if_neg (Ne.symm outside.1.1), Summaries.erase_visible, Summaries.erase_size, if_neg outside.1.2,
      if_neg outside.1.2]
    exact ⟨rfl, rfl⟩

theorem installRoots_noted (edit : Edit) {orderedIds gone : List EntryId} {additions : List Addition}
    {counter : Nat} (later : store.idCounter ≤ counter) (known : ∀ id ∈ gone, id < store.idCounter)
    (fresh : store.Fresh [] store.idCounter counter additions)
    (added : ∀ addition ∈ additions, addition.entry.parentId = none ∧ addition.id ∈ orderedIds) :
    ∃ ids lists tops, store.Noted edit
      ({ store with idCounter := counter }.installRoots orderedIds gone additions) ids lists tops := by
  obtain ⟨entries, children, _, _, _, idCounter⟩ :=
    installRoots_inner { store with idCounter := counter } orderedIds gone additions
  obtain ⟨inner, _, _⟩ := withoutRoots_advance store counter gone
  rw [inner] at entries children
  have enlarged : Enlarged store.pendingChanges
      ({ store with idCounter := counter }.installRoots orderedIds gone additions).pendingChanges
      (gone.toFinset ∪ orderedIds.toFinset) ∅ ∅ := by
    unfold installRoots
    rw [index_pending, unindex_pending]
    have grown := @publish_enlarged { store with idCounter := counter }
      { (store.inner.evict gone).addRecords store.visibility additions with roots := orderedIds }
      (fun changes =>
        { changes with changedIds := changes.changedIds ∪ gone.toFinset ∪ orderedIds.toFinset })
      (gone.toFinset ∪ orderedIds.toFinset) ∅ ∅ (fun changes =>
        ⟨Finset.union_assoc _ _ _, (Finset.union_empty _).symm, (Finset.union_empty _).symm, rfl⟩)
    exact grown
  have outsider (other : EntryId) (outside : other ∉ gone.toFinset ∪ orderedIds.toFinset) :
      other ∉ gone ∧ other ∉ additions.map (·.id) := by
    simp only [Finset.mem_union, List.mem_toFinset, not_or] at outside
    refine ⟨outside.1, fun new => ?_⟩
    obtain ⟨addition, present, rfl⟩ := List.mem_map.mp new
    exact outside.2 (added addition present).2
  have keys : (additions.map (fun addition => (addition.id, addition.entry))).map Prod.fst =
      additions.map (·.id) := by
    rw [List.map_map]
    rfl
  have live (other : EntryId)
      (now : ({ store with idCounter := counter }.installRoots orderedIds gone additions).Live other) :
      (store.Live other ∨ store.idCounter ≤ other) ∧ other ∉ gone := by
    unfold Live at now ⊢
    rw [entries, isSome_insertAll, keys, withoutRoots_entries] at now
    rcases now with new | old
    · obtain ⟨addition, present, rfl⟩ := List.mem_map.mp new
      have late := (fresh.range addition present).1
      exact ⟨.inr late, fun out => absurd (known _ out) (Nat.not_lt.mpr late)⟩
    · split at old
      · cases old
      · rename_i kept
        exact ⟨.inl old, kept⟩
  have lists (other : EntryId) : ({ store with
      idCounter := counter }.installRoots orderedIds gone additions).inner.childrenOf other =
      if other ∈ gone then [] else store.inner.childrenOf other := by
    rw [children]
    simp only [withoutRoots, unindex_inner]
    exact StoreSnapshot.evict_childrenOf
  have loaded : ({ store with
      idCounter := counter }.installRoots orderedIds gone additions).inner.loadedDirectories =
      store.inner.loadedDirectories.filter (· ∉ gone) := by
    simp only [installRoots, index, unindex_inner]
    exact StoreSnapshot.addRecords_frame.2.2.2
  have descendants : ({ store with
      idCounter := counter }.installRoots orderedIds gone additions).inner.descendants =
      ((store.inner.evict gone).addRecords store.visibility additions).descendants := by
    simp only [installRoots, index, unindex_inner]
    rfl
  refine ⟨_, _, _, enlarged, ⟨later.trans idCounter.ge, fun other now => (live other now).1⟩,
    fun other outside => ?_, fun _ other _ now => ?_, fun _ other outside now => ?_⟩
  · obtain ⟨kept, old⟩ := outsider other outside
    rw [entries, lookup_insertAll_of_not_mem (keys ▸ old), withoutRoots_entries, if_neg kept]
  · have kept := (live other now).2
    rw [lists, loaded, if_neg kept]
    exact ⟨rfl, by simp [kept]⟩
  · obtain ⟨kept, old⟩ := outsider other (by simpa using outside)
    obtain ⟨visible, size⟩ := @addRecords_sums _ (store.inner.evict gone) store.visibility other old
    rw [descendants, visible, size]
    simp only [StoreSnapshot.evict, Summaries.erase_visible, Summaries.erase_size, if_neg kept]
    exact ⟨trivial, trivial⟩

end Roots

section Rename

variable {newParentId : Option EntryId} {updates : List PathUpdate} {newName : String}
variable {oldPath newPath : Path}

theorem ancestorChain_congr {entries records : IdMap Entry} {fuel : Nat} {top : Option EntryId}
    (same : ∀ id ∈ ancestorChain entries fuel top,
      records[id]?.bind (·.parentId) = entries[id]?.bind (·.parentId)) :
    ancestorChain records fuel top = ancestorChain entries fuel top := by
  induction fuel generalizing top with
  | zero => cases top <;> rfl
  | succ fuel ih =>
    cases top with
    | none => rfl
    | some id =>
      simp only [ancestorChain, List.mem_cons, forall_eq_or_imp] at same ⊢
      rw [same.1, ih same.2]

theorem checkReparent_avoids {hops : Nat} {cursor : Option EntryId}
    (passed : store.checkReparent id hops cursor = .ok ()) (fuel : Nat) :
    id ∉ ancestorChain store.inner.entries fuel cursor := by
  induction hops generalizing cursor fuel with
  | zero =>
    cases cursor with
    | none => cases fuel <;> simp [ancestorChain]
    | some candidate =>
      rw [checkReparent] at passed
      split at passed <;> cases passed
  | succ hops ih =>
    cases cursor with
    | none => cases fuel <;> simp [ancestorChain]
    | some candidate =>
      cases fuel with
      | zero => simp [ancestorChain]
      | succ fuel =>
        rw [checkReparent] at passed
        split at passed
        · cases passed
        · rename_i other
          rw [ancestorChain, List.mem_cons, not_or]
          exact ⟨Ne.symm other, ih passed fuel⟩

theorem installRename_loaded : (store.installRename id entry newParentId updates
    newName).inner.loadedDirectories = store.inner.loadedDirectories := by
  unfold installRename
  dsimp only
  cases entry.parentId with
  | none => rfl
  | some oldParent =>
    cases newParentId with
    | none => rfl
    | some newParent =>
      dsimp only
      split <;> rfl

theorem installRename_enlarged : Enlarged store.pendingChanges
    (store.installRename id entry newParentId updates newName).pendingChanges {id}
    (entry.parentId.toFinset ∪ newParentId.toFinset)
    (if entry.parentId = newParentId then ∅ else entry.parentId.toFinset ∪ newParentId.toFinset) := by
  unfold installRename
  rw [moveIndex_pending]
  refine publish_enlarged fun changes => ?_
  by_cases same : entry.parentId = newParentId
  · rw [if_neg (not_not.mpr same), if_pos same, ← same, Finset.union_idempotent]
    exact ⟨rfl, rfl, (Finset.union_empty _).symm, rfl⟩
  · rw [if_pos same, if_neg same]
    exact ⟨rfl, Finset.union_assoc _ _ _, Finset.union_assoc _ _ _, rfl⟩

theorem installRename_descendants_same :
    (store.installRename id entry entry.parentId updates newName).inner.descendants =
      store.inner.descendants := by
  unfold installRename
  dsimp only
  cases entry.parentId with
  | none => rfl
  | some oldParent =>
    simp [moveIndex, publish, recordMutation]

theorem installRename_descendants_moved {oldParent newParent : EntryId}
    (link : entry.parentId = some oldParent) (changed : oldParent ≠ newParent) :
    (store.installRename id entry (some newParent) updates newName).inner.descendants =
      (store.inner.descendants.sub
        (ancestorChain (store.inner.entries.insert id
          { entry with name := newName, parentId := some newParent }) maxAncestorWalk (some oldParent))
        (store.inner.descendants.visibleCounts.getD id 0) (store.inner.descendants.totalSizes.getD id 0)).add
        (ancestorChain (store.inner.entries.insert id
          { entry with name := newName, parentId := some newParent }) maxAncestorWalk (some newParent))
        (some (store.inner.descendants.visibleCounts.getD id 0))
        (store.inner.descendants.totalSizes.getD id 0) := by
  unfold installRename
  simp only [link, if_pos changed, reparent, moveIndex]
  rfl

/-- Moving a subtree between walks that agree leaves every other sum alone. -/
theorem installRename_sums (found : store.inner.entries[id]? = some entry)
    (indexed : store.idToPath[id]? = some oldPath) {oldParent newParent : EntryId}
    (planned : store.planRename id entry oldPath newPath = .ok (some newParent, updates, newName))
    (link : entry.parentId = some oldParent) (changed : oldParent ≠ newParent)
    (agree : store.WalksAgree (.op (.rename id newPath))) {other : EntryId} (old : other ≠ oldParent)
    (new : other ≠ newParent) :
    (store.installRename id entry (some newParent) updates newName).inner.descendants.visible other =
        store.inner.descendants.visible other ∧
      (store.installRename id entry (some newParent) updates newName).inner.descendants.size other =
        store.inner.descendants.size other := by
  have visible := @Summaries.visible_lt store.inner.descendants other
  have size := @Summaries.size_lt store.inner.descendants other
  rw [installRename_descendants_moved link changed, Summaries.add_visible, Summaries.add_size,
    Summaries.sub_visible, Summaries.sub_size]
  change (_ - _ * store.inner.descendants.visible id + _ * store.inner.descendants.visible id) % _ = _ ∧
    (_ - _ * store.inner.descendants.size id + _ * store.inner.descendants.size id) % _ = _
  rcases agree entry oldPath oldParent newParent updates newName found indexed planned link changed with
    ⟨noCount, noSize⟩ | ⟨apart, walks⟩
  · rw [noCount, noSize]
    simp only [Nat.mul_zero, Nat.sub_zero, Nat.add_zero]
    exact ⟨Nat.mod_eq_of_lt visible, Nat.mod_eq_of_lt size⟩
  · have record (fuel : Nat) (top : Option EntryId) (avoids : id ∉ ancestorChain store.inner.entries fuel top) :
        ancestorChain (store.inner.entries.insert id
          { entry with name := newName, parentId := some newParent }) fuel top =
          ancestorChain store.inner.entries fuel top := by
      refine ancestorChain_congr fun node member => ?_
      rw [lookup_insert, if_neg]
      rintro rfl
      exact avoids member
    have passed := (planRename_ok planned).outside (by simp [link, changed])
    obtain ⟨same, enough, enough'⟩ := walks other old new
    rw [record _ _ apart, record _ _ (checkReparent_avoids passed _), ← same,
      Nat.sub_add_cancel enough, Nat.sub_add_cancel enough']
    exact ⟨Nat.mod_eq_of_lt visible, Nat.mod_eq_of_lt size⟩

theorem installRename_noted (found : store.inner.entries[id]? = some entry)
    (indexed : store.idToPath[id]? = some oldPath)
    (planned : store.planRename id entry oldPath newPath = .ok (newParentId, updates, newName)) :
    ∃ ids lists tops, store.Noted (.op (.rename id newPath))
      (store.installRename id entry newParentId updates newName) ids lists tops := by
  refine ⟨_, _, _, installRename_enlarged, .of_live rfl fun other live => ?_, fun other outside => ?_,
    fun _ other outside live => ?_, fun agree other outside live => ?_⟩
  · unfold Live at live ⊢
    rw [installRename_lookup] at live
    split at live
    · rename_i same
      simp [← same, found]
    · exact live
  · rw [installRename_lookup, if_neg (by simpa [eq_comm] using outside)]
  · rw [installRename_loaded]
    simp only [Finset.mem_union, Option.mem_toFinset, Option.mem_def, not_or] at outside
    refine ⟨?_, Iff.rfl⟩
    rcases (planRename_ok planned).cases with rfl | ⟨oldParent, newParent, link, rfl, changed⟩
    · rw [installRename_lists_same, if_neg (fun here => outside.1 here.1)]
    · rw [installRename_lists_moved link changed, if_neg (by rintro rfl; exact outside.2 rfl),
        if_neg (by rintro rfl; exact outside.1 link)]
  · rcases (planRename_ok planned).cases with rfl | ⟨oldParent, newParent, link, rfl, changed⟩
    · rw [installRename_descendants_same]
      exact ⟨rfl, rfl⟩
    · rw [if_neg (by simp [link, changed])] at outside
      simp only [Finset.mem_union, Finset.mem_singleton, Option.mem_toFinset, Option.mem_def, link,
        Option.some.injEq, not_or] at outside
      exact installRename_sums found indexed planned link changed agree (Ne.symm outside.2.1)
        (Ne.symm outside.2.2)

end Rename

/-- Every mutation but a new projection records what it changes. -/
theorem Published.noted {edit : Edit} (published : store.Published edit after) (housed : store.Housed)
    (quiet : after.pendingChanges.projectionChanged = false) :
    ∃ ids lists tops, store.Noted edit after ids lists tops := by
  have loud {order : SiblingOrder} {visibility : VisibilityPolicy} {compactFolders : Bool}
      {fileNesting : FileNestingPolicy} {entries : IdMap Entry} {changed : List EntryId} :
      (store.installProjection order visibility compactFolders fileNesting entries
        changed).pendingChanges.projectionChanged = true := by
    unfold installProjection
    obtain ⟨changes, shown, _⟩ := @publish_pending
      { store with siblingOrder := order, visibility := visibility } _ _
    rw [shown]
  cases published with
  | idle _ counter later ceiling => exact ⟨_, _, _, idle_noted edit later⟩
  | insert path given entry stamped unindexed room => exact installInsert_noted _
  | insertBatch entries additions counter later ceiling fresh => exact installBatch_noted _ later fresh
  | update id given existing updated stamped found parent name =>
    exact installUpdate_noted found stamped parent name
  | rename id entry oldPath newPath newParentId updates newName found indexed planned =>
    exact installRename_noted found indexed planned
  | removeSubtree id entry found => exact installRemoval_noted _
  | replaceRoots roots orderedIds additions counter later ceiling fresh added origin =>
    refine installRoots_noted _ later (fun id out => ?_) fresh added
    obtain ⟨top, root, visited⟩ := List.mem_flatMap.mp out
    refine housed.collected_known (fun start same => ?_) visited
    rw [List.mem_singleton.mp same]
    exact housed.known top (List.mem_filter.mp root).1
  | reorderRoots roots same => exact reorderRoots_noted _ roots
  | markRootUnavailable id root found top => exact installUnavailable_noted _ found _
  | markDirectoriesChildrenLoaded ids loaded => exact markLoaded_noted _ loaded
  | reconfigureProjection order visibility compactFolders fileNesting =>
    rw [loud] at quiet
    cases quiet
  | reconfigureProjectionWithExclusions order visibility compactFolders fileNesting classify =>
    rw [loud] at quiet
    cases quiet
  | remove id existing found => exact remove_noted _ found

section Interval

/-- Outside the given ids nothing that is live in both stores has another value. -/
def Tracked {β : Type} (value : EntryStore → EntryId → β) (drained store : EntryStore)
    (ids : Finset EntryId) : Prop :=
  ∀ id ∉ ids, drained.Live id → store.Live id → value store id = value drained id

theorem Tracked.step {β : Type} {value : EntryStore → EntryId → β} {drained : EntryStore}
    {ids more : Finset EntryId} (tracked : Tracked value drained store ids) (housed : drained.Housed)
    (before : drained.Ages store) (ages : store.Ages after)
    (within : ∀ id ∉ more, after.Live id → value after id = value store id) :
    Tracked value drained after (ids ∪ more) := by
  intro id outside first last
  rw [Finset.mem_union, not_or] at outside
  have still : store.Live id := by
    rcases ages.2 id last with live | late
    · exact live
    · exact absurd (housed.bounded id first) (Nat.not_lt.mpr (before.1.trans late))
  rw [within id outside.2 last]
  exact tracked id outside.1 first still

/-- The ordered child list and the loaded mark of an id. -/
def listing (store : EntryStore) (id : EntryId) : List EntryId × Bool :=
  (store.inner.childrenOf id, id ∈ store.inner.loadedDirectories)

/-- Both summaries of an id. -/
def summary (store : EntryStore) (id : EntryId) : Nat × Nat :=
  (store.inner.descendants.visible id, store.inner.descendants.size id)

/-- The next store of a client that may also drain the pending changes. -/
def advance (store : EntryStore) : Option Edit → EntryStore
  | none => store.takePendingChanges.2
  | some edit => store.edit edit

/-- A store reached by any mutations and drains. -/
def Reached (store : EntryStore) : Prop :=
  ∃ order visibility compactFolders fileNesting, Run advance (fun _ _ => True)
    (withProjectionSettings order visibility compactFolders fileNesting) store

theorem Housed.drain (housed : store.Housed) : store.takePendingChanges.2.Housed :=
  { housed with }

theorem Reached.housed (reached : store.Reached) : store.Housed := by
  obtain ⟨order, visibility, compactFolders, fileNesting, run⟩ := reached
  refine run.invariant Housed (empty_housed order visibility compactFolders fileNesting) ?_
  intro store step housed _
  cases step with
  | none => exact housed.drain
  | some edit => exact (edit_published housed.ceiling edit).housed housed

theorem Reached.start : new.Reached :=
  ⟨_, _, _, _, .start⟩

theorem Reached.edit (reached : store.Reached) (edit : Edit) : (store.edit edit).Reached := by
  obtain ⟨order, visibility, compactFolders, fileNesting, run⟩ := reached
  exact ⟨order, visibility, compactFolders, fileNesting, run.step (some edit) trivial⟩

variable {drained : EntryStore} {allowed : EntryStore → Edit → Prop}

/-- Interval rule: what holds after a drain and survives every noted mutation
holds as long as no projection has changed. -/
theorem interval_invariant (housed : drained.Housed) (holds : EntryStore → Prop) (initial : holds drained)
    (preserved : ∀ store edit after ids lists tops, drained.Ages store → allowed store edit →
      store.Noted edit after ids lists tops → holds store → holds after)
    (run : Run edit allowed drained after) (quiet : after.pendingChanges.projectionChanged = false) :
    holds after := by
  have invariant : after.Housed ∧ (after.pendingChanges.projectionChanged = false →
      drained.Ages after ∧ holds after) := by
    refine run.invariant (fun store => store.Housed ∧ (store.pendingChanges.projectionChanged = false →
      drained.Ages store ∧ holds store)) ⟨housed, fun _ => ⟨.refl, initial⟩⟩ ?_
    intro store edit before meets
    have published := edit_published before.1.ceiling edit
    refine ⟨published.housed before.1, fun quiet => ?_⟩
    obtain ⟨ids, lists, tops, noted⟩ := published.noted before.1 quiet
    obtain ⟨ages, held⟩ := before.2 (noted.enlarged.projection.symm.trans quiet)
    exact ⟨ages.trans noted.ages, preserved store edit _ ids lists tops ages meets noted held⟩
  exact (invariant.2 quiet).2

theorem interval_records (housed : drained.Housed) (run : Run edit allowed drained after)
    (quiet : after.pendingChanges.projectionChanged = false) :
    RecordsWithin drained after after.pendingChanges.changedIds := by
  refine interval_invariant housed (fun store => RecordsWithin drained store store.pendingChanges.changedIds)
    (fun _ _ => rfl) ?_ run quiet
  intro store edit after ids lists tops _ _ noted within id outside
  rw [noted.enlarged.changed, Finset.mem_union, not_or] at outside
  rw [noted.records id outside.2]
  exact within id outside.1

theorem interval_listings (housed : drained.Housed) (run : Run edit KeepsOrder drained after)
    (quiet : after.pendingChanges.projectionChanged = false) :
    Tracked listing drained after after.pendingChanges.childSetChanged := by
  refine interval_invariant housed (fun store => Tracked listing drained store
    store.pendingChanges.childSetChanged) (fun _ _ _ _ => rfl) ?_ run quiet
  intro store edit after ids lists tops ages keeps noted tracked
  rw [noted.enlarged.childSet]
  refine tracked.step housed ages noted.ages fun id outside live => ?_
  obtain ⟨children, loaded⟩ := noted.lists keeps id outside live
  simp [listing, children, loaded]

theorem interval_summaries (housed : drained.Housed) (run : Run edit WalksAgree drained after)
    (quiet : after.pendingChanges.projectionChanged = false) : Tracked summary drained after
      (after.pendingChanges.changedIds ∪ after.pendingChanges.subtreeRootsChanged) := by
  refine interval_invariant housed (fun store => Tracked summary drained store
    (store.pendingChanges.changedIds ∪ store.pendingChanges.subtreeRootsChanged))
    (fun _ _ _ _ => rfl) ?_ run quiet
  intro store edit after ids lists tops ages agree noted tracked
  rw [noted.enlarged.changed, noted.enlarged.subtree, Finset.union_union_union_comm]
  refine tracked.step housed ages noted.ages fun id outside live => ?_
  obtain ⟨visible, size⟩ := noted.sums agree id outside live
  simp [summary, visible, size]

/-- Between two drains, with no projection changed and every re-sort of an
update idle, the drained sets name each record, child list and loaded mark that
differs. -/
theorem drained_changes_cover_structure (reached : store.Reached)
    (interval : Run edit KeepsOrder store.takePendingChanges.2 after)
    (quiet : after.takePendingChanges.1.projectionChanged = false) :
    (∀ id, after.inner.entries[id]? ≠ store.inner.entries[id]? →
      id ∈ after.takePendingChanges.1.changedIds) ∧
    ∀ id, store.Live id → after.Live id →
      (after.inner.childrenOf id ≠ store.inner.childrenOf id ∨
        ¬ (id ∈ after.inner.loadedDirectories ↔ id ∈ store.inner.loadedDirectories)) →
      id ∈ after.takePendingChanges.1.childSetChanged := by
  have housed := reached.housed.drain
  refine ⟨fun id differs => ?_, fun id first last differs => ?_⟩
  · by_contra outside
    exact differs (interval_records housed interval quiet id outside)
  · by_contra outside
    have same := interval_listings housed interval quiet id outside first last
    simp only [listing, Prod.mk.injEq, decide_eq_decide] at same
    exact differs.elim (· same.1) (· same.2)

/-- A plain record, as a walk would report it. -/
def plainEntry (parentId : Option EntryId) (name : String) (kind : EntryKind) : Entry :=
  ⟨0, parentId, name, kind, 0, 0, 0, none, none, false, false, false, false⟩

/-- A root with the files `a` and `b`. -/
def twoFiles : EntryStore :=
  ((new.edit (.op (.insert (Path.ofNames ["r"]) (plainEntry none "r" .directory)))).edit
    (.op (.insert (Path.ofNames ["r", "a"]) (plainEntry (some 0) "a" .file)))).edit
    (.op (.insert (Path.ofNames ["r", "b"]) (plainEntry (some 0) "b" .file)))

theorem twoFiles_reached : twoFiles.Reached :=
  ((Reached.start.edit _).edit _).edit _

/-- A file that becomes a directory goes to the top of its list, and only its
own record is noted. -/
theorem resorted_list_goes_unrecorded : ∃ store after id, Reached store ∧
    Run edit (fun _ _ => True) store.takePendingChanges.2 after ∧
    after.takePendingChanges.1.projectionChanged = false ∧ store.Live id ∧ after.Live id ∧
    after.inner.childrenOf id ≠ store.inner.childrenOf id ∧
    id ∉ after.takePendingChanges.1.childSetChanged := by
  refine ⟨twoFiles, twoFiles.takePendingChanges.2.edit (.op (.update 2 (plainEntry (some 0) "b" .directory))),
    0, twoFiles_reached, Run.start.step _ trivial, by decide, by unfold Live; decide,
    by unfold Live; decide, ?_, by decide⟩
  have found : twoFiles.takePendingChanges.2.inner.entries[2]? =
      some { plainEntry (some 0) "b" .file with id := 2 } := by decide
  have listed : twoFiles.inner.childrenOf 0 = [1, 2] := by decide
  have above : (twoFiles.takePendingChanges.2.siblingOrder.compareIds
      (twoFiles.takePendingChanges.2.inner.entries.insert 2
        { plainEntry (some 0) "b" .directory with id := 2 }) 1 2).isLE = false := by decide
  have updated : twoFiles.takePendingChanges.2.edit (.op (.update 2 (plainEntry (some 0) "b" .directory))) =
      twoFiles.takePendingChanges.2.installUpdate 2 { plainEntry (some 0) "b" .file with id := 2 }
        { plainEntry (some 0) "b" .directory with id := 2 } := by
    simp only [edit, apply, update, found]
    rfl
  have drained : twoFiles.takePendingChanges.2.inner.childrenOf 0 = [1, 2] := listed
  rw [updated, installUpdate_lists, if_pos (by decide), listed, drained,
    SiblingOrder.sortSiblings_pair above]
  decide

/-- The first file becomes a directory and stays first. -/
theorem drained_changes_cover_structure_first_file :
    1 ∈ (twoFiles.takePendingChanges.2.edit (.op (.update 1 (plainEntry (some 0) "a"
      .directory)))).takePendingChanges.1.changedIds := by
  refine (drained_changes_cover_structure twoFiles_reached (Run.start.step _ ?_)
    (by decide)).1 1 (by decide)
  intro existing parentId found _ _ link _
  have record : twoFiles.takePendingChanges.2.inner.entries[1]? =
      some { plainEntry (some 0) "a" .file with id := 1 } := by decide
  have listed : twoFiles.takePendingChanges.2.inner.childrenOf 0 = [1, 2] := by decide
  cases record.symm.trans found
  cases link
  unfold SiblingOrder.Ordered
  rw [listed]
  decide

/-- Between two drains, with no projection changed and every move between
walks that agree, the drained sets name each summary that differs. -/
theorem drained_changes_cover_summaries (reached : store.Reached)
    (interval : Run edit WalksAgree store.takePendingChanges.2 after)
    (quiet : after.takePendingChanges.1.projectionChanged = false) :
    ∀ id, store.Live id → after.Live id →
      (after.inner.subtreeVisibleCount id ≠ store.inner.subtreeVisibleCount id ∨
        after.inner.subtreeTotalSize id ≠ store.inner.subtreeTotalSize id) →
      id ∈ after.takePendingChanges.1.subtreeRootsChanged ∨ id ∈ after.takePendingChanges.1.changedIds := by
  intro id first last differs
  by_contra outside
  rw [← Finset.mem_union, Finset.union_comm] at outside
  have same := interval_summaries reached.housed.drain interval quiet id outside first last
  simp only [summary, Prod.mk.injEq] at same
  exact differs.elim (· (UInt32.toNat_inj.mp same.1)) (· (UInt64.toNat_inj.mp same.2))

/-- A root with the file `f` two folders down. -/
def deepFile : EntryStore :=
  (((new.edit (.op (.insert (Path.ofNames ["r"]) (plainEntry none "r" .directory)))).edit
    (.op (.insert (Path.ofNames ["r", "d"]) (plainEntry (some 0) "d" .directory)))).edit
    (.op (.insert (Path.ofNames ["r", "d", "e"]) (plainEntry (some 1) "e" .directory)))).edit
    (.op (.insert (Path.ofNames ["r", "d", "e", "f"]) (plainEntry (some 2) "f" .file)))

theorem deepFile_reached : deepFile.Reached :=
  (((Reached.start.edit _).edit _).edit _).edit _

/-- A file that moves up past a folder is gone from that folder's count, and
only its two parents are noted. -/
theorem moved_summary_goes_unrecorded : ∃ store after id, Reached store ∧
    Run edit (fun _ _ => True) store.takePendingChanges.2 after ∧
    after.takePendingChanges.1.projectionChanged = false ∧ store.Live id ∧ after.Live id ∧
    after.inner.subtreeVisibleCount id ≠ store.inner.subtreeVisibleCount id ∧
    id ∉ after.takePendingChanges.1.subtreeRootsChanged ∧ id ∉ after.takePendingChanges.1.changedIds :=
  ⟨deepFile, deepFile.takePendingChanges.2.edit (.op (.rename 3 (Path.ofNames ["r", "f"]))), 1,
    deepFile_reached, Run.start.step _ trivial, by decide, by unfold Live; decide,
    by unfold Live; decide, by decide, by decide, by decide⟩

/-- A root with the folders `d` and `e`, and the file `f` in the first. -/
def twoFolders : EntryStore :=
  (((new.edit (.op (.insert (Path.ofNames ["r"]) (plainEntry none "r" .directory)))).edit
    (.op (.insert (Path.ofNames ["r", "d"]) (plainEntry (some 0) "d" .directory)))).edit
    (.op (.insert (Path.ofNames ["r", "e"]) (plainEntry (some 0) "e" .directory)))).edit
    (.op (.insert (Path.ofNames ["r", "d", "f"]) (plainEntry (some 1) "f" .file)))

theorem twoFolders_reached : twoFolders.Reached :=
  (((Reached.start.edit _).edit _).edit _).edit _

/-- A move between sibling folders passes the same ids above them. -/
theorem drained_changes_cover_summaries_sibling_move :
    1 ∈ (twoFolders.takePendingChanges.2.edit (.op (.rename 3 (Path.ofNames ["r", "e",
        "f"])))).takePendingChanges.1.subtreeRootsChanged ∨
      1 ∈ (twoFolders.takePendingChanges.2.edit (.op (.rename 3 (Path.ofNames ["r", "e",
        "f"])))).takePendingChanges.1.changedIds := by
  refine drained_changes_cover_summaries twoFolders_reached (Run.start.step _ ?_) (by decide) 1 (by unfold Live; decide)
    (by unfold Live; decide) (by decide)
  intro entry oldPath oldParent newParent updates newName found indexed planned link _
  have record : twoFolders.takePendingChanges.2.inner.entries[3]? =
      some { plainEntry (some 1) "f" .file with id := 3 } := by decide
  have path : twoFolders.takePendingChanges.2.idToPath[3]? = some (Path.ofNames ["r", "d", "f"]) := by
    decide
  cases record.symm.trans found
  cases path.symm.trans indexed
  cases link
  have target : (twoFolders.takePendingChanges.2.planRename 3 { plainEntry (some 1) "f" .file with id := 3 }
      (Path.ofNames ["r", "d", "f"]) (Path.ofNames ["r", "e", "f"])).toOption.map (·.1) = some (some 2) := by
    decide
  rw [planned] at target
  cases target
  have old : ancestorChain twoFolders.takePendingChanges.2.inner.entries maxAncestorWalk (some 1) = [1, 0] := by
    decide
  have new : ancestorChain twoFolders.takePendingChanges.2.inner.entries maxAncestorWalk (some 2) = [2, 0] := by
    decide
  rw [old, new]
  refine .inr ⟨by decide, fun other first second => ?_⟩
  by_cases root : other = 0
  · subst root
    decide
  · simp [Ne.symm first, Ne.symm second, Ne.symm root]

end Interval

end Mille.EntryStore
