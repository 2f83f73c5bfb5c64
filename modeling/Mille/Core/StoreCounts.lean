import Mille.Core.StoreRename
import Mille.Core.StoreRoots

/-! Direct child counts. They are kept beside the child lists as 32-bit
integers, so they follow the lists while no list reaches `2 ^ 32` ids. -/

namespace Mille.EntryStore

open Maps Forest

/-- A count slot beside its list: absent only for an empty list. -/
def CountOk (count : Option UInt32) (listed : List EntryId) : Prop :=
  match count with
  | none => listed = []
  | some count => count.toNat = listed.length

/-- Child counts agree with the child lists wherever they are present. -/
def Counted (store : EntryStore) : Prop :=
  ∀ id, CountOk store.inner.directChildCounts[id]? (store.inner.childrenOf id)

/-- No child list is longer than a count can say. -/
def Countable (store : EntryStore) : Prop :=
  ∀ id, (store.inner.childrenOf id).length < 2 ^ 32

variable {count : Option UInt32} {listed listed' : List EntryId}

theorem CountOk.congr (ok : CountOk count listed) (same : listed'.length = listed.length) :
    CountOk count listed' := by
  cases count with
  | none =>
    have empty : listed = [] := ok
    exact List.length_eq_zero_iff.mp (by simp [same, empty])
  | some count => exact Eq.trans (show count.toNat = listed.length from ok) same.symm

theorem CountOk.getD (ok : CountOk count listed) : (count.getD 0).toNat = listed.length := by
  cases count with
  | none =>
    have empty : listed = [] := ok
    simp [empty]
  | some count => exact ok

theorem CountOk.grow (ok : CountOk count listed) (extra : Nat)
    (longer : listed'.length = listed.length + extra) (fits : listed'.length < 2 ^ 32) :
    CountOk (some (count.getD 0 + .ofNat extra)) listed' := by
  have start := ok.getD
  show (count.getD 0 + .ofNat extra).toNat = listed'.length
  have width : UInt32.size = 2 ^ 32 := rfl
  rw [UInt32.toNat_add, start, UInt32.toNat_ofNat_of_lt' (by omega), ← longer]
  exact Nat.mod_eq_of_lt fits

theorem CountOk.shrink (ok : CountOk count listed) (shorter : listed'.length + 1 = listed.length) :
    CountOk (count.map (saturatingSub32 · 1)) listed' := by
  cases count with
  | none =>
    have empty : listed = [] := ok
    simp [empty] at shorter
  | some count =>
    have start : count.toNat = listed.length := ok
    show (saturatingSub32 count 1).toNat = listed'.length
    have enough : ¬ count < 1 := by
      rw [UInt32.lt_iff_toNat_lt]
      simp only [UInt32.toNat_one]
      omega
    have le : (1 : UInt32) ≤ count := UInt32.not_lt.mp enough
    rw [saturatingSub32, if_neg enough, UInt32.toNat_sub_of_le _ _ le, UInt32.toNat_one]
    omega

variable {store after : EntryStore} {id : EntryId} {entry : Entry} {path : Path}

theorem Counted.congr (counted : store.Counted)
    (counts : after.inner.directChildCounts = store.inner.directChildCounts)
    (lists : ∀ id, (after.inner.childrenOf id).Perm (store.inner.childrenOf id)) : after.Counted := by
  intro id
  rw [counts]
  exact (counted id).congr (lists id).length_eq

theorem installRemoval_directChildCounts {ids : List EntryId} :
    (store.installRemoval id entry ids).inner.directChildCounts =
      match entry.parentId with
      | none => (store.inner.evict ids).directChildCounts
      | some parentId => ((store.inner.evict ids).dropChild parentId id).directChildCounts := by
  unfold installRemoval
  cases entry.parentId <;> rfl

theorem installRemoval_counts {ids : List EntryId} {other : EntryId} :
    (store.installRemoval id entry ids).inner.directChildCounts[other]? =
      if entry.parentId = some other then
        (store.inner.evict ids).directChildCounts[other]?.map (saturatingSub32 · 1)
      else (store.inner.evict ids).directChildCounts[other]? := by
  rw [installRemoval_directChildCounts]
  cases entry.parentId with
  | none => simp
  | some parentId => simp [StoreSnapshot.dropChild_counts]

theorem Forested.filter_ne_length (forested : store.Forested) {parentId : EntryId}
    (member : id ∈ store.inner.childrenOf parentId) :
    ((store.inner.childrenOf parentId).filter (· ≠ id)).length + 1 =
      (store.inner.childrenOf parentId).length := by
  have erased : (store.inner.childrenOf parentId).filter (· ≠ id) =
      (store.inner.childrenOf parentId).erase id := by
    rw [(forested.linked.children_nodup parentId).erase_eq_filter]
    exact List.filter_congr fun node _ => by rw [Bool.eq_iff_iff]; simp
  have positive := List.length_pos_of_mem member
  rw [erased, List.length_erase_of_mem member]
  omega

theorem removeSubtree_counted (forested : store.Forested) (counted : store.Counted) (id : EntryId) :
    (store.removeSubtree id).2.Counted := by
  unfold removeSubtree
  split
  · exact counted
  · rename_i entry found
    have live : store.inner.entries[id]?.isSome = true := by simp [found]
    have link : store.inner.parentLink id = some entry.parentId :=
      StoreSnapshot.parentLink_eq_some.mpr ⟨entry, found, rfl⟩
    intro other
    dsimp only
    rw [installRemoval_counts, installRemoval_childrenOf, StoreSnapshot.evict_counts]
    by_cases out : other ∈ store.inner.subtree [id]
    · rw [if_pos out, if_pos out]
      split <;> rfl
    · rw [if_neg out, if_neg out]
      split
      · rename_i parent
        have member : id ∈ store.inner.childrenOf other :=
          (forested.linked.child_iff id other).mpr (link.trans (congrArg some parent))
        exact (counted other).shrink (forested.filter_ne_length member)
      · exact counted other

theorem update_counted (counted : store.Counted) (id : EntryId) (updated : Entry) :
    (store.update id updated).2.Counted := by
  unfold update
  split
  · exact counted
  · split
    · exact counted
    · split
      · exact counted
      · exact counted.congr rfl (fun above => installUpdate_childrenOf)

theorem reorderRoots_counted (counted : store.Counted) (roots : List EntryId) :
    (store.reorderRoots roots).2.Counted := by
  unfold reorderRoots
  dsimp only
  split
  · exact counted
  · split
    · exact counted
    · split <;> exact counted

theorem markDirectoriesChildrenLoaded_childrenOf {ids : List EntryId} {above : EntryId} :
    (store.markDirectoriesChildrenLoaded ids).2.inner.childrenOf above =
      store.inner.childrenOf above := by
  unfold markDirectoriesChildrenLoaded
  split <;> rfl

theorem markDirectoriesChildrenLoaded_counted (counted : store.Counted) (countable : store.Countable)
    (ids : List EntryId) : (store.markDirectoriesChildrenLoaded ids).2.Counted := by
  unfold markDirectoriesChildrenLoaded
  split
  · exact counted
  · exact counted
  · rename_i loaded _ _
    intro id
    have pinned : (store.publish (store.inner.markLoaded loaded) (fun changes =>
        { changes with childSetChanged := changes.childSetChanged ∪ loaded.toFinset
          })).inner.directChildCounts[id]? =
        if id ∈ loaded then some (UInt32.ofNat (min (store.inner.childrenOf id).length 0xFFFFFFFF))
        else store.inner.directChildCounts[id]? := lookup_insertAll_map
    dsimp only
    rw [pinned]
    split
    · have fits := countable id
      show UInt32.toNat (.ofNat (min (store.inner.childrenOf id).length 0xFFFFFFFF)) =
        (store.inner.childrenOf id).length
      have width : UInt32.size = 2 ^ 32 := rfl
      rw [UInt32.toNat_ofNat_of_lt' (by omega)]
      omega
    · exact counted id

theorem reconfigureProjectionInner_counted (counted : store.Counted) (order : SiblingOrder)
    (visibility : VisibilityPolicy) (compactFolders : Bool) (fileNesting : FileNestingPolicy)
    (classify : Option (Path → Entry → Bool)) :
    (store.reconfigureProjectionInner order visibility compactFolders fileNesting classify).2.Counted := by
  unfold reconfigureProjectionInner
  dsimp only
  split
  · exact counted
  · exact counted.congr rfl (fun id => installProjection_childrenOf)

theorem installInsert_counts {above : EntryId} :
    (store.installInsert path id entry).inner.directChildCounts[above]? =
      if entry.parentId = some above then some (store.inner.directChildCounts[above]?.getD 0 + 1)
      else store.inner.directChildCounts[above]? := by
  unfold installInsert
  cases link : entry.parentId with
  | none => rfl
  | some parentId =>
    refine (StoreSnapshot.addChild_counts _ store.siblingOrder parentId id above).trans ?_
    by_cases same : parentId = above
    · subst same
      simp only [if_pos]
      rfl
    · rw [if_neg same, if_neg (by simpa using same)]
      rfl

theorem installInsert_length {above : EntryId} :
    ((store.installInsert path id entry).inner.childrenOf above).length =
      (store.inner.childrenOf above).length + if entry.parentId = some above then 1 else 0 := by
  rw [installInsert_childrenOf.length_eq]
  by_cases parent : entry.parentId = some above <;>
    simp [links, Linked.graftsAt, parent, Nat.add_comm]

theorem insert_counted (counted : store.Counted) (path : Path) (entry : Entry)
    (countable : (store.insert path entry).2.Countable) : (store.insert path entry).2.Counted := by
  revert countable
  unfold insert
  split
  · exact fun _ => counted
  · split
    · exact fun _ => counted
    · intro countable above
      have fits := countable above
      dsimp only at fits ⊢
      rw [installInsert_counts]
      split
      · rename_i parent
        refine (counted above).grow 1 ?_ fits
        rw [installInsert_length, if_pos parent]
      · rename_i other
        refine (counted above).congr ?_
        rw [installInsert_length, if_neg other, Nat.add_zero]

theorem increments_lookup {parents : List EntryId} {counts : IdMap UInt32} {other : EntryId} :
    (parents.foldl (fun counts parentId =>
      counts.insert parentId (counts.getD parentId 0 + 1)) counts)[other]? =
      if other ∈ parents then some (counts[other]?.getD 0 + .ofNat (parents.count other))
      else counts[other]? := by
  induction parents generalizing counts with
  | nil => simp
  | cons head tail ih =>
    rw [List.foldl_cons, ih, lookup_insert, Std.ExtTreeMap.getD_eq_getD_getElem?]
    by_cases same : head = other
    · subst same
      by_cases again : head ∈ tail
      · simp [again, add_assoc, add_comm, add_left_comm]
      · simp [again, List.count_eq_zero_of_not_mem again]
    · simp [same, Ne.symm same]

theorem incoming_length {additions : List Addition} {parentId : EntryId} :
    (incoming additions parentId).length =
      (additions.filterMap (·.entry.parentId)).count parentId := by
  rw [incoming, List.length_map, ← List.countP_eq_length_filter, List.count, List.countP_filterMap]
  refine List.countP_congr fun addition _ => ?_
  cases addition.entry.parentId <;> simp

theorem insertBatch_counted (counted : store.Counted) (entries : List (Path × Entry))
    (countable : (store.insertBatch entries).2.Countable) :
    (store.insertBatch entries).2.Counted := by
  unfold insertBatch at countable ⊢
  split at countable
  · exact counted
  · exact counted
  · rename_i additions counter _ _
    intro above
    have fits := countable above
    dsimp only at fits ⊢
    set advanced : EntryStore := { store with idCounter := counter }
    have children : ((advanced.installBatch additions).inner.childrenOf above).Perm
        (incoming additions above ++ advanced.inner.childrenOf above) := by
      rw [incoming_eq]
      exact installBatch_childrenOf
    have length : ((advanced.installBatch additions).inner.childrenOf above).length =
        (store.inner.childrenOf above).length +
          (additions.filterMap (·.entry.parentId)).count above := by
      rw [children.length_eq, List.length_append, incoming_length, Nat.add_comm]
    have reduced : (advanced.installBatch additions).inner.directChildCounts =
        (additions.filterMap (·.entry.parentId)).foldl (fun counts parentId =>
          counts.insert parentId (counts.getD parentId 0 + 1)) store.inner.directChildCounts := by
      have recorded : (store.inner.addRecords store.visibility additions).directChildCounts =
          store.inner.directChildCounts := StoreSnapshot.addRecords_frame.2.2.1
      rw [← recorded]
      rfl
    rw [reduced, increments_lookup]
    split
    · exact (counted above).grow _ length fits
    · rename_i absent
      refine (counted above).congr ?_
      rw [length, List.count_eq_zero_of_not_mem absent, Nat.add_zero]

theorem markRootUnavailable_counted (counted : store.Counted) (rootId : EntryId) :
    (store.markRootUnavailable rootId).2.Counted := by
  unfold markRootUnavailable
  dsimp only
  split
  · exact counted
  · split
    · exact counted
    · split
      · exact counted
      · rename_i root _ _ _
        intro other
        rw [installUnavailable_childrenOf]
        simp only [installUnavailable, unindex_inner, publish_counts, lookup_insert,
          StoreSnapshot.evict_counts]
        by_cases same : rootId = other
        · simp only [same, if_pos, true_or]
          rfl
        · simp only [same, if_false, false_or]
          split
          · rfl
          · exact counted other

theorem replaceRoots_counted (counted : store.Counted) (roots : List (Path × Entry)) :
    (store.replaceRoots roots).2.Counted := by
  unfold replaceRoots
  dsimp only
  split
  · exact counted
  · split
    · exact counted
    · split
      · exact counted
      · rename_i orderedIds additions counter _
        split
        · exact counted
        · intro other
          obtain ⟨_, children, _⟩ := installRoots_inner { store with idCounter := counter } orderedIds
            ((store.inner.roots.filter (· ∉ orderedIds)).flatMap
              (fun top => store.inner.subtree [top])) additions
          rw [children]
          simp only [installRoots, withoutRoots, index, unindex_inner, publish_counts,
            StoreSnapshot.addRecords_frame, StoreSnapshot.evict_counts]
          rw [StoreSnapshot.childrenOf_eq]
          simp only [StoreSnapshot.evict, lookup_eraseAll]
          split
          · rfl
          · rw [← StoreSnapshot.childrenOf_eq]
            exact counted other

theorem installRename_counts_same {updates : List PathUpdate} {newName : String} :
    (store.installRename id entry entry.parentId updates newName).inner.directChildCounts =
      store.inner.directChildCounts := by
  unfold installRename
  dsimp only
  cases entry.parentId with
  | none => rfl
  | some parentId => simp [moveIndex]

theorem installRename_counts_moved {updates : List PathUpdate} {newName : String}
    {oldParent newParent other : EntryId} (link : entry.parentId = some oldParent)
    (changed : oldParent ≠ newParent) :
    (store.installRename id entry (some newParent) updates newName).inner.directChildCounts[other]? =
      if newParent = other then some (store.inner.directChildCounts[other]?.getD 0 + 1)
      else if oldParent = other then store.inner.directChildCounts[other]?.map (saturatingSub32 · 1)
      else store.inner.directChildCounts[other]? := by
  have reduced : (store.installRename id entry (some newParent) updates newName).inner.directChildCounts =
      ((({ store.inner with
        entries := store.inner.entries.insert id
          { entry with name := newName, parentId := some newParent } }.dropChild oldParent id).addChild
        store.siblingOrder newParent id).directChildCounts) := by
    unfold installRename
    simp only [link, if_pos changed, reparent, moveIndex]
    rfl
  rw [reduced, StoreSnapshot.addChild_counts]
  by_cases target : newParent = other
  · subst target
    rw [if_pos rfl, if_pos rfl, StoreSnapshot.dropChild_counts, if_neg changed]
  · rw [if_neg target, if_neg target, StoreSnapshot.dropChild_counts]

theorem installRename_counted (forested : store.Forested) (counted : store.Counted)
    (found : store.inner.entries[id]? = some entry) {oldPath newPath : Path}
    {newParentId : Option EntryId} {updates : List PathUpdate} {newName : String}
    (plan : store.RenamePlan id entry oldPath newPath newParentId updates newName)
    (countable : (store.installRename id entry newParentId updates newName).Countable) :
    (store.installRename id entry newParentId updates newName).Counted := by
  have link : store.inner.parentLink id = some entry.parentId :=
    StoreSnapshot.parentLink_eq_some.mpr ⟨entry, found, rfl⟩
  by_cases changed : entry.parentId = newParentId
  · subst changed
    refine counted.congr installRename_counts_same (fun above => installRename_childrenOf_same ?_)
    intro parentId parent
    exact (forested.linked.child_iff id parentId).mpr (link.trans (congrArg some parent))
  · obtain ⟨_, _, ⟨_, same⟩ | ⟨_, rooted, parent, _, rfl⟩⟩ := plan.parent
    · exact absurd same.symm changed
    obtain ⟨oldParent, old⟩ := Option.ne_none_iff_exists'.mp rooted
    have moved : oldParent ≠ parent.id := fun same => changed (by rw [old, same])
    intro above
    have fits := countable above
    have children : ((store.installRename id entry (some parent.id) updates
        newName).inner.childrenOf above).length = _ :=
      (installRename_childrenOf_moved old moved).length_eq
    rw [installRename_counts_moved old moved]
    by_cases target : parent.id = above
    · rw [if_pos target]
      refine (counted above).grow 1 ?_ fits
      rw [children, if_pos target.symm, List.length_cons]
    · rw [if_neg target]
      rw [if_neg (Ne.symm target)] at children
      split
      · rename_i source
        subst source
        have member : id ∈ store.inner.childrenOf oldParent :=
          (forested.linked.child_iff id oldParent).mpr (link.trans (congrArg some old))
        refine (counted oldParent).shrink ?_
        rw [children, if_pos rfl, forested.filter_ne_length member]
      · rename_i elsewhere
        refine (counted above).congr ?_
        rw [children, if_neg (Ne.symm elsewhere)]

theorem rename_counted (forested : store.Forested) (counted : store.Counted) (id : EntryId)
    (newPath : Path) (countable : (store.rename id newPath).2.Countable) :
    (store.rename id newPath).2.Counted := by
  revert countable
  unfold rename
  split
  · exact fun _ => counted
  · rename_i entry found
    split
    · exact fun _ => counted
    · split
      · exact fun _ => counted
      · split
        · exact fun _ => counted
        · rename_i planned
          exact installRename_counted forested counted found (planRename_ok planned)

end Mille.EntryStore
