import Mille.Core.StoreRuns
import Mille.Lib.Run

/-! Every mutation of the store, `remove` included, and what one of them can
publish. Nothing here asks for a forest: a removed record may leave children
behind, and an insert may name a parent that is gone. -/

namespace Mille

open Maps Forest

/-- A mutation: an operation of a run, or the removal of one record alone. -/
inductive Edit where
  | op (op : Op)
  | remove (id : EntryId)

namespace EntryStore

/-- The store a mutation leaves behind, whether it succeeds or fails. -/
def edit (store : EntryStore) : Edit → EntryStore
  | .op op => store.apply op
  | .remove id => (store.remove id).2

/-- What a mutation can publish: a failed or idle call moves at most the counter. -/
inductive Published (store : EntryStore) : Edit → EntryStore → Prop where
  | idle (edit : Edit) (counter : Nat) (later : store.idCounter ≤ counter)
      (ceiling : counter ≤ entryIdMax) : Published store edit { store with idCounter := counter }
  | insert (path : Path) (given entry : Entry) (stamped : entry = { given with id := store.idCounter })
      (unindexed : store.pathToId[path]? = none) (room : store.idCounter < entryIdMax) :
      Published store (.op (.insert path given))
        ({ store with idCounter := store.idCounter + 1 }.installInsert path store.idCounter entry)
  | insertBatch (entries : List (Path × Entry)) (additions : List Addition) (counter : Nat)
      (later : store.idCounter ≤ counter) (ceiling : counter ≤ entryIdMax)
      (fresh : store.Fresh [] store.idCounter counter additions) :
      Published store (.op (.insertBatch entries)) ({ store with idCounter := counter }.installBatch additions)
  | update (id : EntryId) (given existing updated : Entry) (stamped : updated = { given with id := id })
      (found : store.inner.entries[id]? = some existing) (parent : updated.parentId = existing.parentId)
      (name : updated.name = existing.name) :
      Published store (.op (.update id given)) (store.installUpdate id existing updated)
  | rename (id : EntryId) (entry : Entry) (oldPath newPath : Path) (newParentId : Option EntryId)
      (updates : List PathUpdate) (newName : String) (found : store.inner.entries[id]? = some entry)
      (indexed : store.idToPath[id]? = some oldPath)
      (planned : store.planRename id entry oldPath newPath = .ok (newParentId, updates, newName)) :
      Published store (.op (.rename id newPath)) (store.installRename id entry newParentId updates newName)
  | removeSubtree (id : EntryId) (entry : Entry) (found : store.inner.entries[id]? = some entry) :
      Published store (.op (.removeSubtree id))
        (store.installRemoval id entry (store.inner.subtree [id]))
  | replaceRoots (roots : List (Path × Entry)) (orderedIds : List EntryId) (additions : List Addition)
      (counter : Nat) (later : store.idCounter ≤ counter) (ceiling : counter ≤ entryIdMax)
      (fresh : store.Fresh [] store.idCounter counter additions)
      (added : ∀ addition ∈ additions, addition.entry.parentId = none ∧ addition.id ∈ orderedIds)
      (origin : ∀ id ∈ orderedIds, id ∈ additions.map (·.id) ∨
        id ∈ store.inner.roots ∧ store.inner.parentLink id = some none) :
      Published store (.op (.replaceRoots roots)) ({ store with idCounter := counter }.installRoots orderedIds
        ((store.inner.roots.filter (· ∉ orderedIds)).flatMap (fun top => store.inner.subtree [top])) additions)
  | reorderRoots (roots : List EntryId) (same : ∀ id, id ∈ roots ↔ id ∈ store.inner.roots) :
      Published store (.op (.reorderRoots roots)) (store.publish { store.inner with roots := roots }
        (fun changes => { changes with changedIds := changes.changedIds ∪ roots.toFinset }))
  | markRootUnavailable (id : EntryId) (root : Entry) (found : store.inner.entries[id]? = some root)
      (top : root.parentId = none) :
      Published store (.op (.markRootUnavailable id)) (store.installUnavailable id root
        (store.inner.subtree (store.inner.childrenOf id).reverse))
  | markDirectoriesChildrenLoaded (ids loaded : List EntryId) :
      Published store (.op (.markDirectoriesChildrenLoaded ids))
        (store.publish (store.inner.markLoaded loaded) (fun changes =>
          { changes with childSetChanged := changes.childSetChanged ∪ loaded.toFinset }))
  | reconfigureProjection (order : SiblingOrder) (visibility : VisibilityPolicy) (compactFolders : Bool)
      (fileNesting : FileNestingPolicy) :
      Published store (.op (.reconfigureProjection order visibility compactFolders fileNesting))
        (store.installProjection order visibility compactFolders fileNesting
          (store.reclassify none).1 (store.reclassify none).2)
  | reconfigureProjectionWithExclusions (order : SiblingOrder) (visibility : VisibilityPolicy)
      (compactFolders : Bool) (fileNesting : FileNestingPolicy) (classify : Path → Entry → Bool) :
      Published store
        (.op (.reconfigureProjectionWithExclusions order visibility compactFolders fileNesting classify))
        (store.installProjection order visibility compactFolders fileNesting
          (store.reclassify (some classify)).1 (store.reclassify (some classify)).2)
  | remove (id : EntryId) (existing : Entry) (found : store.inner.entries[id]? = some existing) :
      Published store (.remove id) (store.remove id).2

variable {store : EntryStore}

theorem Published.same (edit : Edit) (ceiling : store.idCounter ≤ entryIdMax) : store.Published edit store :=
  .idle edit store.idCounter (le_refl _) ceiling

theorem insert_published (ceiling : store.idCounter ≤ entryIdMax) (path : Path) (entry : Entry) :
    store.Published (.op (.insert path entry)) (store.insert path entry).2 := by
  unfold insert
  split
  · exact .same _ ceiling
  · rename_i unindexed
    have moved := EntryId.allocFrom_counter ceiling
    split
    · rename_i error counter allocated
      rw [allocated] at moved
      exact .idle _ counter moved.1 moved.2
    · rename_i id counter allocated
      obtain ⟨rfl, room, rfl⟩ := EntryId.allocFrom_ok allocated
      exact .insert path entry _ rfl unindexed room

theorem insertBatch_published (ceiling : store.idCounter ≤ entryIdMax) (entries : List (Path × Entry)) :
    store.Published (.op (.insertBatch entries)) (store.insertBatch entries).2 := by
  have resolved := resolveBatch_spec store entries [] ceiling
  unfold insertBatch
  split
  · rename_i error counter failed
    rw [failed] at resolved
    exact .idle _ counter resolved.1 resolved.2.1
  · rename_i counter empty
    rw [empty] at resolved
    exact .idle _ counter resolved.1 resolved.2.1
  · rename_i additions counter _ found
    rw [found] at resolved
    exact .insertBatch entries additions counter resolved.1 resolved.2.1 (resolved.2.2 additions rfl)

theorem update_published (ceiling : store.idCounter ≤ entryIdMax) (id : EntryId) (updated : Entry) :
    store.Published (.op (.update id updated)) (store.update id updated).2 := by
  unfold update
  split
  · exact .same _ ceiling
  · rename_i existing found
    split
    · exact .same _ ceiling
    · rename_i kept
      simp only [ne_eq, not_or, not_not] at kept
      split
      · exact .same _ ceiling
      · exact .update id updated existing _ rfl found kept.1 kept.2

theorem rename_published (ceiling : store.idCounter ≤ entryIdMax) (id : EntryId) (newPath : Path) :
    store.Published (.op (.rename id newPath)) (store.rename id newPath).2 := by
  unfold rename
  split
  · exact .same _ ceiling
  · rename_i entry found
    split
    · exact .same _ ceiling
    · rename_i oldPath indexed
      split
      · exact .same _ ceiling
      · split
        · exact .same _ ceiling
        · rename_i newParentId updates newName planned
          exact .rename id entry oldPath newPath newParentId updates newName found indexed planned

theorem removeSubtree_published (ceiling : store.idCounter ≤ entryIdMax) (id : EntryId) :
    store.Published (.op (.removeSubtree id)) (store.removeSubtree id).2 := by
  unfold removeSubtree
  split
  · exact .same _ ceiling
  · rename_i entry found
    exact .removeSubtree id entry found

theorem replaceRoots_published (ceiling : store.idCounter ≤ entryIdMax) (roots : List (Path × Entry)) :
    store.Published (.op (.replaceRoots roots)) (store.replaceRoots roots).2 := by
  unfold replaceRoots
  dsimp only
  split
  · exact .same _ ceiling
  · rename_i checked
    obtain ⟨nodup, unseen⟩ := checkRoots_nodup checked
    have resolved := @resolveRoots_origin store roots [] store.idCounter ceiling nodup unseen
    split
    · exact .same _ ceiling
    · split
      · rename_i error counter failed
        rw [failed] at resolved
        exact .idle _ counter resolved.1 resolved.2.1
      · rename_i orderedIds additions counter found
        rw [found] at resolved
        obtain ⟨fresh, added, origin⟩ := resolved.2.2 orderedIds additions rfl
        split
        · exact .idle _ counter resolved.1 resolved.2.1
        · exact .replaceRoots roots orderedIds additions counter resolved.1 resolved.2.1 fresh added
            (fun id member => (origin id member).imp_right And.left)

theorem reorderRoots_published (ceiling : store.idCounter ≤ entryIdMax) (roots : List EntryId) :
    store.Published (.op (.reorderRoots roots)) (store.reorderRoots roots).2 := by
  unfold reorderRoots
  dsimp only
  split
  · exact .same _ ceiling
  · split
    · exact .same _ ceiling
    · rename_i permuted
      simp only [ne_eq, not_or, not_not] at permuted
      split
      · exact .same _ ceiling
      · refine .reorderRoots roots fun id => ?_
        rw [← List.mem_toFinset, permuted.2, List.mem_toFinset]

theorem markRootUnavailable_published (ceiling : store.idCounter ≤ entryIdMax) (id : EntryId) :
    store.Published (.op (.markRootUnavailable id)) (store.markRootUnavailable id).2 := by
  unfold markRootUnavailable
  dsimp only
  split
  · exact .same _ ceiling
  · rename_i root found
    split
    · exact .same _ ceiling
    · rename_i top
      simp only [not_or, Bool.not_eq_true, Option.isSome_eq_false_iff, Option.isNone_iff_eq_none] at top
      split
      · exact .same _ ceiling
      · exact .markRootUnavailable id root found top.1

theorem markDirectoriesChildrenLoaded_published (ceiling : store.idCounter ≤ entryIdMax)
    (ids : List EntryId) : store.Published (.op (.markDirectoriesChildrenLoaded ids))
      (store.markDirectoriesChildrenLoaded ids).2 := by
  unfold markDirectoriesChildrenLoaded
  split
  · exact .same _ ceiling
  · exact .same _ ceiling
  · exact .markDirectoriesChildrenLoaded ids _

theorem remove_published (ceiling : store.idCounter ≤ entryIdMax) (id : EntryId) :
    store.Published (.remove id) (store.remove id).2 := by
  cases found : store.inner.entries[id]? with
  | none =>
    simp only [remove, found]
    exact .same _ ceiling
  | some existing => exact .remove id existing found

theorem edit_published (ceiling : store.idCounter ≤ entryIdMax) (edit : Edit) :
    store.Published edit (store.edit edit) := by
  cases edit with
  | remove id => exact remove_published ceiling id
  | op op =>
    cases op with
    | insert path entry => exact insert_published ceiling path entry
    | insertBatch entries => exact insertBatch_published ceiling entries
    | update id updated => exact update_published ceiling id updated
    | rename id newPath => exact rename_published ceiling id newPath
    | removeSubtree id => exact removeSubtree_published ceiling id
    | replaceRoots roots => exact replaceRoots_published ceiling roots
    | reorderRoots roots => exact reorderRoots_published ceiling roots
    | markRootUnavailable rootId => exact markRootUnavailable_published ceiling rootId
    | markDirectoriesChildrenLoaded ids => exact markDirectoriesChildrenLoaded_published ceiling ids
    | reconfigureProjection order visibility compactFolders fileNesting =>
      simp only [EntryStore.edit, apply, reconfigureProjection, reconfigureProjectionInner]
      split
      · exact .same _ ceiling
      · exact .reconfigureProjection order visibility compactFolders fileNesting
    | reconfigureProjectionWithExclusions order visibility compactFolders fileNesting classify =>
      simp only [EntryStore.edit, apply, reconfigureProjectionWithExclusions, reconfigureProjectionInner]
      split
      · exact .same _ ceiling
      · exact .reconfigureProjectionWithExclusions order visibility compactFolders fileNesting classify

end EntryStore

end Mille
