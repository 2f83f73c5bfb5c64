import Mille.Core.StoreForest

/-! Renames: what a passed plan has checked, which indexed paths it moves, and
that the moved entry leaves one child list for the other. -/

namespace Mille.EntryStore

open Maps Forest

variable {store : EntryStore} {id : EntryId} {entry : Entry} {path : Path}

section Rename

variable {oldPath newPath : Path} {newParentId : Option EntryId} {updates : List PathUpdate}
variable {newName : String}

/-- What every successful plan of a rename has checked. -/
structure RenamePlan (store : EntryStore) (id : EntryId) (entry : Entry) (oldPath newPath : Path)
    (newParentId : Option EntryId) (updates : List PathUpdate) (newName : String) : Prop where
  name : newPath.fileName = some (.utf8 newName)
  parent : ∃ newParentPath, newPath.parent = some newParentPath ∧
    (oldPath.parent = some newParentPath ∧ newParentId = entry.parentId ∨
      oldPath.parent ≠ some newParentPath ∧ entry.parentId ≠ none ∧
        ∃ parent, store.getByPath newParentPath = some parent ∧ newParentId = some parent.id)
  folder : ∀ parentId, newParentId = some parentId →
    ∃ parent, store.inner.entries[parentId]? = some parent ∧ parent.isFolder = true
  outside : entry.parentId ≠ newParentId → store.checkReparent id maxAncestorWalk newParentId = .ok ()
  moves : updates = store.pathUpdates id entry oldPath newPath
  free : store.takenDestination updates = none

theorem planRename_ok
    (planned : store.planRename id entry oldPath newPath = .ok (newParentId, updates, newName)) :
    store.RenamePlan id entry oldPath newPath newParentId updates newName := by
  unfold planRename at planned
  split at planned
  · cases planned
  · rename_i newParentPath above
    split at planned
    · cases planned
    · rename_i target destination
      split at planned
      · cases planned
      · rename_i folder
        split at planned
        · cases planned
        · rename_i unmoved
          split at planned
          · cases planned
          · rename_i outside
            dsimp only at planned
            split at planned
            · cases planned
            · rename_i free
              split at planned
              · cases planned
              · rename_i name valid
                cases planned
                refine ⟨?_, ⟨newParentPath, above, ?_⟩, ?_, ?_, rfl, free⟩
                · obtain ⟨raw, last, text⟩ := Option.bind_eq_some_iff.mp valid
                  cases raw with
                  | utf8 found =>
                    cases text
                    exact last
                  | raw bytes => cases text
                · unfold destinationParent at destination
                  split at destination
                  · rename_i same
                    cases destination
                    exact .inl ⟨same, rfl⟩
                  · rename_i other
                    split at destination
                    · rename_i parent found
                      cases destination
                      exact .inr ⟨other, fun top => unmoved ⟨top, other⟩, parent, found, rfl⟩
                    · cases destination
                · intro parentId same
                  subst same
                  cases found : store.inner.entries[parentId]? with
                  | none => simp [found] at folder
                  | some parent => exact ⟨parent, rfl, by simpa [found] using folder⟩
                · intro changed
                  rw [if_pos changed] at outside
                  exact outside

theorem checkReparent_ok {hops : Nat} {parentId : EntryId}
    (passed : store.checkReparent id hops (some parentId) = .ok ()) :
    ¬ Below store.inner.parentLink id parentId := by
  induction hops generalizing parentId with
  | zero =>
    rw [checkReparent] at passed
    split at passed <;> cases passed
  | succ hops ih =>
    rw [checkReparent] at passed
    split at passed
    · cases passed
    · rename_i other
      intro path
      cases path with
      | self => exact other rfl
      | @child _ above link rest =>
        obtain ⟨record, found, up⟩ := StoreSnapshot.parentLink_eq_some.mp link
        rw [found, Option.bind_some, up] at passed
        exact ih passed rest

theorem pathUpdates_directory (directory : entry.kind = .directory) :
    store.pathUpdates id entry oldPath newPath =
      (store.pathToId.toList.filter (fun binding => binding.1.startsWith oldPath)).map
        (fun binding => ⟨binding.1, binding.2, newPath ++ binding.1.drop oldPath.length⟩) := by
  rw [pathUpdates, if_pos directory]
  induction store.pathToId.toList with
  | nil => rfl
  | cons head tail ih =>
    rw [List.filterMap_cons, List.filter_cons, ih]
    unfold Path.stripPrefix
    by_cases under : head.1.startsWith oldPath = true <;> simp [under]

/-- The moves of a rename: held paths, distinct ids, distinct destinations. -/
theorem Forested.pathUpdates_spec (forested : store.Forested)
    (indexed : store.idToPath[id]? = some oldPath) (entry : Entry) (newPath : Path) :
    (∀ update ∈ store.pathUpdates id entry oldPath newPath,
      store.pathToId[update.old]? = some update.id ∧
        ∃ rest, update.old = oldPath ++ rest ∧ update.new = newPath ++ rest) ∧
      ((store.pathUpdates id entry oldPath newPath).map (·.id)).Nodup ∧
      ((store.pathUpdates id entry oldPath newPath).map (·.new)).Nodup := by
  by_cases directory : entry.kind = .directory
  · rw [pathUpdates_directory directory]
    have held (binding) (member : binding ∈ store.pathToId.toList.filter
        (fun binding => binding.1.startsWith oldPath)) :
        store.pathToId[binding.1]? = some binding.2 ∧ ∃ rest, binding.1 = oldPath ++ rest := by
      obtain ⟨listed, under⟩ := List.mem_filter.mp member
      exact ⟨Std.ExtTreeMap.mem_toList_iff_getElem?_eq_some.mp listed, Path.startsWith_exists.mp under⟩
    have distinct : (store.pathToId.toList.filter
        (fun binding => binding.1.startsWith oldPath)).Nodup := by
      refine List.Nodup.filter _ (List.Nodup.of_map Prod.fst ?_)
      rw [Std.ExtTreeMap.map_fst_toList_eq_keys]
      exact Std.ExtTreeMap.nodup_keys
    refine ⟨?_, ?_, ?_⟩
    · intro update member
      obtain ⟨binding, present, rfl⟩ := List.mem_map.mp member
      obtain ⟨known, rest, same⟩ := held binding present
      exact ⟨known, rest, same, by simp [same]⟩
    · rw [List.map_map]
      refine distinct.map_on ?_
      intro left leftMember right rightMember same
      have path := forested.inverse.injective (held left leftMember).1
        ((held right rightMember).1.trans (congrArg some (Eq.symm same)))
      exact Prod.ext path same
    · rw [List.map_map]
      refine distinct.map_on ?_
      intro left leftMember right rightMember same
      obtain ⟨known, rest, first⟩ := held left leftMember
      obtain ⟨known', rest', second⟩ := held right rightMember
      have rests : rest = rest' := by simpa [first, second] using same
      have paths : left.1 = right.1 := by rw [first, second, rests]
      rw [paths] at known
      exact Prod.ext paths (Option.some.inj (known.symm.trans known'))
  · simp only [pathUpdates, if_neg directory, List.mem_singleton, forall_eq, List.map_cons,
      List.map_nil, List.nodup_singleton, and_true]
    exact ⟨(forested.inverse oldPath id).mpr indexed, [], by simp, by simp⟩

theorem takenDestination_none (free : store.takenDestination updates = none) {update : PathUpdate}
    (member : update ∈ updates) {holder : EntryId}
    (known : store.pathToId[update.new]? = some holder) : holder ∈ updates.map (·.id) := by
  unfold takenDestination at free
  have none := List.find?_eq_none.mp (Option.map_eq_none_iff.mp free) update member
  simpa [known] using none

theorem Forested.moveIndex_inverse (forested : store.Forested)
    (indexed : store.idToPath[id]? = some oldPath)
    (free : store.takenDestination (store.pathUpdates id entry oldPath newPath) = none) :
    Inverse (store.moveIndex (store.pathUpdates id entry oldPath newPath)).pathToId
      (store.moveIndex (store.pathUpdates id entry oldPath newPath)).idToPath := by
  obtain ⟨held, ids, targets⟩ := forested.pathUpdates_spec indexed entry newPath
  have moved := forested.inverse.move ((store.pathUpdates id entry oldPath newPath).map
    (fun update => (update.old, update.id, update.new))) (by
      intro move member
      obtain ⟨update, present, rfl⟩ := List.mem_map.mp member
      exact (held update present).1)
    (by rw [List.map_map]; exact ids) (by rw [List.map_map]; exact targets) (by
      intro move member holder known
      obtain ⟨update, present, rfl⟩ := List.mem_map.mp member
      rw [List.map_map]
      exact takenDestination_none free present known)
  simp only [List.map_map] at moved
  exact moved

theorem Forested.moveIndex_lookup (forested : store.Forested)
    (indexed : store.idToPath[id]? = some oldPath) {other : EntryId} {path : Path} :
    (store.moveIndex (store.pathUpdates id entry oldPath newPath)).idToPath[other]? = some path ↔
      (∃ update ∈ store.pathUpdates id entry oldPath newPath, update.id = other ∧ update.new = path) ∨
        other ∉ (store.pathUpdates id entry oldPath newPath).map (·.id) ∧
          store.idToPath[other]? = some path := by
  obtain ⟨_, ids, _⟩ := forested.pathUpdates_spec indexed entry newPath
  have keys : ((store.pathUpdates id entry oldPath newPath).map
      (fun update => (update.id, update.new))).map Prod.fst =
      (store.pathUpdates id entry oldPath newPath).map (·.id) := by
    rw [List.map_map]
    rfl
  rw [moveIndex, lookup_insertAll (keys ▸ ids), keys, List.mem_map]
  simp only [Prod.mk.injEq]

theorem installRename_entries : (store.installRename id entry newParentId updates newName).inner.entries =
    store.inner.entries.insert id { entry with name := newName, parentId := newParentId } := by
  unfold installRename
  dsimp only
  cases entry.parentId with
  | none => rfl
  | some oldParent =>
    cases newParentId with
    | none => rfl
    | some newParent =>
      dsimp only
      split <;> rfl

theorem installRename_lookup {other : EntryId} :
    (store.installRename id entry newParentId updates newName).inner.entries[other]? =
      if id = other then some { entry with name := newName, parentId := newParentId }
      else store.inner.entries[other]? := by
  rw [installRename_entries, lookup_insert]

theorem installRename_roots :
    (store.installRename id entry newParentId updates newName).inner.roots = store.inner.roots := by
  unfold installRename
  dsimp only
  cases entry.parentId with
  | none => rfl
  | some oldParent =>
    cases newParentId with
    | none => rfl
    | some newParent =>
      dsimp only
      split <;> rfl

theorem installRename_children :
    (store.installRename id entry entry.parentId updates newName).inner.children =
      match entry.parentId with
      | none => store.inner.children
      | some parentId => store.inner.children.modify parentId (fun siblings =>
          store.siblingOrder.insertSorted
            (store.inner.entries.insert id { entry with name := newName }) id (siblings.erase id)) := by
  unfold installRename
  dsimp only
  cases entry.parentId with
  | none => rfl
  | some parentId => simp [moveIndex]

theorem installRename_lists_same {above : EntryId} :
    (store.installRename id entry entry.parentId updates newName).inner.childrenOf above =
      if entry.parentId = some above ∧ store.inner.children[above]?.isSome = true then
        store.siblingOrder.insertSorted (store.inner.entries.insert id { entry with name := newName }) id
          ((store.inner.childrenOf above).erase id)
      else store.inner.childrenOf above := by
  rw [StoreSnapshot.childrenOf_eq, StoreSnapshot.childrenOf_eq, installRename_children]
  cases link : entry.parentId with
  | none => simp
  | some parentId =>
    dsimp only
    rw [lookup_modify]
    by_cases same : parentId = above
    · subst same
      cases found : store.inner.children[parentId]? <;> simp
    · simp [same]

theorem installRename_childrenOf_same {above : EntryId}
    (listed : ∀ parentId, entry.parentId = some parentId → id ∈ store.inner.childrenOf parentId) :
    ((store.installRename id entry entry.parentId updates newName).inner.childrenOf above).Perm
      (store.inner.childrenOf above) := by
  rw [installRename_lists_same]
  split
  · rename_i here
    exact SiblingOrder.insertSorted_perm.trans (List.perm_cons_erase (listed above here.1)).symm
  · exact .refl _

theorem installRename_lists_moved {oldParent newParent above : EntryId}
    (link : entry.parentId = some oldParent) (changed : oldParent ≠ newParent) :
    (store.installRename id entry (some newParent) updates newName).inner.childrenOf above =
      if above = newParent then store.siblingOrder.insertSorted (store.inner.entries.insert id
        { entry with name := newName, parentId := some newParent }) id (store.inner.childrenOf above)
      else if above = oldParent then (store.inner.childrenOf above).filter (· ≠ id)
      else store.inner.childrenOf above := by
  have reduced : (store.installRename id entry (some newParent) updates newName).inner.childrenOf above =
      ((({ store.inner with
        entries := store.inner.entries.insert id
          { entry with name := newName, parentId := some newParent } }.dropChild oldParent id).addChild
        store.siblingOrder newParent id).childrenOf above) := by
    unfold installRename
    simp only [link, if_pos changed, reparent, moveIndex]
    rfl
  rw [reduced, StoreSnapshot.addChild_childrenOf]
  by_cases target : newParent = above
  · subst target
    rw [if_pos rfl, if_pos rfl, StoreSnapshot.dropChild_childrenOf, if_neg changed]
    rfl
  · rw [if_neg target, if_neg (Ne.symm target), StoreSnapshot.dropChild_childrenOf]
    exact if_congr eq_comm rfl rfl

theorem installRename_childrenOf_moved {oldParent newParent above : EntryId}
    (link : entry.parentId = some oldParent) (changed : oldParent ≠ newParent) :
    ((store.installRename id entry (some newParent) updates newName).inner.childrenOf above).Perm
      (if above = newParent then id :: store.inner.childrenOf above
        else if above = oldParent then (store.inner.childrenOf above).filter (· ≠ id)
        else store.inner.childrenOf above) := by
  rw [installRename_lists_moved link changed]
  split
  · exact SiblingOrder.insertSorted_perm
  · exact .refl _

theorem installRename_forested (forested : store.Forested)
    (found : store.inner.entries[id]? = some entry) (indexed : store.idToPath[id]? = some oldPath)
    (plan : store.RenamePlan id entry oldPath newPath newParentId updates newName) :
    (store.installRename id entry newParentId updates newName).Forested := by
  have live : store.inner.entries[id]?.isSome = true := by simp [found]
  have link : store.inner.parentLink id = some entry.parentId :=
    StoreSnapshot.parentLink_eq_some.mpr ⟨entry, found, rfl⟩
  have known (other : EntryId) :
      (store.installRename id entry newParentId updates newName).inner.entries[other]?.isSome = true ↔
        store.inner.entries[other]?.isSome = true := by
    rw [installRename_lookup]
    split
    · rename_i same
      subst same
      simp [found]
    · rfl
  have moves := plan.moves
  subst moves
  refine ⟨forested.moveIndex_inverse indexed plan.free, ?_, ?_, ?_, ?_, forested.ceiling⟩
  · intro other
    rw [known, ← forested.indexed]
    have moved : (store.installRename id entry newParentId
        (store.pathUpdates id entry oldPath newPath) newName).idToPath =
        insertAll store.idToPath ((store.pathUpdates id entry oldPath newPath).map
          (fun update => (update.id, update.new))) := rfl
    rw [moved, isSome_insertAll, List.map_map]
    refine ⟨fun now => now.elim (fun member => ?_) (fun old => old), .inr⟩
    obtain ⟨update, present, rfl⟩ := List.mem_map.mp member
    have back := (forested.inverse _ _).mp
      ((forested.pathUpdates_spec indexed entry newPath).1 update present).1
    exact Option.isSome_iff_exists.mpr ⟨_, back⟩
  · have others (other : EntryId) (distinct : other ≠ id) : (store.installRename id entry newParentId
        (store.pathUpdates id entry oldPath newPath) newName).inner.parentLink other =
        store.inner.parentLink other := by
      simp only [StoreSnapshot.parentLink, installRename_lookup, if_neg (Ne.symm distinct)]
    have self : (store.installRename id entry newParentId
        (store.pathUpdates id entry oldPath newPath) newName).inner.parentLink id = some newParentId := by
      simp [StoreSnapshot.parentLink, installRename_lookup]
    rw [installRename_roots]
    by_cases changed : entry.parentId = newParentId
    · subst changed
      have links : (store.installRename id entry entry.parentId
          (store.pathUpdates id entry oldPath newPath) newName).inner.parentLink =
          store.inner.parentLink := by
        funext other
        by_cases same : other = id
        · rw [same, self, link]
        · exact others other same
      rw [links]
      refine forested.linked.permute (fun above => installRename_childrenOf_same ?_) (.refl _)
      intro parentId parent
      exact (forested.linked.child_iff id parentId).mpr (link.trans (congrArg some parent))
    · obtain ⟨newParentPath, _, ⟨_, same⟩ | ⟨_, rooted, parent, target, rfl⟩⟩ := plan.parent
      · exact absurd same.symm changed
      obtain ⟨oldParent, old⟩ := Option.ne_none_iff_exists'.mp rooted
      have moved : oldParent ≠ parent.id := fun same => changed (by rw [old, same])
      have unlisted (above) (other : above ≠ oldParent) : id ∉ store.inner.childrenOf above := by
        rw [forested.linked.child_iff, link, old]
        simpa using Ne.symm other
      obtain ⟨record, present, _⟩ := plan.folder parent.id rfl
      rw [old] at link
      refine forested.linked.regraft link (StoreSnapshot.parentLink_isSome.mpr (by simp [present]))
        (checkReparent_ok (plan.outside changed)) self others ?_ ?_ (.refl _)
      · refine (installRename_childrenOf_moved old moved).trans (.of_eq ?_)
        rw [if_pos rfl, List.erase_of_not_mem (unlisted _ (Ne.symm moved))]
      · intro other distinct
        refine (installRename_childrenOf_moved old moved).trans (.of_eq ?_)
        rw [if_neg distinct]
        split
        · rw [(forested.linked.children_nodup other).erase_eq_filter]
          exact List.filter_congr fun node _ => by rw [Bool.eq_iff_iff]; simp
        · rename_i elsewhere
          rw [List.erase_of_not_mem (unlisted other elsewhere)]
  · intro other record same
    rw [installRename_lookup] at same
    split at same
    · rename_i here
      cases same
      exact (forested.stamped id entry found).trans here
    · exact forested.stamped other record same
  · intro other now
    exact forested.bounded other ((known other).mp now)

theorem rename_forested (forested : store.Forested) (id : EntryId) (newPath : Path) :
    (store.rename id newPath).2.Forested := by
  unfold rename
  split
  · exact forested
  · rename_i entry found
    split
    · exact forested
    · rename_i oldPath indexed
      split
      · exact forested
      · split
        · exact forested
        · rename_i planned
          exact installRename_forested forested found indexed (planRename_ok planned)

end Rename

end Mille.EntryStore
