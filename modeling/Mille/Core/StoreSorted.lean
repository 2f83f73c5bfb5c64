import Mille.Core.StoreLists
import Mille.Core.SortLaws

/-! Child lists stay sorted by the store's sibling order. -/

namespace Mille.EntryStore

open Maps Forest SiblingOrder

/-- Child lists sorted by the store's order, which is a total preorder. -/
structure Siblings (store : EntryStore) (order : SiblingOrder) : Prop where
  own : store.siblingOrder = order
  lawful : order.Lawful
  sorted : ∀ id, order.Ordered store.inner.entries (store.inner.childrenOf id)

variable {store after : EntryStore} {path : Path} {id above : EntryId} {entry : Entry}
variable {additions : List Addition} {order : SiblingOrder}

theorem ordered_congr {entries records : IdMap Entry} {siblings : List EntryId}
    (same : ∀ sibling ∈ siblings, records[sibling]? = entries[sibling]?)
    (ordered : order.Ordered entries siblings) : order.Ordered records siblings := by
  refine ordered.imp_of_mem fun first second less => ?_
  rw [compareIds, same _ first, same _ second]
  exact less

theorem Siblings.carry (siblings : store.Siblings order) (same : after.siblingOrder = store.siblingOrder)
    (lists : ∀ above, order.Ordered after.inner.entries (after.inner.childrenOf above) ∨
      (after.inner.childrenOf above).Sublist (store.inner.childrenOf above) ∧
        ∀ sibling ∈ after.inner.childrenOf above,
          after.inner.entries[sibling]? = store.inner.entries[sibling]?) : after.Siblings order := by
  refine ⟨same.trans siblings.own, siblings.lawful, fun above => ?_⟩
  rcases lists above with sorted | ⟨sublist, same⟩
  · exact sorted
  · exact ordered_congr same ((siblings.sorted above).sublist sublist)

theorem unindex_siblingOrder (store : EntryStore) (ids : List EntryId) :
    (store.unindex ids).siblingOrder = store.siblingOrder := by
  unfold unindex
  induction ids generalizing store with
  | nil => rfl
  | cons head tail ih =>
    rw [List.foldl_cons, ih]
    split <;> rfl

theorem installRemoval_siblings (housed : store.Housed) (siblings : store.Siblings order)
    (found : store.inner.entries[id]? = some entry) :
    (store.installRemoval id entry (store.inner.subtree [id])).Siblings order := by
  have kept := installRemoval_housed housed found
  have own : (store.installRemoval id entry (store.inner.subtree [id])).siblingOrder =
      store.siblingOrder := by
    unfold installRemoval
    cases entry.parentId <;> rfl
  refine siblings.carry own fun above => .inr ⟨?_, fun sibling member => ?_⟩
  · rw [installRemoval_childrenOf]
    split
    · exact List.nil_sublist _
    · split
      · exact List.filter_sublist
      · exact .refl _
  · have live := kept.live member
    rw [(installRemoval_inner ..).1, StoreSnapshot.evict_entries] at live ⊢
    split
    · simp_all
    · rfl

theorem compareEntries_update {existing updated : Entry}
    (kept : needsResort order existing updated = false) (name : updated.name = existing.name)
    (other : Entry) :
    order.compareEntries updated other = order.compareEntries existing other ∧
      order.compareEntries other updated = order.compareEntries other existing := by
  simp only [needsResort, Bool.or_eq_false_iff, Bool.and_eq_false_iff, decide_eq_false_iff_not,
    ne_eq, not_not] at kept
  obtain ⟨⟨kind, target⟩, time⟩ := kept
  have folder : updated.isFolder = existing.isFolder := by
    rw [Entry.isFolder, Entry.isFolder, kind, target]
  unfold compareEntries
  rw [folder, name]
  cases sort : order.sortBy with
  | name => simp
  | type => simp
  | modified =>
    have same : existing.mtimeMs = updated.mtimeMs := time.resolve_left (by simp [sort])
    simp [same]

theorem installUpdate_siblings (housed : store.Housed) (siblings : store.Siblings order)
    {existing updated : Entry} (found : store.inner.entries[id]? = some existing)
    (name : updated.name = existing.name) : (store.installUpdate id existing updated).Siblings order := by
  have lookup (other : EntryId) : (store.installUpdate id existing updated).inner.entries[other]? =
      if id = other then some updated else store.inner.entries[other]? :=
    lookup_insert
  have live (above sibling : EntryId) (member : sibling ∈ store.inner.childrenOf above) :
      (store.installUpdate id existing updated).inner.entries[sibling]?.isSome = true := by
    rw [lookup]
    split
    · rfl
    · exact housed.live member
  have own := siblings.own
  refine ⟨own, siblings.lawful, fun above => ?_⟩
  rw [installUpdate_lists, own]
  split
  · exact sortSiblings_ordered siblings.lawful (live above)
  · rename_i kept
    by_cases resort : needsResort order existing updated = true
    · -- The entry is not in this list.
      refine ordered_congr (fun sibling member => ?_) (siblings.sorted above)
      rw [lookup, if_neg]
      rintro rfl
      have link := housed.listed above id member
      simp only [StoreSnapshot.parentLink, found, Option.map_some, Option.some.injEq] at link
      exact kept ⟨link, resort⟩
    · have alike := @compareEntries_update order existing updated (by simpa using resort) name
      refine (siblings.sorted above).imp_of_mem fun {left right} first second less => ?_
      obtain ⟨leftEntry, leftFound⟩ := Option.isSome_iff_exists.mp (housed.live first)
      obtain ⟨rightEntry, rightFound⟩ := Option.isSome_iff_exists.mp (housed.live second)
      simp only [compareIds, leftFound, rightFound] at less
      simp only [compareIds, lookup, leftFound, rightFound]
      by_cases here : id = left
      · subst here
        cases found.symm.trans leftFound
        by_cases there : id = right
        · subst there
          cases found.symm.trans rightFound
          simpa [(alike updated).1, (alike existing).2] using less
        · simpa [there, (alike rightEntry).1] using less
      · by_cases there : id = right
        · subst there
          cases found.symm.trans rightFound
          simpa [here, (alike leftEntry).2] using less
        · simpa [here, there] using less

theorem installInsert_siblings (housed : store.Housed) (siblings : store.Siblings order)
    (unused : store.inner.entries[id]? = none) : (store.installInsert path id entry).Siblings order := by
  have own : (store.installInsert path id entry).siblingOrder = store.siblingOrder := by
    unfold installInsert
    cases entry.parentId <;> rfl
  have same (above sibling : EntryId) (member : sibling ∈ store.inner.childrenOf above) :
      (store.installInsert path id entry).inner.entries[sibling]? = store.inner.entries[sibling]? := by
    rw [installInsert_entries, lookup_insert, if_neg]
    rintro rfl
    have live := housed.live member
    simp [unused] at live
  refine siblings.carry own fun above => ?_
  rw [installInsert_lists, siblings.own]
  split
  · refine .inl ?_
    rw [← @installInsert_entries store id entry path]
    refine insertSorted_ordered siblings.lawful
      (ordered_congr (same above) (siblings.sorted above)) ?_ ?_
    · intro sibling member
      rw [same above sibling member]
      exact housed.live member
    · rw [installInsert_entries, lookup_insert, if_pos rfl]
      rfl
  · exact .inr ⟨.refl _, fun sibling member => same above sibling member⟩

theorem installBatch_siblings (housed : store.Housed) (siblings : store.Siblings order) {seen : List Path}
    {high : Nat} (fresh : store.Fresh seen store.idCounter high additions) :
    (store.installBatch additions).Siblings order := by
  have entries : (store.installBatch additions).inner.entries = insertAll store.inner.entries
      (additions.map (fun addition => (addition.id, addition.entry))) :=
    StoreSnapshot.addRecords_entries
  have keys : (additions.map (fun addition => (addition.id, addition.entry))).map Prod.fst =
      additions.map (·.id) := by
    rw [List.map_map]
    rfl
  have same (above sibling : EntryId) (member : sibling ∈ store.inner.childrenOf above) :
      (store.installBatch additions).inner.entries[sibling]? = store.inner.entries[sibling]? := by
    rw [entries, lookup_insertAll_of_not_mem]
    rw [keys]
    intro added
    obtain ⟨addition, present, rfl⟩ := List.mem_map.mp added
    exact absurd (housed.bounded _ (housed.live member))
      (Nat.not_lt.mpr (fresh.range addition present).1)
  have added (above sibling : EntryId) (member : sibling ∈ incoming additions above) :
      (store.installBatch additions).inner.entries[sibling]?.isSome = true := by
    obtain ⟨addition, present, rfl⟩ := List.mem_map.mp member
    have bound : (addition.id, addition.entry) ∈
        additions.map (fun addition => (addition.id, addition.entry)) :=
      List.mem_map.mpr ⟨addition, (List.mem_filter.mp present).1, rfl⟩
    rw [entries, lookup_insertAll_of_mem (keys ▸ fresh.ids) bound]
    rfl
  have old (above sibling : EntryId) (member : sibling ∈ store.inner.childrenOf above) :
      (store.installBatch additions).inner.entries[sibling]?.isSome = true := by
    rw [same above sibling member]
    exact housed.live member
  refine siblings.carry rfl fun above => ?_
  rw [installBatch_lists, siblings.own]
  split
  · refine .inl (mergeSiblings_ordered siblings.lawful
      (ordered_congr (same above) (siblings.sorted above))
      (sortSiblings_ordered siblings.lawful (added above)) fun sibling member => ?_)
    rcases List.mem_append.mp member with here | there
    · exact old above sibling here
    · exact added above sibling (sortSiblings_perm.mem_iff.mp there)
  · exact .inr ⟨.refl _, fun sibling member => same above sibling member⟩

theorem insertBatch_siblings (housed : store.Housed) (siblings : store.Siblings order)
    (entries : List (Path × Entry)) : (store.insertBatch entries).2.Siblings order := by
  have resolved := resolveBatch_spec store entries [] housed.ceiling
  have moved (counter : Nat) : ({ store with idCounter := counter } : EntryStore).Siblings order :=
    siblings.carry rfl fun above => .inr ⟨.refl _, fun _ _ => rfl⟩
  unfold insertBatch
  split
  · exact moved _
  · exact moved _
  · rename_i additions counter _ found
    rw [found] at resolved
    have grown := @installBatch_siblings store additions order housed siblings _ _ (resolved.2.2 additions rfl)
    exact grown.carry rfl fun above => .inr ⟨.refl _, fun _ _ => rfl⟩

theorem remove_siblings (housed : store.Housed) (siblings : store.Siblings order)
    (found : store.inner.entries[id]? = some entry) : (store.remove id).2.Siblings order := by
  have kept := remove_housed housed found
  obtain ⟨entries, lists, _, _⟩ := remove_inner found
  have own : (store.remove id).2.siblingOrder = store.siblingOrder := by
    simp only [remove, found]
    exact unindex_siblingOrder _ _
  refine siblings.carry own fun above => .inr ⟨?_, fun sibling member => ?_⟩
  · rw [lists]
    split
    · exact List.erase_sublist
    · exact .refl _
  · have live := kept.live member
    rw [entries, lookup_erase] at live ⊢
    split
    · simp_all
    · rfl

theorem installUnavailable_siblings (housed : store.Housed) (siblings : store.Siblings order)
    (found : store.inner.entries[id]? = some entry) (top : entry.parentId = none) :
    (store.installUnavailable id entry
      (store.inner.subtree (store.inner.childrenOf id).reverse)).Siblings order := by
  have kept := installUnavailable_housed housed found top
  have own : (store.installUnavailable id entry
      (store.inner.subtree (store.inner.childrenOf id).reverse)).siblingOrder = store.siblingOrder :=
    unindex_siblingOrder _ _
  refine siblings.carry own fun above => .inr ⟨?_, fun sibling member => ?_⟩
  · rw [installUnavailable_childrenOf]
    split
    · exact List.nil_sublist _
    · exact .refl _
  · have live := kept.live member
    have child := kept.listed above sibling member
    rw [installUnavailable_lookup, StoreSnapshot.evict_entries] at live ⊢
    rw [StoreSnapshot.parentLink, installUnavailable_lookup] at child
    split
    · rename_i same
      -- The root itself is in no list.
      rw [if_pos same] at child
      simp [Entry.unavailable, top] at child
    · rename_i other
      rw [if_neg other] at live
      split
      · simp_all
      · rfl

theorem installRoots_siblings (housed : store.Housed) (siblings : store.Siblings order)
    {orderedIds : List EntryId} {additions : List Addition} {counter : Nat}
    (fresh : store.Fresh [] store.idCounter counter additions) :
    ({ store with idCounter := counter }.installRoots orderedIds
      ((store.inner.roots.filter (· ∉ orderedIds)).flatMap (fun top => store.inner.subtree [top]))
      additions).Siblings order := by
  have pruned := withoutRoots_housed housed
    (fun top (member : top ∈ store.inner.roots.filter (· ∉ orderedIds)) => (List.mem_filter.mp member).1)
  set gone := (store.inner.roots.filter (· ∉ orderedIds)).flatMap (fun top => store.inner.subtree [top])
  obtain ⟨entries, children, _⟩ :=
    installRoots_inner { store with idCounter := counter } orderedIds gone additions
  obtain ⟨inner, _, _⟩ := withoutRoots_advance store counter gone
  rw [inner] at entries children
  have own : ({ store with idCounter := counter }.installRoots orderedIds gone
      additions).siblingOrder = store.siblingOrder :=
    unindex_siblingOrder _ _
  refine siblings.carry own fun above => .inr ⟨?_, fun sibling member => ?_⟩
  · rw [children]
    simp only [withoutRoots, unindex_inner]
    change ((store.inner.evict gone).childrenOf above).Sublist _
    rw [StoreSnapshot.evict_childrenOf]
    split
    · exact List.nil_sublist _
    · exact .refl _
  · rw [children] at member
    have live := pruned.live member
    rw [entries, lookup_insertAll_of_not_mem]
    · rw [withoutRoots_entries] at live ⊢
      split
      · simp_all
      · rfl
    · rw [List.map_map]
      intro added
      obtain ⟨addition, present, rfl⟩ := List.mem_map.mp added
      have used := pruned.bounded _ live
      rw [show (store.withoutRoots gone).idCounter = store.idCounter by simp [withoutRoots]] at used
      exact absurd used (Nat.not_lt.mpr (fresh.range addition present).1)

theorem Siblings.search (housed : store.Housed) (siblings : store.Siblings order) (above id : EntryId)
    (entry : Entry) :
    order.Ordered (store.inner.entries.insert id entry) ((store.inner.childrenOf above).erase id) := by
  refine ordered_congr (fun sibling member => ?_) ((siblings.sorted above).sublist List.erase_sublist)
  rw [lookup_insert, if_neg]
  rintro rfl
  exact (housed.nodup above).not_mem_erase member

theorem installRename_siblings (housed : store.Housed) (siblings : store.Siblings order)
    (found : store.inner.entries[id]? = some entry) {oldPath newPath : Path} {newParentId : Option EntryId}
    {updates : List PathUpdate} {newName : String}
    (plan : store.RenamePlan id entry oldPath newPath newParentId updates newName) :
    (store.installRename id entry newParentId updates newName).Siblings order := by
  have kept := installRename_housed housed found plan
  have entries : (store.installRename id entry newParentId updates newName).inner.entries =
      store.inner.entries.insert id { entry with name := newName, parentId := newParentId } := by
    refine Std.ExtTreeMap.ext_getElem? fun other => ?_
    rw [installRename_lookup, lookup_insert]
  have present : (store.inner.entries.insert id
      { entry with name := newName, parentId := newParentId })[id]?.isSome = true := by
    rw [lookup_insert, if_pos rfl]
    rfl
  have live (above sibling : EntryId) (member : sibling ∈ store.inner.childrenOf above) :
      (store.inner.entries.insert id
        { entry with name := newName, parentId := newParentId })[sibling]?.isSome = true := by
    rw [lookup_insert]
    split
    · rfl
    · exact housed.live member
  have place (above : EntryId) : order.Ordered (store.inner.entries.insert id
      { entry with name := newName, parentId := newParentId })
      (order.insertSorted (store.inner.entries.insert id
        { entry with name := newName, parentId := newParentId }) id
        ((store.inner.childrenOf above).erase id)) :=
    insertSorted_ordered siblings.lawful (siblings.search housed above id _)
      (fun sibling member => live above sibling (List.mem_of_mem_erase member)) present
  have own := siblings.own
  have unlisted (above : EntryId) (elsewhere : entry.parentId ≠ some above) :
      (store.inner.childrenOf above).erase id = store.inner.childrenOf above := by
    refine List.erase_of_not_mem fun member => elsewhere ?_
    have link := housed.listed above id member
    simpa [StoreSnapshot.parentLink, found] using link
  have stays (above : EntryId) (elsewhere : entry.parentId ≠ some above) : order.Ordered
      (store.inner.entries.insert id { entry with name := newName, parentId := newParentId })
      (store.inner.childrenOf above) := by
    have search := siblings.search housed above id
      { entry with name := newName, parentId := newParentId }
    rwa [unlisted above elsewhere] at search
  refine ⟨own, siblings.lawful, fun above => ?_⟩
  rw [entries]
  rcases plan.cases with rfl | ⟨oldParent, newParent, old, rfl, changed⟩
  · rw [installRename_lists_same, own]
    split
    · exact place above
    · rename_i outside
      by_cases elsewhere : entry.parentId = some above
      · have empty : store.inner.childrenOf above = [] := by
          rw [StoreSnapshot.childrenOf_eq]
          have none : store.inner.children[above]? = none := by simpa [elsewhere] using outside
          simp [none]
        rw [empty]
        exact List.Pairwise.nil
      · exact stays above elsewhere
  · rw [installRename_lists_moved old changed, own]
    split
    · rename_i target
      have elsewhere : entry.parentId ≠ some above := by simp [old, target, changed]
      have placed := place above
      rwa [unlisted above elsewhere] at placed
    · split
      · have search := siblings.search housed above id
          { entry with name := newName, parentId := some newParent }
        have same : (store.inner.childrenOf above).filter (· ≠ id) =
            (store.inner.childrenOf above).filter (· != id) :=
          List.filter_congr fun node _ => by rw [Bool.eq_iff_iff]; simp
        rw [same, ← (housed.nodup above).erase_eq_filter]
        exact search
      · rename_i elsewhere
        exact stays above (by simp [old, Ne.symm elsewhere])

theorem installProjection_siblings (housed : store.Housed) (lawful : order.Lawful)
    {visibility : VisibilityPolicy} {compactFolders : Bool} {fileNesting : FileNestingPolicy}
    (classify : Option (Path → Entry → Bool)) :
    (store.installProjection order visibility compactFolders fileNesting (store.reclassify classify).1
      (store.reclassify classify).2).Siblings order := by
  refine ⟨rfl, lawful, fun above => ?_⟩
  have lists : (store.installProjection order visibility compactFolders fileNesting
      (store.reclassify classify).1 (store.reclassify classify).2).inner.childrenOf above =
      order.sortSiblings (store.reclassify classify).1 (store.inner.childrenOf above) := by
    rw [StoreSnapshot.childrenOf_eq, StoreSnapshot.childrenOf_eq]
    simp only [installProjection, publish_children, Std.ExtTreeMap.getElem?_map]
    cases store.inner.children[above]? with
    | none => simp [sortSiblings]
    | some siblings => rfl
  rw [lists]
  refine sortSiblings_ordered lawful fun sibling member => ?_
  have same := congrArg Option.isSome (reclassify_lookup store classify sibling)
  rw [Option.isSome_map, Option.isSome_map] at same
  exact same.trans (housed.live member)

/-- The mutation installs no collator. -/
def Unlocalized (_ : EntryStore) : Edit → Prop
  | .op (.reconfigureProjection order _ _ _) => order.localeCollation = none
  | .op (.reconfigureProjectionWithExclusions order _ _ _ _) => order.localeCollation = none
  | _ => True

theorem lawful_of_unlocalized (plain : order.localeCollation = none) : order.Lawful := by
  intro collation some
  simp [plain] at some

theorem Published.siblings {edit : Edit} (published : store.Published edit after) (housed : store.Housed)
    (siblings : store.Siblings store.siblingOrder) (plain : store.Unlocalized edit) :
    after.Siblings after.siblingOrder := by
  have resume {order : SiblingOrder} (sorted : after.Siblings order) : after.Siblings after.siblingOrder := by
    rw [sorted.own]
    exact sorted
  cases published with
  | idle _ counter later ceiling => exact siblings.carry rfl fun above => .inr ⟨.refl _, fun _ _ => rfl⟩
  | insert path given entry stamped unindexed room =>
    refine resume (installInsert_siblings (housed.advance (Nat.le_succ _) room)
      (siblings.carry rfl fun above => .inr ⟨.refl _, fun _ _ => rfl⟩) (housed.unused (le_refl _)))
  | insertBatch entries additions counter later ceiling fresh =>
    exact (installBatch_siblings housed siblings fresh).carry rfl
      fun above => .inr ⟨.refl _, fun _ _ => rfl⟩
  | update id given existing updated stamped found parent name =>
    exact resume (installUpdate_siblings housed siblings found name)
  | rename id entry oldPath newPath newParentId updates newName found indexed planned =>
    exact resume (installRename_siblings housed siblings found (planRename_ok planned))
  | removeSubtree id entry found => exact resume (installRemoval_siblings housed siblings found)
  | replaceRoots roots orderedIds additions counter later ceiling fresh added origin =>
    exact resume (installRoots_siblings housed siblings fresh)
  | reorderRoots roots same => exact siblings.carry rfl fun above => .inr ⟨.refl _, fun _ _ => rfl⟩
  | markRootUnavailable id root found top =>
    exact resume (installUnavailable_siblings housed siblings found top)
  | markDirectoriesChildrenLoaded ids loaded =>
    exact siblings.carry rfl fun above => .inr ⟨.refl _, fun _ _ => rfl⟩
  | reconfigureProjection order visibility compactFolders fileNesting =>
    exact installProjection_siblings housed (lawful_of_unlocalized plain) none
  | reconfigureProjectionWithExclusions order visibility compactFolders fileNesting classify =>
    exact installProjection_siblings housed (lawful_of_unlocalized plain) (some classify)
  | remove id existing found => exact resume (remove_siblings housed siblings found)

/-- Child lists in order of the current records, wherever an id is looked up or
a page is merged. -/
structure InOrder (store : EntryStore) : Prop where
  sorted : ∀ above, (store.inner.childrenOf above).Pairwise (fun left right =>
    ∃ leftEntry rightEntry, store.inner.entries[left]? = some leftEntry ∧
      store.inner.entries[right]? = some rightEntry ∧
      (store.siblingOrder.compareEntries leftEntry rightEntry).isLE = true)
  searched : ∀ above id entry, store.siblingOrder.Ordered (store.inner.entries.insert id entry)
    ((store.inner.childrenOf above).erase id)
  merged : ∀ page ids, (store.insertBatch page).1 = .ok ids → ∀ above,
    ((store.insertBatch page).2.inner.childrenOf above).Perm (store.inner.childrenOf above ++
      ids.filter (fun id => (store.insertBatch page).2.inner.parentLink id = some (some above))) ∧
    store.siblingOrder.Ordered (store.insertBatch page).2.inner.entries
      ((store.insertBatch page).2.inner.childrenOf above)

/-- A merged page adds exactly its own new ids to a list. -/
theorem insertBatch_merged (housed : store.Housed) {page : List (Path × Entry)} {ids : List EntryId}
    (done : (store.insertBatch page).1 = .ok ids) (above : EntryId) :
    ((store.insertBatch page).2.inner.childrenOf above).Perm (store.inner.childrenOf above ++
      ids.filter (fun id => (store.insertBatch page).2.inner.parentLink id = some (some above))) := by
  have resolved := resolveBatch_spec store page [] housed.ceiling
  revert done
  unfold insertBatch
  split
  · intro failed
    cases failed
  · intro done
    cases done
    simp
  · rename_i additions counter _ found
    intro done
    cases done
    rw [found] at resolved
    have fresh := resolved.2.2 additions rfl
    have entries : ({ store with idCounter := counter }.installBatch additions).inner.entries =
        insertAll store.inner.entries (additions.map (fun addition => (addition.id, addition.entry))) :=
      StoreSnapshot.addRecords_entries
    have keys : (additions.map (fun addition => (addition.id, addition.entry))).map Prod.fst =
        additions.map (·.id) := by
      rw [List.map_map]
      rfl
    have links (addition : Addition) (present : addition ∈ additions) :
        ({ store with idCounter := counter }.installBatch additions).inner.parentLink addition.id =
          some addition.entry.parentId := by
      refine StoreSnapshot.parentLink_eq_some.mpr ⟨addition.entry, ?_, rfl⟩
      rw [entries]
      exact lookup_insertAll_of_mem (keys ▸ fresh.ids) (List.mem_map.mpr ⟨addition, present, rfl⟩)
    have new : (additions.map (·.id)).filter (fun id => ({ store with
        idCounter := counter }.installBatch additions).inner.parentLink id = some (some above)) =
        incoming additions above := by
      rw [incoming, List.filter_map]
      refine congrArg (List.map _) (List.filter_congr fun addition present => ?_)
      simp [links addition present]
    dsimp only
    rw [new, incoming_eq]
    exact installBatch_childrenOf.trans List.perm_append_comm

theorem Siblings.inOrder (housed : store.Housed) (siblings : store.Siblings store.siblingOrder) :
    store.InOrder where
  sorted above := by
    refine (siblings.sorted above).imp_of_mem fun {left right} first second less => ?_
    obtain ⟨leftEntry, leftFound⟩ := Option.isSome_iff_exists.mp (housed.live first)
    obtain ⟨rightEntry, rightFound⟩ := Option.isSome_iff_exists.mp (housed.live second)
    simp only [compareIds, leftFound, rightFound] at less
    exact ⟨leftEntry, rightEntry, leftFound, rightFound, less⟩
  searched := siblings.search housed
  merged page ids done above :=
    ⟨insertBatch_merged housed done above, (insertBatch_siblings housed siblings page).sorted above⟩

/-- Whatever mutations come, and whatever orders without a collator they
install, every child list is sorted by the order in force. -/
theorem run_keeps_siblings_sorted {order : SiblingOrder} {visibility : VisibilityPolicy}
    {compactFolders : Bool} {fileNesting : FileNestingPolicy} (plain : order.localeCollation = none)
    (run : Run edit Unlocalized (withProjectionSettings order visibility compactFolders fileNesting) store) :
    store.InOrder := by
  have start := empty_housed order visibility compactFolders fileNesting
  have sorted : store.Housed ∧ store.Siblings store.siblingOrder := by
    refine run.invariant (fun store => store.Housed ∧ store.Siblings store.siblingOrder) ⟨start, ?_⟩ ?_
    · refine ⟨rfl, lawful_of_unlocalized plain, fun above => ?_⟩
      simp [StoreSnapshot.childrenOf_eq, withProjectionSettings, StoreSnapshot.emptyWithProjection, Ordered]
    · rintro store step ⟨housed, siblings⟩ unlocalized
      have published := edit_published housed.ceiling step
      exact ⟨published.housed housed, published.siblings housed siblings unlocalized⟩
  exact sorted.2.inOrder sorted.1

/-- Two files below a root, one of which becomes a directory; then their root
goes alone and leaves them behind. -/
theorem run_keeps_siblings_sorted_orphans :
    ((((new.edit (.op (.insert (Path.ofNames ["r"])
        ⟨0, none, "r", .directory, 0, 0, 0, none, none, false, false, false, false⟩))).edit
      (.op (.insertBatch
        [(Path.ofNames ["r", "b"], ⟨0, some 0, "b", .file, 0, 0, 0, none, none, false, false, false, false⟩),
          (Path.ofNames ["r", "a"], ⟨0, some 0, "a", .file, 0, 0, 0, none, none, false, false, false,
            false⟩)]))).edit
      (.op (.update 1 ⟨0, some 0, "b", .directory, 0, 0, 0, none, none, false, false, false, false⟩))).edit
      (.remove 0)).InOrder :=
  run_keeps_siblings_sorted rfl
    ((((Run.start.step _ trivial).step _ trivial).step _ trivial).step _ trivial)

end Mille.EntryStore
