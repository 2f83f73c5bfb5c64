import Mille.Core.StoreEdits

/-! What child lists hold after any mutations: ids of records that name the
list's owner as their parent. Owners may be gone. -/

namespace Mille.EntryStore

open Maps Forest

/-- Listed ids are live and listed by their parent only. -/
structure Housed (store : EntryStore) : Prop where
  listed : ∀ above id, id ∈ store.inner.childrenOf above → store.inner.parentLink id = some (some above)
  nodup : ∀ above, (store.inner.childrenOf above).Nodup
  tops : ∀ id ∈ store.inner.roots, ∀ above, store.inner.parentLink id ≠ some (some above)
  known : ∀ id ∈ store.inner.roots, id < store.idCounter
  bounded : ∀ id : EntryId, store.inner.entries[id]?.isSome = true → id < store.idCounter
  ceiling : store.idCounter ≤ entryIdMax

variable {store after : EntryStore} {id : EntryId} {entry : Entry} {path : Path}

theorem Forested.housed (forested : store.Forested) : store.Housed where
  listed above id := (forested.linked.child_iff id above).mp
  nodup := forested.linked.children_nodup
  tops id root above link := by simp [(forested.linked.root_iff id).mp root] at link
  known id root :=
    forested.bounded id (StoreSnapshot.parentLink_isSome.mp (by simp [(forested.linked.root_iff id).mp root]))
  bounded := forested.bounded
  ceiling := forested.ceiling

namespace Housed

theorem live (housed : store.Housed) {above : EntryId} (member : id ∈ store.inner.childrenOf above) :
    store.inner.entries[id]?.isSome = true :=
  StoreSnapshot.parentLink_isSome.mp (by simp [housed.listed above id member])

theorem unused (housed : store.Housed) (late : store.idCounter ≤ id) : store.inner.entries[id]? = none := by
  by_contra used
  exact absurd (housed.bounded id (Option.isSome_iff_ne_none.mpr used)) (Nat.not_lt.mpr late)

theorem advance (housed : store.Housed) {counter : Nat} (later : store.idCounter ≤ counter)
    (ceiling : counter ≤ entryIdMax) : ({ store with idCounter := counter } : EntryStore).Housed :=
  { housed with
    known := fun id root => (housed.known id root).trans_le later
    bounded := fun id live => (housed.bounded id live).trans_le later
    ceiling := ceiling }

theorem reorder (housed : store.Housed) (counter : after.idCounter = store.idCounter)
    (links : ∀ id, after.inner.parentLink id = store.inner.parentLink id)
    (lists : ∀ above, (after.inner.childrenOf above).Perm (store.inner.childrenOf above))
    (roots : ∀ id, id ∈ after.inner.roots → id ∈ store.inner.roots) : after.Housed where
  listed above id member := by
    rw [links]
    exact housed.listed above id ((lists above).mem_iff.mp member)
  nodup above := (lists above).nodup_iff.mpr (housed.nodup above)
  tops id root above := by
    rw [links]
    exact housed.tops id (roots id root) above
  known id root := by
    rw [counter]
    exact housed.known id (roots id root)
  bounded id live := by
    rw [counter]
    refine housed.bounded id ?_
    rwa [← StoreSnapshot.parentLink_isSome, links, StoreSnapshot.parentLink_isSome] at live
  ceiling := by
    rw [counter]
    exact housed.ceiling

theorem shrink (housed : store.Housed) {gone : List EntryId} (counter : after.idCounter = store.idCounter)
    (links : ∀ id, after.inner.parentLink id = if id ∈ gone then none else store.inner.parentLink id)
    (lists : ∀ above, (after.inner.childrenOf above).Sublist (store.inner.childrenOf above))
    (apart : ∀ above, ∀ id ∈ after.inner.childrenOf above, id ∉ gone)
    (roots : ∀ id, id ∈ after.inner.roots → id ∈ store.inner.roots) : after.Housed where
  listed above id member := by
    rw [links, if_neg (apart above id member)]
    exact housed.listed above id ((lists above).subset member)
  nodup above := (housed.nodup above).sublist (lists above)
  tops id root above := by
    rw [links]
    split
    · simp
    · exact housed.tops id (roots id root) above
  known id root := by
    rw [counter]
    exact housed.known id (roots id root)
  bounded id live := by
    rw [counter]
    refine housed.bounded id ?_
    rw [← StoreSnapshot.parentLink_isSome, links] at live
    split at live
    · cases live
    · exact StoreSnapshot.parentLink_isSome.mp live
  ceiling := by
    rw [counter]
    exact housed.ceiling

/-- Fresh records join the lists of their parents. -/
theorem extend (housed : store.Housed) {additions : List Addition} (ids : (additions.map (·.id)).Nodup)
    (range : ∀ addition ∈ additions, store.idCounter ≤ addition.id ∧ addition.id < after.idCounter)
    (later : store.idCounter ≤ after.idCounter) (ceiling : after.idCounter ≤ entryIdMax)
    (entries : after.inner.entries = insertAll store.inner.entries
      (additions.map (fun addition => (addition.id, addition.entry))))
    (lists : ∀ above, (after.inner.childrenOf above).Perm
      (Linked.graftsAt (links additions) (some above) ++ store.inner.childrenOf above))
    (roots : ∀ id, id ∈ after.inner.roots →
      id ∈ Linked.graftsAt (links additions) none ∨ id ∈ store.inner.roots) : after.Housed := by
  have keys : (additions.map (fun addition => (addition.id, addition.entry))).map Prod.fst =
      additions.map (·.id) := by
    rw [List.map_map]
    rfl
  have added (id : EntryId) (link : Option EntryId) (member : id ∈ Linked.graftsAt (links additions) link) :
      after.inner.parentLink id = some link ∧ store.idCounter ≤ id ∧ id < after.idCounter := by
    obtain ⟨addition, present, same⟩ := List.mem_map.mp (Linked.mem_graftsAt.mp member)
    cases same
    refine ⟨StoreSnapshot.parentLink_eq_some.mpr ⟨addition.entry, ?_, rfl⟩, range addition present⟩
    rw [entries]
    exact lookup_insertAll_of_mem (keys ▸ ids) (List.mem_map.mpr ⟨addition, present, rfl⟩)
  have kept (id : EntryId) (old : id < store.idCounter) :
      after.inner.parentLink id = store.inner.parentLink id := by
    rw [StoreSnapshot.parentLink, entries, lookup_insertAll_of_not_mem]
    · rfl
    · rw [keys]
      intro member
      obtain ⟨addition, present, rfl⟩ := List.mem_map.mp member
      exact absurd old (Nat.not_lt.mpr (range addition present).1)
  refine ⟨?_, ?_, ?_, ?_, ?_, ceiling⟩
  · intro above id member
    rcases List.mem_append.mp ((lists above).mem_iff.mp member) with new | old
    · exact (added id _ new).1
    · rw [kept id (housed.bounded id (housed.live old))]
      exact housed.listed above id old
  · intro above
    refine (lists above).nodup_iff.mpr (List.nodup_append'.mpr
      ⟨Linked.graftsAt_nodup (links_fst ▸ ids), housed.nodup above, fun id new old => ?_⟩)
    exact absurd (housed.bounded id (housed.live old)) (Nat.not_lt.mpr (added id _ new).2.1)
  · intro id root above
    rcases roots id root with new | old
    · simp [(added id _ new).1]
    · rw [kept id (housed.known id old)]
      exact housed.tops id old above
  · intro id root
    rcases roots id root with new | old
    · exact (added id _ new).2.2
    · exact (housed.known id old).trans_le later
  · intro id live
    rw [entries, isSome_insertAll, keys] at live
    rcases live with new | old
    · obtain ⟨addition, present, rfl⟩ := List.mem_map.mp new
      exact (range addition present).2
    · exact (housed.bounded id old).trans_le later

theorem collected_apart (housed : store.Housed) {stack : List EntryId} {above : EntryId}
    (kept : above ∉ store.inner.subtree stack) (member : id ∈ store.inner.childrenOf above)
    (outside : id ∉ stack) : id ∉ store.inner.subtree stack := by
  intro visited
  rcases collect_origin visited with waiting | ⟨owner, seen, listed⟩
  · exact outside waiting
  · have same := (housed.listed owner id listed).symm.trans (housed.listed above id member)
    cases same
    exact kept seen

theorem collected_known (housed : store.Housed) {stack : List EntryId}
    (known : ∀ top ∈ stack, top < store.idCounter) (visited : id ∈ store.inner.subtree stack) :
    id < store.idCounter := by
  rcases collect_origin visited with waiting | ⟨owner, _, listed⟩
  · exact known id waiting
  · exact housed.bounded id (housed.live listed)

end Housed

section Removal

theorem remove_inner (found : store.inner.entries[id]? = some entry) :
    (store.remove id).2.inner.entries = store.inner.entries.erase id ∧
      (∀ above, (store.remove id).2.inner.childrenOf above =
        if entry.parentId = some above then (store.inner.childrenOf above).erase id
        else store.inner.childrenOf above) ∧
      (store.remove id).2.inner.roots =
        (if entry.parentId = none then store.inner.roots.erase id else store.inner.roots) ∧
      (store.remove id).2.idCounter = store.idCounter := by
  simp only [remove, found, unindex_inner, unindex_idCounter, publish_entries, publish_roots,
    publish_idCounter]
  cases link : entry.parentId with
  | none =>
    refine ⟨rfl, fun above => ?_, by simp, trivial⟩
    simp [StoreSnapshot.childrenOf_eq]
  | some parentId =>
    refine ⟨rfl, fun above => ?_, by simp, trivial⟩
    rw [publish_childrenOf, StoreSnapshot.childrenOf_eq]
    simp only [lookup_modify, Option.some.injEq]
    split
    · rw [StoreSnapshot.childrenOf_eq]
      cases store.inner.children[above]? <;> rfl
    · exact StoreSnapshot.childrenOf_eq.symm

theorem remove_housed (housed : store.Housed) (found : store.inner.entries[id]? = some entry) :
    (store.remove id).2.Housed := by
  obtain ⟨entries, lists, roots, counter⟩ := remove_inner found
  have link : store.inner.parentLink id = some entry.parentId :=
    StoreSnapshot.parentLink_eq_some.mpr ⟨entry, found, rfl⟩
  refine @Housed.shrink store _ housed [id] counter (fun other => ?_) (fun above => ?_)
    (fun above other member => ?_) (fun other root => ?_)
  · simp only [StoreSnapshot.parentLink, entries, lookup_erase, List.mem_singleton]
    by_cases same : id = other
    · simp [same]
    · simp [same, Ne.symm same]
  · rw [lists]
    split
    · exact List.erase_sublist
    · exact .refl _
  · rw [List.mem_singleton]
    rintro rfl
    rw [lists] at member
    split at member
    · exact (List.Nodup.not_mem_erase (housed.nodup above)) member
    · rename_i elsewhere
      have own := housed.listed above other member
      exact elsewhere (Option.some.inj (link.symm.trans own))
  · rw [roots] at root
    split at root
    · exact List.mem_of_mem_erase root
    · exact root

theorem installRemoval_housed (housed : store.Housed) (found : store.inner.entries[id]? = some entry) :
    (store.installRemoval id entry (store.inner.subtree [id])).Housed := by
  obtain ⟨entries, roots, _, _, counter⟩ := installRemoval_inner store id entry (store.inner.subtree [id])
  have link : store.inner.parentLink id = some entry.parentId :=
    StoreSnapshot.parentLink_eq_some.mpr ⟨entry, found, rfl⟩
  refine @Housed.shrink store _ housed (store.inner.subtree [id]) counter (fun other => ?_)
    (fun above => ?_) (fun above other member => ?_) (fun other root => ?_)
  · simp only [StoreSnapshot.parentLink, entries, StoreSnapshot.evict_entries]
    split <;> rfl
  · rw [installRemoval_childrenOf]
    split
    · exact List.nil_sublist _
    · split
      · exact List.filter_sublist
      · exact .refl _
  · rw [installRemoval_childrenOf] at member
    split at member
    · cases member
    · rename_i kept
      have old : other ∈ store.inner.childrenOf above := by
        split at member
        · exact List.mem_of_mem_filter member
        · exact member
      refine housed.collected_apart kept old (fun top => ?_)
      rw [List.mem_singleton] at top
      subst top
      have own := Option.some.inj (link.symm.trans (housed.listed above other old))
      rw [if_pos own] at member
      simp at member
  · rw [roots] at root
    exact List.diff_subset _ _ root

end Removal

section Roots

theorem installUnavailable_housed (housed : store.Housed) {root : Entry}
    (found : store.inner.entries[id]? = some root) (top : root.parentId = none) :
    (store.installUnavailable id root (store.inner.subtree (store.inner.childrenOf id).reverse)).Housed := by
  have link : store.inner.parentLink id = some none :=
    StoreSnapshot.parentLink_eq_some.mpr ⟨root, found, top⟩
  set gone := store.inner.subtree (store.inner.childrenOf id).reverse with collected
  have links (other : EntryId) : (store.installUnavailable id root gone).inner.parentLink other =
      if id = other then some none
      else if other ∈ gone then none else store.inner.parentLink other := by
    simp only [StoreSnapshot.parentLink, installUnavailable_lookup, StoreSnapshot.evict_entries]
    split
    · exact congrArg some top
    · split <;> rfl
  have lists (above : EntryId) (other : EntryId)
      (member : other ∈ (store.installUnavailable id root gone).inner.childrenOf above) :
      other ∈ store.inner.childrenOf above ∧ id ≠ other ∧ other ∉ gone := by
    rw [installUnavailable_childrenOf] at member
    split at member
    · cases member
    · rename_i kept
      rw [not_or] at kept
      have own := housed.listed above other member
      refine ⟨member, fun same => ?_, ?_⟩
      · subst same
        simp [link] at own
      · refine housed.collected_apart kept.2 member (fun child => ?_)
        have under := housed.listed id other (List.mem_reverse.mp child)
        exact kept.1 (Option.some.inj (Option.some.inj (under.symm.trans own)))
  have roots : (store.installUnavailable id root gone).inner.roots = store.inner.roots := by
    simp only [installUnavailable, unindex_inner, publish_roots]
    rfl
  have counter : (store.installUnavailable id root gone).idCounter = store.idCounter := by
    simp only [installUnavailable, unindex_idCounter, publish_idCounter]
  refine ⟨?_, ?_, ?_, ?_, ?_, ?_⟩
  · intro above other member
    obtain ⟨old, distinct, kept⟩ := lists above other member
    rw [links, if_neg distinct, if_neg kept]
    exact housed.listed above other old
  · intro above
    rw [installUnavailable_childrenOf]
    split
    · exact List.nodup_nil
    · exact housed.nodup above
  · intro other member above
    rw [roots] at member
    rw [links]
    split
    · simp
    · split
      · simp
      · exact housed.tops other member above
  · intro other member
    rw [roots] at member
    rw [counter]
    exact housed.known other member
  · intro other live
    rw [counter]
    rw [installUnavailable_lookup, StoreSnapshot.evict_entries] at live
    split at live
    · rename_i same
      exact housed.bounded other (by simp [← same, found])
    · split at live
      · cases live
      · exact housed.bounded other live
  · rw [counter]
    exact housed.ceiling

/-- The old roots and everything below them leave first. -/
theorem withoutRoots_housed (housed : store.Housed) {tops : List EntryId}
    (rooted : ∀ top ∈ tops, top ∈ store.inner.roots) :
    (store.withoutRoots (tops.flatMap (fun top => store.inner.subtree [top]))).Housed := by
  set gone := tops.flatMap (fun top => store.inner.subtree [top]) with removed
  have inner : (store.withoutRoots gone).inner =
      { store.inner.evict gone with roots := store.inner.roots.filter (· ∉ gone) } := by
    simp [withoutRoots]
  have evicted (above : EntryId) : (store.withoutRoots gone).inner.childrenOf above =
      if above ∈ gone then [] else store.inner.childrenOf above := by
    rw [← StoreSnapshot.evict_childrenOf, inner]
    rfl
  refine @Housed.shrink store _ housed gone (by simp [withoutRoots]) (fun other => ?_) (fun above => ?_)
    (fun above other member => ?_) (fun other root => ?_)
  · simp only [StoreSnapshot.parentLink, withoutRoots_entries]
    split <;> rfl
  · rw [evicted]
    split
    · exact List.nil_sublist _
    · exact .refl _
  · rw [evicted] at member
    split at member
    · cases member
    · rename_i kept
      intro out
      obtain ⟨top, listed, visited⟩ := List.mem_flatMap.mp out
      refine housed.collected_apart (fun seen => ?_) member (fun same => ?_) visited
      · exact kept (List.mem_flatMap.mpr ⟨top, listed, seen⟩)
      · rw [List.mem_singleton] at same
        subst same
        exact housed.tops other (rooted other listed) above (housed.listed above other member)
  · rw [inner] at root
    exact (List.mem_filter.mp root).1

theorem installRoots_housed (housed : store.Housed) {orderedIds : List EntryId} {additions : List Addition}
    {counter : Nat} (later : store.idCounter ≤ counter) (ceiling : counter ≤ entryIdMax)
    (fresh : store.Fresh [] store.idCounter counter additions)
    (added : ∀ addition ∈ additions, addition.entry.parentId = none ∧ addition.id ∈ orderedIds)
    (origin : ∀ id ∈ orderedIds, id ∈ additions.map (·.id) ∨
      id ∈ store.inner.roots ∧ store.inner.parentLink id = some none) :
    ({ store with idCounter := counter }.installRoots orderedIds
      ((store.inner.roots.filter (· ∉ orderedIds)).flatMap (fun top => store.inner.subtree [top]))
      additions).Housed := by
  have pruned := withoutRoots_housed housed
    (fun top (member : top ∈ store.inner.roots.filter (· ∉ orderedIds)) => (List.mem_filter.mp member).1)
  set gone := (store.inner.roots.filter (· ∉ orderedIds)).flatMap (fun top => store.inner.subtree [top])
  obtain ⟨entries, children, roots, _, _, idCounter⟩ :=
    installRoots_inner { store with idCounter := counter } orderedIds gone additions
  obtain ⟨inner, _, _⟩ := withoutRoots_advance store counter gone
  rw [inner] at entries children
  replace idCounter : ({ store with idCounter := counter }.installRoots orderedIds gone
    additions).idCounter = counter := idCounter
  have start : (store.withoutRoots gone).idCounter = store.idCounter := by simp [withoutRoots]
  have keys : (additions.map (fun addition => (addition.id, addition.entry))).map Prod.fst =
      additions.map (·.id) := by
    rw [List.map_map]
    rfl
  have new (id : EntryId) (member : id ∈ additions.map (·.id)) :
      ({ store with idCounter := counter }.installRoots orderedIds gone additions).inner.parentLink id =
        some none ∧ id < counter := by
    obtain ⟨addition, present, rfl⟩ := List.mem_map.mp member
    refine ⟨StoreSnapshot.parentLink_eq_some.mpr ⟨addition.entry, ?_, (added addition present).1⟩,
      (fresh.range addition present).2⟩
    rw [entries]
    exact lookup_insertAll_of_mem (keys ▸ fresh.ids) (List.mem_map.mpr ⟨addition, present, rfl⟩)
  have old (id : EntryId) (known : id < store.idCounter) :
      ({ store with idCounter := counter }.installRoots orderedIds gone additions).inner.parentLink id =
        (store.withoutRoots gone).inner.parentLink id := by
    rw [StoreSnapshot.parentLink, entries, lookup_insertAll_of_not_mem]
    · rfl
    · rw [keys]
      intro member
      obtain ⟨addition, present, rfl⟩ := List.mem_map.mp member
      exact absurd known (Nat.not_lt.mpr (fresh.range addition present).1)
  refine ⟨?_, ?_, ?_, ?_, ?_, ?_⟩
  · intro above id member
    rw [children] at member
    rw [old id (start ▸ pruned.bounded id (pruned.live member))]
    exact pruned.listed above id member
  · intro above
    rw [children]
    exact pruned.nodup above
  · intro id root above
    rw [roots] at root
    rcases origin id root with fresh | ⟨current, top⟩
    · simp [(new id fresh).1]
    · rw [old id (housed.known id current)]
      simp only [StoreSnapshot.parentLink, withoutRoots_entries]
      split
      · simp
      · exact housed.tops id current above
  · intro id root
    rw [roots] at root
    rw [idCounter]
    rcases origin id root with fresh | ⟨current, _⟩
    · exact (new id fresh).2
    · exact (housed.known id current).trans_le later
  · intro id live
    rw [idCounter]
    by_cases fresh : id ∈ additions.map (·.id)
    · exact (new id fresh).2
    · rw [entries, isSome_insertAll, keys] at live
      exact (start ▸ pruned.bounded id (live.resolve_left fresh)).trans_le later
  · rw [idCounter]
    exact ceiling

end Roots

section Rename

variable {newParentId : Option EntryId} {updates : List PathUpdate} {newName : String}
variable {oldPath newPath : Path}

theorem RenamePlan.cases (plan : store.RenamePlan id entry oldPath newPath newParentId updates newName) :
    newParentId = entry.parentId ∨ ∃ oldParent newParent, entry.parentId = some oldParent ∧
      newParentId = some newParent ∧ oldParent ≠ newParent := by
  by_cases same : newParentId = entry.parentId
  · exact .inl same
  · obtain ⟨_, _, ⟨_, kept⟩ | ⟨_, hung, parent, _, target⟩⟩ := plan.parent
    · exact absurd kept same
    · obtain ⟨oldParent, link⟩ := Option.ne_none_iff_exists'.mp hung
      exact .inr ⟨oldParent, parent.id, link, target, fun equal => same (by rw [target, link, equal])⟩

theorem installRename_housed (housed : store.Housed) (found : store.inner.entries[id]? = some entry)
    (plan : store.RenamePlan id entry oldPath newPath newParentId updates newName) :
    (store.installRename id entry newParentId updates newName).Housed := by
  have link : store.inner.parentLink id = some entry.parentId :=
    StoreSnapshot.parentLink_eq_some.mpr ⟨entry, found, rfl⟩
  have links (other : EntryId) :
      (store.installRename id entry newParentId updates newName).inner.parentLink other =
        if id = other then some newParentId else store.inner.parentLink other := by
    simp only [StoreSnapshot.parentLink, installRename_lookup]
    split <;> rfl
  have counter : (store.installRename id entry newParentId updates newName).idCounter = store.idCounter :=
    rfl
  have bounded (other : EntryId) (live : (store.installRename id entry newParentId updates
      newName).inner.entries[other]?.isSome = true) : other < store.idCounter := by
    rw [installRename_lookup] at live
    split at live
    · rename_i same
      exact housed.bounded other (by simp [← same, found])
    · exact housed.bounded other live
  have unlisted (above : EntryId) (elsewhere : entry.parentId ≠ some above) :
      id ∉ store.inner.childrenOf above :=
    fun member => elsewhere (Option.some.inj (link.symm.trans (housed.listed above id member)))
  rcases plan.cases with rfl | ⟨oldParent, newParent, old, rfl, changed⟩
  · refine ⟨fun above other member => ?_, fun above => ?_, fun other root above => ?_, ?_, bounded,
      housed.ceiling⟩
    · rw [installRename_lists_same] at member
      rw [links]
      split at member
      · rename_i here
        rcases List.mem_cons.mp (SiblingOrder.insertSorted_perm.mem_iff.mp member) with rfl | sibling
        · simp [here.1]
        · have old := housed.listed above other (List.mem_of_mem_erase sibling)
          split
          · rename_i same
            rw [← same, link] at old
            exact old
          · exact old
      · have old := housed.listed above other member
        split
        · rename_i same
          rw [← same, link] at old
          exact old
        · exact old
    · rw [installRename_lists_same]
      split
      · refine SiblingOrder.insertSorted_perm.nodup_iff.mpr (List.nodup_cons.mpr ⟨?_, ?_⟩)
        · exact (housed.nodup above).not_mem_erase
        · exact (housed.nodup above).erase _
      · exact housed.nodup above
    · rw [installRename_roots] at root
      rw [links]
      split
      · rename_i same
        subst same
        rw [← link]
        exact housed.tops id root above
      · exact housed.tops other root above
    · intro other root
      rw [installRename_roots] at root
      exact housed.known other root
  · refine ⟨fun above other member => ?_, fun above => ?_, fun other root above => ?_, ?_, bounded,
      housed.ceiling⟩
    · rw [installRename_lists_moved old changed] at member
      rw [links]
      split at member
      · rename_i target
        rcases List.mem_cons.mp (SiblingOrder.insertSorted_perm.mem_iff.mp member) with rfl | sibling
        · simp [target]
        · rw [if_neg]
          · exact housed.listed above other sibling
          · rintro rfl
            exact unlisted above (by simp [old, target, changed]) sibling
      · split at member
        · obtain ⟨sibling, distinct⟩ := List.mem_filter.mp member
          rw [if_neg (by rintro rfl; simp at distinct)]
          exact housed.listed above other sibling
        · rename_i elsewhere
          rw [if_neg]
          · exact housed.listed above other member
          · rintro rfl
            exact unlisted above (by simp [old, Ne.symm elsewhere]) member
    · rw [installRename_lists_moved old changed]
      split
      · rename_i target
        refine SiblingOrder.insertSorted_perm.nodup_iff.mpr (List.nodup_cons.mpr ⟨?_, housed.nodup above⟩)
        exact unlisted above (by simp [old, target, changed])
      · split
        · exact (housed.nodup above).filter _
        · exact housed.nodup above
    · rw [installRename_roots] at root
      rw [links]
      split
      · rename_i same
        subst same
        exact absurd (old ▸ link) (housed.tops id root oldParent)
      · exact housed.tops other root above
    · intro other root
      rw [installRename_roots] at root
      exact housed.known other root

end Rename

/-- Every mutation leaves listed ids with the owners of their lists. -/
theorem Published.housed {edit : Edit} (published : store.Published edit after) (housed : store.Housed) :
    after.Housed := by
  cases published with
  | idle _ counter later ceiling => exact housed.advance later ceiling
  | insert path given entry stamped unindexed room =>
    subst stamped
    refine @Housed.extend store _ housed [⟨path, store.idCounter, { given with id := store.idCounter }⟩]
      (List.nodup_singleton _) ?_ (Nat.le_succ _) room installInsert_entries
      (fun above => installInsert_childrenOf) (fun id root => ?_)
    · intro addition member
      rw [List.mem_singleton.mp member]
      exact ⟨le_refl _, Nat.lt_succ_self _⟩
    · rw [installInsert_roots] at root
      exact (List.mem_append.mp root).symm
  | insertBatch entries additions counter later ceiling fresh =>
    refine housed.extend fresh.ids fresh.range later ceiling StoreSnapshot.addRecords_entries
      (fun above => installBatch_childrenOf) (fun id root => ?_)
    rw [installBatch_roots] at root
    exact (List.mem_append.mp root).symm
  | update id given existing updated stamped found parent name =>
    refine housed.reorder rfl (fun other => ?_) (fun above => installUpdate_childrenOf) (fun _ root => root)
    have lookup : (store.installUpdate id existing updated).inner.entries[other]? =
        if id = other then some updated else store.inner.entries[other]? := lookup_insert
    simp only [StoreSnapshot.parentLink, lookup]
    split
    · rename_i same
      subst same
      simp [found, parent]
    · rfl
  | rename id entry oldPath newPath newParentId updates newName found indexed planned =>
    exact installRename_housed housed found (planRename_ok planned)
  | removeSubtree id entry found => exact installRemoval_housed housed found
  | replaceRoots roots orderedIds additions counter later ceiling fresh added origin =>
    exact installRoots_housed housed later ceiling fresh added origin
  | reorderRoots roots same =>
    exact housed.reorder rfl (fun _ => rfl) (fun _ => .refl _) (fun id root => (same id).mp root)
  | markRootUnavailable id root found top => exact installUnavailable_housed housed found top
  | markDirectoriesChildrenLoaded ids loaded =>
    exact housed.reorder rfl (fun _ => rfl) (fun _ => .refl _) (fun _ root => root)
  | reconfigureProjection order visibility compactFolders fileNesting =>
    exact housed.reorder rfl (fun _ => rfl) (fun above => installProjection_childrenOf) (fun _ root => root)
  | reconfigureProjectionWithExclusions order visibility compactFolders fileNesting classify =>
    refine housed.reorder rfl (fun id => ?_) (fun above => installProjection_childrenOf) (fun _ root => root)
    have links := congrArg (Option.map (·.parentId)) (reclassify_lookup store (some classify) id)
    rwa [Option.map_map, Option.map_map] at links
  | remove id existing found => exact remove_housed housed found

theorem empty_housed (order : SiblingOrder) (visibility : VisibilityPolicy) (compactFolders : Bool)
    (fileNesting : FileNestingPolicy) :
    (withProjectionSettings order visibility compactFolders fileNesting).Housed :=
  empty_forested.housed

end Mille.EntryStore
