import Mille.Core.StoreForest

/-! Workspace roots: an unreachable root loses its descendants, and a new set of
roots is installed after the old ones have left with their subtrees. -/

namespace Mille.EntryStore

open Maps Forest

variable {store : EntryStore} {id : EntryId} {entry : Entry} {path : Path}

section Unavailable

theorem Forested.mem_descendants (forested : store.Forested) {top low : EntryId}
    (live : store.inner.entries[top]?.isSome = true) :
    low ∈ store.inner.subtree (store.inner.childrenOf top).reverse ↔
      low ≠ top ∧ Below store.inner.parentLink top low := by
  have chain : Antichain store.inner.parentLink (store.inner.childrenOf top).reverse :=
    List.pairwise_reverse.mpr
      ((forested.linked.children_antichain top).imp (fun apart => ⟨apart.2, apart.1⟩))
  have alone : Antichain store.inner.parentLink [top] := .singleton top
  have covers := alone.covers forested.linked (StoreSnapshot.parentLink_isSome.mpr live) low
  rw [(forested.subtree_spec chain ?_).2 low]
  · simpa using covers
  · intro child member
    have link := (forested.linked.child_iff child top).mp (List.mem_reverse.mp member)
    exact StoreSnapshot.parentLink_isSome.mp (by simp [link])

theorem installUnavailable_lookup {root : Entry} {ids : List EntryId} {other : EntryId} :
    (store.installUnavailable id root ids).inner.entries[other]? =
      if id = other then some root.unavailable else (store.inner.evict ids).entries[other]? := by
  simp only [installUnavailable, unindex_inner, publish_entries, lookup_insert]

theorem installUnavailable_childrenOf {root : Entry} {ids : List EntryId} {above : EntryId} :
    (store.installUnavailable id root ids).inner.childrenOf above =
      if id = above ∨ above ∈ ids then [] else store.inner.childrenOf above := by
  rw [StoreSnapshot.childrenOf_eq]
  simp only [installUnavailable, unindex_inner, publish_children, lookup_erase]
  by_cases same : id = above
  · simp [same]
  · rw [if_neg same, ← StoreSnapshot.childrenOf_eq, StoreSnapshot.evict_childrenOf]
    simp [same]

theorem installUnavailable_idToPath (forested : store.Forested) {root : Entry} {ids : List EntryId}
    {other : EntryId} : (store.installUnavailable id root ids).idToPath[other]? =
      if other ∈ ids then none else store.idToPath[other]? :=
  (unindex_spec (store.publish _ _) forested.inverse ids).2 other

theorem installUnavailable_forested (forested : store.Forested) {root : Entry}
    (found : store.inner.entries[id]? = some root) (top : root.parentId = none) :
    (store.installUnavailable id root
      (store.inner.subtree (store.inner.childrenOf id).reverse)).Forested := by
  have live : store.inner.entries[id]?.isSome = true := by simp [found]
  have link : store.inner.parentLink id = some none :=
    StoreSnapshot.parentLink_eq_some.mpr ⟨root, found, top⟩
  set gone := store.inner.subtree (store.inner.childrenOf id).reverse
  have mem_gone (low) : low ∈ gone ↔ low ≠ id ∧ Below store.inner.parentLink id low :=
    forested.mem_descendants live
  have kept : id ∉ gone := fun member => ((mem_gone id).mp member).1 rfl
  have lookup (other : EntryId) : (store.installUnavailable id root gone).inner.entries[other]? =
      if id = other then some root.unavailable else (store.inner.evict gone).entries[other]? :=
    installUnavailable_lookup
  refine forested.prune gone
    (unindex_spec (store.publish _ _) forested.inverse gone).1
    (fun other => installUnavailable_idToPath forested)
    (by simp [installUnavailable]) ?_ ?_ ?_ ?_ ?_
  · intro other
    simp only [StoreSnapshot.parentLink, lookup, StoreSnapshot.evict_entries]
    by_cases same : id = other
    · subst same
      simp [kept, found, Entry.unavailable]
    · rw [if_neg same]
      split <;> rfl
  · intro other record known
    rw [lookup, StoreSnapshot.evict_entries] at known
    split at known
    · rename_i same
      cases known
      exact (forested.stamped id root found).trans same
    · split at known
      · cases known
      · exact forested.stamped other record known
  · intro node above step out
    rw [mem_gone] at out ⊢
    refine ⟨?_, .child step out.2⟩
    rintro rfl
    simp [link] at step
  · intro above
    rw [installUnavailable_childrenOf]
    refine .of_eq ?_
    by_cases out : above ∈ gone
    · simp [out]
    · rw [if_neg out]
      by_cases same : id = above
      · subst same
        rw [if_pos (.inl rfl)]
        refine (List.filter_eq_nil_iff.mpr fun node member => ?_).symm
        have step := (forested.linked.child_iff node id).mp member
        have below : node ∈ gone :=
          (mem_gone node).mpr ⟨by rintro rfl; simp [link] at step, .of_link step⟩
        simp [below]
      · rw [if_neg (by simp [same, out])]
        refine (List.filter_eq_self.mpr fun node member => ?_).symm
        have step := (forested.linked.child_iff node above).mp member
        have outside : node ∉ gone := by
          rw [mem_gone]
          rintro ⟨strict, path⟩
          exact out ((mem_gone above).mpr ⟨Ne.symm same, path.last_step strict step⟩)
        simp [outside]
  · have unchanged : (store.installUnavailable id root gone).inner.roots = store.inner.roots := by
      simp only [installUnavailable, unindex_inner, publish_roots, StoreSnapshot.evict]
    rw [unchanged]
    refine .of_eq (List.filter_eq_self.mpr fun node member => ?_).symm
    have rooted := (forested.linked.root_iff node).mp member
    have outside : node ∉ gone := by
      rw [mem_gone]
      rintro ⟨strict, path⟩
      cases path with
      | self => exact strict rfl
      | child step _ => simp [rooted] at step
    simp [outside]

theorem markRootUnavailable_forested (forested : store.Forested) (rootId : EntryId) :
    (store.markRootUnavailable rootId).2.Forested := by
  unfold markRootUnavailable
  dsimp only
  split
  · exact forested
  · rename_i root found
    split
    · exact forested
    · rename_i top
      simp only [not_or, Bool.not_eq_true, Option.isSome_eq_false_iff, Option.isNone_iff_eq_none] at top
      split
      · exact forested
      · exact installUnavailable_forested forested found top.1

end Unavailable

section Roots

variable {roots : List (Path × Entry)} {seen : List Path} {counter : Nat}

theorem checkRoots_nodup (checked : checkRoots seen roots = .ok ()) :
    (roots.map Prod.fst).Nodup ∧ ∀ path ∈ roots.map Prod.fst, path ∉ seen := by
  induction roots generalizing seen with
  | nil => simp
  | cons head rest ih =>
    obtain ⟨path, entry⟩ := head
    rw [checkRoots] at checked
    split at checked
    · cases checked
    · rename_i unseen
      split at checked
      · cases checked
      · obtain ⟨nodup, apart⟩ := ih checked
        refine ⟨List.nodup_cons.mpr ⟨fun again => ?_, nodup⟩, ?_⟩
        · exact apart path again (by simp)
        · intro other member
          rcases List.mem_cons.mp member with rfl | later
          · exact unseen
          · exact fun earlier => apart other later (List.mem_cons_of_mem _ earlier)

/-- Every requested root resolves to a current root or to a fresh one. -/
theorem resolveRoots_origin (ceiling : counter ≤ entryIdMax) (nodup : (roots.map Prod.fst).Nodup)
    (unseen : ∀ path ∈ roots.map Prod.fst, path ∉ seen) :
    counter ≤ (store.resolveRoots roots counter).2 ∧
      (store.resolveRoots roots counter).2 ≤ entryIdMax ∧
      ∀ ids additions, (store.resolveRoots roots counter).1 = .ok (ids, additions) →
        store.Fresh seen counter (store.resolveRoots roots counter).2 additions ∧
          (∀ addition ∈ additions, addition.entry.parentId = none ∧ addition.id ∈ ids) ∧
          ∀ id ∈ ids, id ∈ additions.map (·.id) ∨ (id ∈ store.inner.roots ∧
            store.inner.parentLink id = some none) ∧
            ∃ path ∈ roots.map Prod.fst, store.pathToId[path]? = some id := by
  induction roots generalizing seen counter with
  | nil =>
    refine ⟨le_refl _, ceiling, fun ids additions resolved => ?_⟩
    cases resolved
    exact ⟨.nil, by simp, by simp⟩
  | cons head rest ih =>
    obtain ⟨path, entry⟩ := head
    obtain ⟨first, nodup⟩ := List.nodup_cons.mp nodup
    obtain ⟨pathUnseen, unseen⟩ := List.forall_mem_cons.mp unseen
    have unseen' : ∀ other ∈ rest.map Prod.fst, other ∉ path :: seen := by
      intro other member earlier
      rcases List.mem_cons.mp earlier with rfl | earlier
      · exact first member
      · exact unseen other member earlier
    rw [resolveRoots]
    split
    · rename_i id known
      split
      · exact ⟨le_refl _, ceiling, fun _ _ failed => by cases failed⟩
      · rename_i indexed found
        split
        · exact ⟨le_refl _, ceiling, fun _ _ failed => by cases failed⟩
        · rename_i rooted
          simp only [not_or, not_not, Bool.not_eq_true, Option.isSome_eq_false_iff,
            Option.isNone_iff_eq_none] at rooted
          obtain ⟨up, bound, spec⟩ := ih ceiling nodup unseen
          split
          · rename_i failed
            rw [failed] at up bound
            exact ⟨up, bound, fun _ _ broken => by cases broken⟩
          · rename_i ids additions high resolved
            rw [resolved] at up bound spec
            refine ⟨up, bound, fun all others same => ?_⟩
            cases same
            obtain ⟨fresh, added, origin⟩ := spec ids additions rfl
            refine ⟨fresh, fun addition member => ?_, ?_⟩
            · exact ⟨(added addition member).1, List.mem_cons_of_mem _ (added addition member).2⟩
            · intro other member
              rcases List.mem_cons.mp member with rfl | rest
              · refine .inr ⟨⟨rooted.2, ?_⟩, path, by simp, known⟩
                exact StoreSnapshot.parentLink_eq_some.mpr ⟨indexed, found, rooted.1⟩
              · rcases origin other rest with new | ⟨root, source, listed, same⟩
                · exact .inl new
                · exact .inr ⟨root, source, List.mem_cons_of_mem _ listed, same⟩
    · rename_i unindexed
      have moved := EntryId.allocFrom_counter ceiling
      split
      · rename_i error after allocated
        rw [allocated] at moved
        exact ⟨moved.1, moved.2, fun _ _ failed => by cases failed⟩
      · rename_i id after allocated
        rw [allocated] at moved
        obtain ⟨rfl, below, rfl⟩ := EntryId.allocFrom_ok allocated
        obtain ⟨up, bound, spec⟩ := ih moved.2 nodup unseen'
        split
        · rename_i failed
          rw [failed] at up bound
          exact ⟨(Nat.le_succ _).trans up, bound, fun _ _ broken => by cases broken⟩
        · rename_i ids additions high resolved
          rw [resolved] at up bound spec
          refine ⟨(Nat.le_succ _).trans up, bound, fun all others same => ?_⟩
          cases same
          obtain ⟨fresh, added, origin⟩ := spec ids additions rfl
          refine ⟨?_, ?_, ?_⟩
          · exact Fresh.cons ⟨path, id, { entry with id := id, parentId := none }⟩
              pathUnseen unindexed rfl (fun _ link => by cases link) up fresh
          · intro addition member
            rcases List.mem_cons.mp member with rfl | rest
            · exact ⟨rfl, by simp⟩
            · exact ⟨(added addition rest).1, List.mem_cons_of_mem _ (added addition rest).2⟩
          · intro other member
            rcases List.mem_cons.mp member with rfl | rest
            · exact .inl (by simp)
            · rcases origin other rest with new | ⟨root, source, listed, same⟩
              · exact .inl (List.mem_cons_of_mem _ new)
              · exact .inr ⟨root, source, List.mem_cons_of_mem _ listed, same⟩

/-- Different requests resolve to different ids. -/
theorem resolveRoots_nodup (forested : store.Forested) (ceiling : counter ≤ entryIdMax)
    (later : store.idCounter ≤ counter) (nodup : (roots.map Prod.fst).Nodup) {ids : List EntryId}
    {additions : List Addition} (resolved : (store.resolveRoots roots counter).1 = .ok (ids, additions)) :
    ids.Nodup := by
  induction roots generalizing counter ids additions with
  | nil =>
    cases resolved
    exact List.nodup_nil
  | cons head rest ih =>
    obtain ⟨path, entry⟩ := head
    obtain ⟨first, nodup⟩ := List.nodup_cons.mp nodup
    have moved := EntryId.allocFrom_counter ceiling
    rw [resolveRoots] at resolved
    split at resolved
    · rename_i id known
      split at resolved
      · cases resolved
      · rename_i indexed found
        split at resolved
        · cases resolved
        · split at resolved
          · cases resolved
          · rename_i others added high below
            cases resolved
            obtain ⟨_, _, spec⟩ := resolveRoots_origin ceiling nodup (fun path _ => List.not_mem_nil)
            obtain ⟨fresh, _, origin⟩ := spec _ _ (by rw [below])
            refine List.nodup_cons.mpr ⟨fun again => ?_, ih ceiling later nodup (by rw [below])⟩
            rcases origin id again with new | ⟨_, other, member, same⟩
            · obtain ⟨addition, present, rfl⟩ := List.mem_map.mp new
              have used := forested.bounded addition.id (by simp [found])
              exact absurd used (Nat.not_lt.mpr (later.trans (fresh.range addition present).1))
            · exact first (forested.inverse.injective known same ▸ member)
    · split at resolved
      · cases resolved
      · rename_i id after allocated
        rw [allocated] at moved
        obtain ⟨rfl, below, rfl⟩ := EntryId.allocFrom_ok allocated
        split at resolved
        · cases resolved
        · rename_i others added high tail
          cases resolved
          obtain ⟨_, _, spec⟩ := resolveRoots_origin moved.2 nodup (fun path _ => List.not_mem_nil)
          obtain ⟨fresh, _, origin⟩ := spec _ _ (by rw [tail])
          refine List.nodup_cons.mpr ⟨fun again => ?_,
            ih moved.2 (later.trans (Nat.le_succ _)) nodup (by rw [tail])⟩
          rcases origin id again with new | ⟨⟨_, live⟩, _⟩
          · obtain ⟨addition, present, same⟩ := List.mem_map.mp new
            exact absurd same (Nat.ne_of_gt (fresh.range addition present).1)
          · have used := forested.bounded id (StoreSnapshot.parentLink_isSome.mp (by simp [live]))
            exact absurd used (Nat.not_lt.mpr later)

theorem resolveRoots_spec (forested : store.Forested) (ceiling : counter ≤ entryIdMax)
    (later : store.idCounter ≤ counter) (nodup : (roots.map Prod.fst).Nodup)
    (unseen : ∀ path ∈ roots.map Prod.fst, path ∉ seen) :
    counter ≤ (store.resolveRoots roots counter).2 ∧
      (store.resolveRoots roots counter).2 ≤ entryIdMax ∧
      ∀ ids additions, (store.resolveRoots roots counter).1 = .ok (ids, additions) →
        store.Fresh seen counter (store.resolveRoots roots counter).2 additions ∧
          (∀ addition ∈ additions, addition.entry.parentId = none ∧ addition.id ∈ ids) ∧
          ids.Nodup ∧ ∀ id ∈ ids, id ∈ additions.map (·.id) ∨ id ∈ store.inner.roots ∧
            ∃ path ∈ roots.map Prod.fst, store.pathToId[path]? = some id := by
  obtain ⟨up, bound, spec⟩ := resolveRoots_origin ceiling nodup unseen
  refine ⟨up, bound, fun ids additions resolved => ?_⟩
  obtain ⟨fresh, added, origin⟩ := spec ids additions resolved
  refine ⟨fresh, added, resolveRoots_nodup forested ceiling later nodup resolved, fun id member => ?_⟩
  exact (origin id member).imp_right fun known => ⟨known.1.1, known.2⟩

theorem unindex_congr (left right : EntryStore) (paths : left.pathToId = right.pathToId)
    (ids : left.idToPath = right.idToPath) (gone : List EntryId) :
    (left.unindex gone).pathToId = (right.unindex gone).pathToId ∧
      (left.unindex gone).idToPath = (right.unindex gone).idToPath := by
  unfold unindex
  induction gone generalizing left right with
  | nil => exact ⟨paths, ids⟩
  | cons head tail ih =>
    rw [List.foldl_cons, List.foldl_cons]
    apply ih
    · rw [ids]
      split <;> simp [paths]
    · rw [ids]
      split <;> simp [ids]

/-- The store between eviction and installation of a new set of roots. -/
def withoutRoots (store : EntryStore) (gone : List EntryId) : EntryStore :=
  { store with
    inner := { store.inner.evict gone with
      roots := store.inner.roots.filter (· ∉ gone) } }.unindex gone

theorem withoutRoots_advance (store : EntryStore) (counter : Nat) (gone : List EntryId) :
    ({ store with idCounter := counter }.withoutRoots gone).inner = (store.withoutRoots gone).inner ∧
      ({ store with idCounter := counter }.withoutRoots gone).pathToId =
        (store.withoutRoots gone).pathToId ∧
      ({ store with idCounter := counter }.withoutRoots gone).idToPath =
        (store.withoutRoots gone).idToPath := by
  obtain ⟨paths, ids⟩ := unindex_congr
    { store with
      idCounter := counter
      inner := { store.inner.evict gone with roots := store.inner.roots.filter (· ∉ gone) } }
    { store with
      inner := { store.inner.evict gone with roots := store.inner.roots.filter (· ∉ gone) } }
    rfl rfl gone
  exact ⟨by simp only [withoutRoots, unindex_inner], paths, ids⟩

theorem withoutRoots_idToPath (forested : store.Forested) {gone : List EntryId} :
    (store.withoutRoots gone).idToPath[id]? = if id ∈ gone then none else store.idToPath[id]? :=
  (unindex_spec { store with
    inner := { store.inner.evict gone with roots := store.inner.roots.filter (· ∉ gone) } }
    forested.inverse gone).2 id

theorem withoutRoots_entries {gone : List EntryId} :
    (store.withoutRoots gone).inner.entries[id]? =
      if id ∈ gone then none else store.inner.entries[id]? := by
  simp only [withoutRoots, unindex_inner, StoreSnapshot.evict_entries]

theorem Forested.mem_branches (forested : store.Forested) {tops : List EntryId} {low : EntryId}
    (rooted : ∀ top ∈ tops, top ∈ store.inner.roots) :
    low ∈ tops.flatMap (fun top => store.inner.subtree [top]) ↔
      ∃ top ∈ tops, Below store.inner.parentLink top low := by
  rw [List.mem_flatMap]
  refine exists_congr fun top => and_congr_right fun member => forested.mem_subtree ?_
  have link := (forested.linked.root_iff top).mp (rooted top member)
  exact StoreSnapshot.parentLink_isSome.mp (by simp [link])

theorem withoutRoots_forested (forested : store.Forested) (tops : List EntryId)
    (rooted : ∀ top ∈ tops, top ∈ store.inner.roots) :
    (store.withoutRoots (tops.flatMap (fun top => store.inner.subtree [top]))).Forested := by
  have mem_gone (low) := @Forested.mem_branches store forested tops low rooted
  set gone := tops.flatMap (fun top => store.inner.subtree [top]) with removed
  have inner : (store.withoutRoots gone).inner =
      { store.inner.evict gone with roots := store.inner.roots.filter (· ∉ gone) } := by
    simp [withoutRoots]
  have inverse := (unindex_spec { store with
    inner := { store.inner.evict gone with roots := store.inner.roots.filter (· ∉ gone) } }
    forested.inverse gone).1
  refine forested.prune gone inverse (fun id => withoutRoots_idToPath forested)
    (by simp [withoutRoots]) ?_ ?_ ?_ ?_ ?_
  · intro id
    simp only [StoreSnapshot.parentLink, withoutRoots_entries]
    split <;> rfl
  · intro id entry known
    rw [withoutRoots_entries] at known
    split at known
    · cases known
    · exact forested.stamped id entry known
  · intro node above link out
    obtain ⟨top, member, path⟩ := (mem_gone above).mp out
    exact (mem_gone node).mpr ⟨top, member, .child link path⟩
  · intro above
    have evicted : (store.withoutRoots gone).inner.childrenOf above =
        (store.inner.evict gone).childrenOf above := by
      rw [inner]
      rfl
    rw [evicted, StoreSnapshot.evict_childrenOf]
    split
    · exact .refl _
    · rename_i kept
      refine .of_eq (List.filter_eq_self.mpr fun node member => ?_).symm
      have link := (forested.linked.child_iff node above).mp member
      have outside : node ∉ gone := by
        rw [mem_gone]
        rintro ⟨top, listed, path⟩
        refine kept ((mem_gone above).mpr ⟨top, listed, path.last_step ?_ link⟩)
        rintro rfl
        simp [(forested.linked.root_iff _).mp (rooted _ listed)] at link
      simp [outside]
  · rw [inner]

theorem installRoots_inner (store : EntryStore) (orderedIds gone : List EntryId)
    (additions : List Addition) :
    (store.installRoots orderedIds gone additions).inner.entries = insertAll
        (store.withoutRoots gone).inner.entries
        (additions.map (fun addition => (addition.id, addition.entry))) ∧
      (∀ above, (store.installRoots orderedIds gone additions).inner.childrenOf above =
        (store.withoutRoots gone).inner.childrenOf above) ∧
      (store.installRoots orderedIds gone additions).inner.roots = orderedIds ∧
      (store.installRoots orderedIds gone additions).pathToId =
        ((store.withoutRoots gone).index additions).pathToId ∧
      (store.installRoots orderedIds gone additions).idToPath =
        ((store.withoutRoots gone).index additions).idToPath ∧
      (store.installRoots orderedIds gone additions).idCounter = store.idCounter := by
  have maps := unindex_congr
    (store.publish
      { (store.inner.evict gone).addRecords store.visibility additions with roots := orderedIds }
      (fun changes =>
        { changes with
          changedIds := changes.changedIds ∪ gone.toFinset ∪ orderedIds.toFinset }))
    { store with
      inner := { store.inner.evict gone with roots := store.inner.roots.filter (· ∉ gone) } }
    rfl rfl gone
  refine ⟨?_, ?_, ?_, ?_, ?_, ?_⟩
  · simp only [installRoots, withoutRoots, index, unindex_inner, publish_entries]
    exact StoreSnapshot.addRecords_entries
  · intro above
    rw [StoreSnapshot.childrenOf_eq, StoreSnapshot.childrenOf_eq]
    simp only [installRoots, withoutRoots, index, unindex_inner, publish_children,
      StoreSnapshot.addRecords_frame]
  · simp only [installRoots, index, unindex_inner, publish_roots]
  · exact congrArg (fun paths => insertAll paths _) maps.1
  · exact congrArg (fun ids => insertAll ids _) maps.2
  · simp only [installRoots, index, unindex_idCounter, publish_idCounter]

theorem Forested.root_evicted (forested : store.Forested) (orderedIds : List EntryId)
    (root : id ∈ store.inner.roots) :
    id ∈ (store.inner.roots.filter (· ∉ orderedIds)).flatMap (fun top => store.inner.subtree [top]) ↔
      id ∉ orderedIds := by
  have link := (forested.linked.root_iff id).mp root
  have live (top) (member : top ∈ store.inner.roots.filter (· ∉ orderedIds)) :
      store.inner.entries[top]?.isSome = true := by
    have link := (forested.linked.root_iff top).mp (List.mem_filter.mp member).1
    exact StoreSnapshot.parentLink_isSome.mp (by simp [link])
  rw [List.mem_flatMap]
  constructor
  · rintro ⟨top, member, path⟩
    rw [forested.mem_subtree (live top member)] at path
    cases path with
    | self => simpa using (List.mem_filter.mp member).2
    | child step _ => simp [link] at step
  · intro dropped
    have member : id ∈ store.inner.roots.filter (· ∉ orderedIds) := by simp [root, dropped]
    exact ⟨id, member, (forested.mem_subtree (live id member)).mpr .self⟩

theorem Fresh.withoutRoots {gone : List EntryId} {additions : List Addition}
    (fresh : store.Fresh [] store.idCounter counter additions) (forested : store.Forested)
    (pruned : (store.withoutRoots gone).Forested) {orderedIds : List EntryId}
    (added : ∀ addition ∈ additions, addition.entry.parentId = none ∧ addition.id ∈ orderedIds) :
    (store.withoutRoots gone).Fresh [] (store.withoutRoots gone).idCounter counter additions := by
  refine { fresh with
    range := by simpa [EntryStore.withoutRoots] using fresh.range
    unindexed := fun addition member => ?_
    hung := fun addition member parentId link => by simp [(added addition member).1] at link }
  cases known : (store.withoutRoots gone).pathToId[addition.path]? with
  | none => rfl
  | some id =>
    have back := (pruned.inverse addition.path id).mp known
    rw [withoutRoots_idToPath forested] at back
    split at back
    · cases back
    · exact absurd ((forested.inverse _ _).mpr back) (by simp [fresh.unindexed addition member])

theorem installRoots_forested (forested : store.Forested) {orderedIds : List EntryId}
    {additions : List Addition} (later : store.idCounter ≤ counter) (ceiling : counter ≤ entryIdMax)
    (fresh : store.Fresh [] store.idCounter counter additions)
    (added : ∀ addition ∈ additions, addition.entry.parentId = none ∧ addition.id ∈ orderedIds)
    (distinct : orderedIds.Nodup)
    (origin : ∀ id ∈ orderedIds, id ∈ additions.map (·.id) ∨ id ∈ store.inner.roots) :
    ({ store with idCounter := counter }.installRoots orderedIds
      ((store.inner.roots.filter (· ∉ orderedIds)).flatMap (fun top => store.inner.subtree [top]))
      additions).Forested := by
  have pruned := withoutRoots_forested forested
    (store.inner.roots.filter (· ∉ orderedIds)) (fun top member => (List.mem_filter.mp member).1)
  have evicted (id) (root : id ∈ store.inner.roots) := forested.root_evicted orderedIds root
  set gone := (store.inner.roots.filter (· ∉ orderedIds)).flatMap (fun top => store.inner.subtree [top])
  obtain ⟨entries, children, roots, pathToId, idToPath, idCounter⟩ :=
    installRoots_inner { store with idCounter := counter } orderedIds gone additions
  obtain ⟨inner, paths, ids⟩ := withoutRoots_advance store counter gone
  rw [inner] at entries children
  have kept := fresh.withoutRoots forested pruned added
  replace idCounter : ({ store with idCounter := counter }.installRoots orderedIds gone
    additions).idCounter = counter := idCounter
  rw [← idCounter] at kept
  refine pruned.extend kept ?_ ?_ ?_ ?_ ?_ ?_ ?_
  · rw [idCounter]
    simpa [withoutRoots] using later
  · rw [idCounter]
    exact ceiling
  · exact entries
  · exact pathToId.trans (congrArg (fun paths => insertAll paths _) paths)
  · exact idToPath.trans (congrArg (fun ids => insertAll ids _) ids)
  · intro above
    rw [children]
    have noGrafts : Linked.graftsAt (links additions) (some above) = [] := by
      refine List.eq_nil_iff_forall_not_mem.mpr fun id grafted => ?_
      obtain ⟨addition, present, same⟩ := List.mem_map.mp (Linked.mem_graftsAt.mp grafted)
      simp [(added addition present).1] at same
    rw [noGrafts]
    exact .refl _
  · have newRoots : Linked.graftsAt (links additions) none = additions.map (·.id) := by
      rw [Linked.graftsAt, List.filter_eq_self.mpr, links_fst]
      intro link member
      obtain ⟨addition, present, rfl⟩ := List.mem_map.mp member
      simpa using (added addition present).1
    have unseen (id) (member : id ∈ additions.map (·.id)) : id ∉ store.inner.roots := by
      intro root
      obtain ⟨addition, present, rfl⟩ := List.mem_map.mp member
      have link := (forested.linked.root_iff _).mp root
      have used := forested.bounded addition.id (StoreSnapshot.parentLink_isSome.mp (by simp [link]))
      exact absurd used (Nat.not_lt.mpr (fresh.range addition present).1)
    have remaining : (store.withoutRoots gone).inner.roots = store.inner.roots.filter (· ∉ gone) := by
      simp [withoutRoots]
    rw [roots, newRoots, remaining]
    refine (List.perm_ext_iff_of_nodup distinct ?_).mpr fun id => ?_
    · refine List.nodup_append'.mpr ⟨fresh.ids, forested.linked.roots_nodup.filter _, ?_⟩
      intro id new old
      exact unseen id new (List.mem_filter.mp old).1
    · rw [List.mem_append, List.mem_filter]
      constructor
      · intro member
        by_cases new : id ∈ additions.map (·.id)
        · exact .inl new
        · have root := (origin id member).resolve_left new
          exact .inr ⟨root, by simpa [evicted id root] using member⟩
      · rintro (new | ⟨root, stays⟩)
        · obtain ⟨addition, present, rfl⟩ := List.mem_map.mp new
          exact (added addition present).2
        · simpa [evicted id root] using stays

theorem replaceRoots_forested (forested : store.Forested) (roots : List (Path × Entry)) :
    (store.replaceRoots roots).2.Forested := by
  unfold replaceRoots
  dsimp only
  split
  · exact forested
  · rename_i checked
    obtain ⟨nodup, unseen⟩ := checkRoots_nodup checked
    have resolved := resolveRoots_spec forested forested.ceiling (le_refl _) nodup unseen
    split
    · exact forested
    · split
      · rename_i error counter failed
        rw [failed] at resolved
        exact forested.advance resolved.1 resolved.2.1
      · rename_i orderedIds additions counter found
        rw [found] at resolved
        obtain ⟨fresh, added, distinct, origin⟩ := resolved.2.2 orderedIds additions rfl
        split
        · exact forested.advance resolved.1 resolved.2.1
        · exact installRoots_forested forested resolved.1 resolved.2.1 fresh added distinct
            (fun id member => (origin id member).imp_right And.left)

end Roots

end Mille.EntryStore
