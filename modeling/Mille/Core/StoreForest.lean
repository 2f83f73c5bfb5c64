import Mille.Core.Store

/-! The forest invariant of the store: the path index is a bijection onto the
live ids, and parent fields, child lists and roots describe one forest. -/

namespace Mille.EntryStore

open Maps Forest

/-- What every operation keeps. -/
structure Forested (store : EntryStore) : Prop where
  inverse : Inverse store.pathToId store.idToPath
  indexed : ∀ id : EntryId, store.idToPath[id]?.isSome = true ↔ store.inner.entries[id]?.isSome = true
  linked : Linked store.inner.parentLink store.inner.childrenOf store.inner.roots
  stamped : ∀ (id : EntryId) (entry : Entry), store.inner.entries[id]? = some entry → entry.id = id
  bounded : ∀ id : EntryId, store.inner.entries[id]?.isSome = true → id < store.idCounter
  ceiling : store.idCounter ≤ entryIdMax

variable {store : EntryStore} {next : StoreSnapshot} {change : ChangeSet → ChangeSet}
variable {id : EntryId} {entry : Entry} {path : Path}

section Frames

variable (store next change)

@[simp] theorem publish_entries : (store.publish next change).inner.entries = next.entries := rfl

@[simp] theorem publish_children : (store.publish next change).inner.children = next.children := rfl

@[simp] theorem publish_roots : (store.publish next change).inner.roots = next.roots := rfl

@[simp] theorem publish_counts :
    (store.publish next change).inner.directChildCounts = next.directChildCounts := rfl

@[simp] theorem publish_pathToId : (store.publish next change).pathToId = store.pathToId := rfl

@[simp] theorem publish_idToPath : (store.publish next change).idToPath = store.idToPath := rfl

@[simp] theorem publish_idCounter : (store.publish next change).idCounter = store.idCounter := rfl

@[simp] theorem publish_childrenOf :
    (store.publish next change).inner.childrenOf = next.childrenOf := rfl

@[simp] theorem publish_parentLink :
    (store.publish next change).inner.parentLink = next.parentLink := rfl

@[simp] theorem unindex_inner (ids : List EntryId) : (store.unindex ids).inner = store.inner := by
  unfold unindex
  induction ids generalizing store with
  | nil => rfl
  | cons head tail ih =>
    rw [List.foldl_cons, ih]
    split <;> rfl

@[simp] theorem unindex_idCounter (ids : List EntryId) :
    (store.unindex ids).idCounter = store.idCounter := by
  unfold unindex
  induction ids generalizing store with
  | nil => rfl
  | cons head tail ih =>
    rw [List.foldl_cons, ih]
    split <;> rfl

end Frames

theorem Forested.advance (forested : store.Forested) {counter : Nat}
    (later : store.idCounter ≤ counter) (ceiling : counter ≤ entryIdMax) :
    ({ store with idCounter := counter } : EntryStore).Forested :=
  { forested with
    bounded := fun id live => (forested.bounded id live).trans_le later
    ceiling := ceiling }

theorem unindex_spec (store : EntryStore) (inverse : Inverse store.pathToId store.idToPath)
    (ids : List EntryId) :
    Inverse (store.unindex ids).pathToId (store.unindex ids).idToPath ∧
      ∀ id : EntryId, (store.unindex ids).idToPath[id]? =
        if id ∈ ids then none else store.idToPath[id]? := by
  unfold unindex
  induction ids generalizing store with
  | nil => exact ⟨inverse, by simp⟩
  | cons head tail ih =>
    rw [List.foldl_cons]
    cases found : store.idToPath[head]? with
    | none =>
      obtain ⟨kept, lookup⟩ := ih store inverse
      refine ⟨kept, fun id => ?_⟩
      rw [lookup]
      by_cases same : id = head
      · simp [same, found]
      · simp [same]
    | some gone =>
      obtain ⟨kept, lookup⟩ := ih
        { store with idToPath := store.idToPath.erase head, pathToId := store.pathToId.erase gone }
        (inverse.erase found)
      refine ⟨kept, fun id => ?_⟩
      rw [lookup, lookup_erase]
      by_cases same : id = head
      · simp [same]
      · simp [same, Ne.symm same]

theorem unindexScan_spec (inverse : Inverse store.pathToId store.idToPath) (ids : List EntryId) :
    Inverse (store.unindexScan ids).pathToId (store.unindexScan ids).idToPath ∧
      ∀ id : EntryId, (store.unindexScan ids).idToPath[id]? =
        if id ∈ ids then none else store.idToPath[id]? := by
  refine ⟨?_, fun id => lookup_eraseAll⟩
  intro path id
  simp only [unindexScan, lookup_eraseAll]
  have scanned : path ∈ (store.pathToId.toList.filter (fun binding => binding.2 ∈ ids)).map Prod.fst ↔
      ∃ holder ∈ ids, store.pathToId[path]? = some holder := by
    simp [Std.ExtTreeMap.mem_toList_iff_getElem?_eq_some, and_comm]
  by_cases known : store.pathToId[path]? = some id
  · have back := (inverse path id).mp known
    by_cases member : id ∈ ids
    · rw [if_pos (scanned.mpr ⟨id, member, known⟩), if_pos member]
      simp
    · rw [if_neg, if_neg member, inverse path id]
      rintro present
      obtain ⟨holder, listed, found⟩ := scanned.mp present
      exact member (Option.some.inj (found.symm.trans known) ▸ listed)
  · have unknown : store.idToPath[id]? ≠ some path := fun back => known ((inverse path id).mpr back)
    constructor
    · intro found
      split at found
      · cases found
      · exact absurd found known
    · intro found
      split at found
      · cases found
      · exact absurd found unknown

namespace Forested

variable {stack gone : List EntryId} {top low parentId : EntryId}

theorem parent_live (forested : store.Forested) (found : store.inner.entries[id]? = some entry)
    (link : entry.parentId = some parentId) : store.inner.entries[parentId]?.isSome = true :=
  StoreSnapshot.parentLink_isSome.mp
    (forested.linked.parent_live (StoreSnapshot.parentLink_eq_some.mpr ⟨entry, found, link⟩))

theorem subtree_spec (forested : store.Forested) (chain : Antichain store.inner.parentLink stack)
    (live : ∀ top ∈ stack, store.inner.entries[top]?.isSome = true) :
    (store.inner.subtree stack).Nodup ∧ ∀ low, low ∈ store.inner.subtree stack ↔
      ∃ top ∈ stack, Below store.inner.parentLink top low := by
  have members (low) (known : store.inner.entries[low]?.isSome = true) :
      low ∈ store.inner.entries.keys.toFinset := by
    rw [List.mem_toFinset, Std.ExtTreeMap.mem_keys, ← Std.ExtTreeMap.isSome_getElem?_iff_mem]
    exact known
  refine collect_complete forested.linked store.inner.entries.keys.toFinset ?_ chain ?_ ?_
  · rintro low ⟨top, present, path⟩
    exact members low (StoreSnapshot.parentLink_isSome.mp
      (path.live (StoreSnapshot.parentLink_isSome.mpr (live top present))))
  · exact fun top present => StoreSnapshot.parentLink_isSome.mpr (live top present)
  · exact (List.toFinset_card_le _).trans Std.ExtTreeMap.length_keys.le

theorem mem_subtree (forested : store.Forested) (live : store.inner.entries[top]?.isSome = true) :
    low ∈ store.inner.subtree [top] ↔ Below store.inner.parentLink top low := by
  rw [(forested.subtree_spec (.singleton top) (by simpa using live)).2 low]
  simp

theorem subtree_nodup (forested : store.Forested) (live : store.inner.entries[top]?.isSome = true) :
    (store.inner.subtree [top]).Nodup :=
  (forested.subtree_spec (.singleton top) (by simpa using live)).1

theorem prune (forested : store.Forested) (gone : List EntryId) {after : EntryStore}
    (inverse : Inverse after.pathToId after.idToPath)
    (unindexed : ∀ id : EntryId, after.idToPath[id]? = if id ∈ gone then none else store.idToPath[id]?)
    (counter : after.idCounter = store.idCounter)
    (links : ∀ id, after.inner.parentLink id = if id ∈ gone then none else store.inner.parentLink id)
    (stamped : ∀ (id : EntryId) (entry : Entry), after.inner.entries[id]? = some entry → entry.id = id)
    (closed : ∀ node above, store.inner.parentLink node = some (some above) → above ∈ gone → node ∈ gone)
    (lists : ∀ above, (after.inner.childrenOf above).Perm
      (if above ∈ gone then [] else (store.inner.childrenOf above).filter (· ∉ gone)))
    (tops : after.inner.roots.Perm (store.inner.roots.filter (· ∉ gone))) : after.Forested := by
  have live (id : EntryId) : after.inner.entries[id]?.isSome = true ↔
      id ∉ gone ∧ store.inner.entries[id]?.isSome = true := by
    rw [← StoreSnapshot.parentLink_isSome, links, ← StoreSnapshot.parentLink_isSome]
    split <;> simp [*]
  refine ⟨inverse, ?_, ?_, stamped, ?_, ?_⟩
  · intro id
    rw [unindexed, live, ← forested.indexed]
    split <;> simp [*]
  · refine forested.linked.prune (· ∈ gone) closed (fun node out => ?_) (fun node inside => ?_)
      (fun above out => ?_) (fun above inside => ?_) tops
    · rw [links, if_pos out]
    · rw [links, if_neg inside]
    · simpa [out] using lists above
    · simpa [inside] using lists above
  · intro id known
    rw [counter]
    exact forested.bounded id ((live id).mp known).2
  · rw [counter]
    exact forested.ceiling

theorem mem_subtree_child (forested : store.Forested)
    (live : store.inner.entries[top]?.isSome = true) {node above : EntryId}
    (member : node ∈ store.inner.childrenOf above) (kept : above ∉ store.inner.subtree [top]) :
    node ∈ store.inner.subtree [top] ↔ node = top := by
  rw [forested.mem_subtree live] at *
  constructor
  · intro path
    by_contra strict
    exact kept (path.last_step strict ((forested.linked.child_iff node above).mp member))
  · rintro rfl
    exact .self

theorem subtree_closed (forested : store.Forested) (live : store.inner.entries[top]?.isSome = true)
    (node above) (link : store.inner.parentLink node = some (some above))
    (out : above ∈ store.inner.subtree [top]) : node ∈ store.inner.subtree [top] := by
  rw [forested.mem_subtree live] at *
  exact .child link out

end Forested

section Removal

variable {ids : List EntryId}

theorem installRemoval_inner (store : EntryStore) (id : EntryId) (entry : Entry) (ids : List EntryId) :
    (store.installRemoval id entry ids).inner.entries = (store.inner.evict ids).entries ∧
      (store.installRemoval id entry ids).inner.roots = store.inner.roots.diff ids ∧
      (store.installRemoval id entry ids).pathToId = (store.unindexScan ids).pathToId ∧
      (store.installRemoval id entry ids).idToPath = (store.unindexScan ids).idToPath ∧
      (store.installRemoval id entry ids).idCounter = store.idCounter := by
  rw [List.diff_eq_foldl]
  unfold installRemoval
  cases entry.parentId <;> exact ⟨rfl, rfl, rfl, rfl, rfl⟩

theorem installRemoval_lists {above : EntryId} :
    (store.installRemoval id entry ids).inner.childrenOf above =
      match entry.parentId with
      | none => (store.inner.evict ids).childrenOf above
      | some parentId => ((store.inner.evict ids).dropChild parentId id).childrenOf above := by
  unfold installRemoval
  cases entry.parentId <;> rfl

theorem installRemoval_childrenOf {above : EntryId} :
    (store.installRemoval id entry ids).inner.childrenOf above =
      if above ∈ ids then []
      else if entry.parentId = some above then (store.inner.childrenOf above).filter (· ≠ id)
      else store.inner.childrenOf above := by
  rw [installRemoval_lists]
  cases entry.parentId with
  | none => simp [StoreSnapshot.evict_childrenOf]
  | some parentId =>
    simp only [StoreSnapshot.dropChild_childrenOf, StoreSnapshot.evict_childrenOf,
      Option.some.injEq]
    split <;> split <;> simp

theorem installRemoval_forested (forested : store.Forested)
    (found : store.inner.entries[id]? = some entry) :
    (store.installRemoval id entry (store.inner.subtree [id])).Forested := by
  have live : store.inner.entries[id]?.isSome = true := by simp [found]
  have link : store.inner.parentLink id = some entry.parentId :=
    StoreSnapshot.parentLink_eq_some.mpr ⟨entry, found, rfl⟩
  obtain ⟨inverse, unindexed⟩ := unindexScan_spec forested.inverse (store.inner.subtree [id])
  obtain ⟨entries, roots, pathToId, idToPath, counter⟩ :=
    installRemoval_inner store id entry (store.inner.subtree [id])
  refine forested.prune _ (by rw [pathToId, idToPath]; exact inverse) (by rw [idToPath]; exact unindexed)
    counter ?_ ?_ (forested.subtree_closed live) ?_ ?_
  · intro other
    simp only [StoreSnapshot.parentLink, entries, StoreSnapshot.evict_entries]
    split <;> rfl
  · intro other record known
    rw [entries, StoreSnapshot.evict_entries] at known
    split at known
    · cases known
    · exact forested.stamped other record known
  · -- A kept list loses the removed top and nothing else.
    intro above
    rw [installRemoval_childrenOf]
    by_cases out : above ∈ store.inner.subtree [id]
    · simp [out]
    · rw [if_neg out, if_neg out]
      have only (node) (member : node ∈ store.inner.childrenOf above) :=
        forested.mem_subtree_child live member out
      split
      · refine List.Perm.of_eq (List.filter_congr fun node member => ?_)
        simp [only node member]
      · rename_i other
        refine List.Perm.of_eq (List.filter_eq_self.mpr fun node member => ?_).symm
        have distinct : node ≠ id := by
          rintro rfl
          exact other (Option.some.inj (link.symm.trans ((forested.linked.child_iff _ above).mp member)))
        simp [only node member, distinct]
  · rw [roots, forested.linked.roots_nodup.sdiff_eq_filter]

theorem removeSubtree_forested (forested : store.Forested) (id : EntryId) :
    (store.removeSubtree id).2.Forested := by
  unfold removeSubtree
  split
  · exact forested
  · rename_i entry found
    exact installRemoval_forested forested found

end Removal

section Records

theorem Forested.reorder (forested : store.Forested) {after : EntryStore}
    (pathToId : after.pathToId = store.pathToId) (idToPath : after.idToPath = store.idToPath)
    (counter : after.idCounter = store.idCounter)
    (links : ∀ id, after.inner.parentLink id = store.inner.parentLink id)
    (stamped : ∀ (id : EntryId) (entry : Entry), after.inner.entries[id]? = some entry → entry.id = id)
    (lists : ∀ id, (after.inner.childrenOf id).Perm (store.inner.childrenOf id))
    (roots : after.inner.roots.Perm store.inner.roots) : after.Forested := by
  have live (id : EntryId) : after.inner.entries[id]?.isSome = true ↔
      store.inner.entries[id]?.isSome = true := by
    rw [← StoreSnapshot.parentLink_isSome, links, StoreSnapshot.parentLink_isSome]
  refine ⟨?_, ?_, ?_, stamped, ?_, ?_⟩
  · rw [pathToId, idToPath]
    exact forested.inverse
  · intro id
    rw [idToPath, live]
    exact forested.indexed id
  · rw [funext links]
    exact forested.linked.permute lists roots
  · intro id known
    rw [counter]
    exact forested.bounded id ((live id).mp known)
  · rw [counter]
    exact forested.ceiling

theorem installUpdate_resorted {existing updated : Entry} {above : EntryId} :
    (store.installUpdate id existing updated).inner.childrenOf above =
      (match existing.parentId with
        | some parentId =>
          if needsResort store.siblingOrder existing updated then
            store.inner.children.insert parentId (store.siblingOrder.sortSiblings
              (store.inner.entries.insert id updated) (store.inner.childrenOf parentId))
          else store.inner.children
        | none => store.inner.children)[above]?.getD [] :=
  StoreSnapshot.childrenOf_eq

theorem installUpdate_lists {existing updated : Entry} {above : EntryId} :
    (store.installUpdate id existing updated).inner.childrenOf above =
      if existing.parentId = some above ∧ needsResort store.siblingOrder existing updated = true then
        store.siblingOrder.sortSiblings (store.inner.entries.insert id updated) (store.inner.childrenOf above)
      else store.inner.childrenOf above := by
  rw [installUpdate_resorted]
  cases link : existing.parentId with
  | none => simp [StoreSnapshot.childrenOf_eq]
  | some parentId =>
    by_cases resort : needsResort store.siblingOrder existing updated = true
    · simp only [resort, if_true, lookup_insert, and_true, Option.some.injEq]
      split
      · rename_i same
        subst same
        rfl
      · exact StoreSnapshot.childrenOf_eq.symm
    · simp only [resort, and_false, if_false, Bool.false_eq_true]
      exact StoreSnapshot.childrenOf_eq.symm

theorem installUpdate_childrenOf {existing updated : Entry} {above : EntryId} :
    ((store.installUpdate id existing updated).inner.childrenOf above).Perm
      (store.inner.childrenOf above) := by
  rw [installUpdate_lists]
  split
  · exact SiblingOrder.sortSiblings_perm
  · exact .refl _

theorem update_forested (forested : store.Forested) (id : EntryId) (updated : Entry) :
    (store.update id updated).2.Forested := by
  unfold update
  split
  · exact forested
  · rename_i existing found
    split
    · exact forested
    · rename_i same
      split
      · exact forested
      · simp only [not_or, ne_eq, not_not] at same
        have lookup (other : EntryId) :
            (store.installUpdate id existing { updated with id := id }).inner.entries[other]? =
              if id = other then some { updated with id := id } else store.inner.entries[other]? :=
          lookup_insert
        refine forested.reorder rfl rfl rfl ?_ ?_ (fun above => installUpdate_childrenOf) (.refl _)
        · intro other
          simp only [StoreSnapshot.parentLink, lookup]
          split
          · rename_i here
            subst here
            simp [found, same.1]
          · rfl
        · intro other record known
          rw [lookup] at known
          split at known
          · rename_i here
            cases known
            exact here
          · exact forested.stamped other record known

theorem reorderRoots_forested (forested : store.Forested) (roots : List EntryId) :
    (store.reorderRoots roots).2.Forested := by
  unfold reorderRoots
  simp only
  split
  · exact forested
  · split
    · exact forested
    · rename_i length permuted
      split
      · exact forested
      · simp only [not_or, ne_eq, not_not] at permuted
        refine forested.reorder rfl rfl rfl (fun _ => rfl) forested.stamped (fun _ => .refl _) ?_
        have nodup : roots.Nodup := by
          rw [List.card_toFinset] at permuted
          rw [← (List.dedup_sublist roots).eq_of_length permuted.1]
          exact List.nodup_dedup roots
        exact (List.perm_ext_iff_of_nodup nodup forested.linked.roots_nodup).mpr
          (fun id => by simpa using congrArg (id ∈ ·) permuted.2)

theorem markDirectoriesChildrenLoaded_forested (forested : store.Forested) (ids : List EntryId) :
    (store.markDirectoriesChildrenLoaded ids).2.Forested := by
  unfold markDirectoriesChildrenLoaded
  split
  · exact forested
  · exact forested
  · exact forested.reorder rfl rfl rfl (fun _ => rfl) forested.stamped (fun _ => .refl _) (.refl _)

/-- A record up to its exclusion flag. -/
def unflagged (entry : Entry) : Entry :=
  { entry with isExcluded := false }

theorem reclassifyPath_lookup (classify : Path → Entry → Bool) (state : IdMap Entry × List EntryId)
    (binding : Path × EntryId) (id : EntryId) :
    (reclassifyPath classify state binding).1[id]?.map unflagged = state.1[id]?.map unflagged := by
  unfold reclassifyPath
  cases found : state.1[binding.2]? with
  | none => rfl
  | some existing =>
    dsimp only
    split
    · rfl
    · rw [lookup_insert]
      split
      · rename_i same
        subst same
        rw [found]
        rfl
      · rfl

theorem reclassify_lookup (store : EntryStore) (classify : Option (Path → Entry → Bool)) (id : EntryId) :
    (store.reclassify classify).1[id]?.map unflagged = store.inner.entries[id]?.map unflagged := by
  cases classify with
  | none => rfl
  | some classify =>
    have walk (bindings : List (Path × EntryId)) (state : IdMap Entry × List EntryId) :
        (bindings.foldl (reclassifyPath classify) state).1[id]?.map unflagged =
          state.1[id]?.map unflagged := by
      induction bindings generalizing state with
      | nil => rfl
      | cons binding rest ih =>
        rw [List.foldl_cons, ih, reclassifyPath_lookup]
    exact walk _ _

theorem installProjection_childrenOf {order : SiblingOrder} {visibility : VisibilityPolicy}
    {compactFolders : Bool} {fileNesting : FileNestingPolicy} {entries : IdMap Entry}
    {changed : List EntryId} {above : EntryId} :
    ((store.installProjection order visibility compactFolders fileNesting entries
      changed).inner.childrenOf above).Perm (store.inner.childrenOf above) := by
  rw [StoreSnapshot.childrenOf_eq, StoreSnapshot.childrenOf_eq]
  simp only [installProjection, publish_children, Std.ExtTreeMap.getElem?_map]
  cases store.inner.children[above]? with
  | none => exact .refl _
  | some siblings => exact SiblingOrder.sortSiblings_perm

theorem reconfigureProjectionInner_forested (forested : store.Forested) (order : SiblingOrder)
    (visibility : VisibilityPolicy) (compactFolders : Bool) (fileNesting : FileNestingPolicy)
    (classify : Option (Path → Entry → Bool)) :
    (store.reconfigureProjectionInner order visibility compactFolders fileNesting classify).2.Forested := by
  unfold reconfigureProjectionInner
  dsimp only
  split
  · exact forested
  · refine forested.reorder rfl rfl rfl ?_ ?_ (fun above => installProjection_childrenOf) (.refl _)
    · intro id
      have links := congrArg (Option.map (·.parentId)) (reclassify_lookup store classify id)
      rwa [Option.map_map, Option.map_map] at links
    · intro id entry known
      have ids := congrArg (Option.map (·.id)) (reclassify_lookup store classify id)
      rw [Option.map_map, Option.map_map] at ids
      obtain ⟨record, found, same⟩ := Option.map_eq_some_iff.mp
        (ids.symm.trans (congrArg (Option.map _) known))
      exact same.symm.trans (forested.stamped id record found)

end Records

section Extension

/-- Additions whose ids come from one stretch of the counter and whose paths
are neither indexed nor among `seen`. -/
structure Fresh (store : EntryStore) (seen : List Path) (low high : Nat)
    (additions : List Addition) : Prop where
  ids : (additions.map (·.id)).Nodup
  range : ∀ addition ∈ additions, low ≤ addition.id ∧ addition.id < high
  paths : (additions.map (·.path)).Nodup
  unseen : ∀ addition ∈ additions, addition.path ∉ seen
  unindexed : ∀ addition ∈ additions, store.pathToId[addition.path]? = none
  stamped : ∀ addition ∈ additions, addition.entry.id = addition.id
  hung : ∀ addition ∈ additions, ∀ parentId, addition.entry.parentId = some parentId →
    store.inner.entries[parentId]?.isSome = true

variable {seen : List Path} {low mid high : Nat} {addition : Addition} {additions : List Addition}

theorem Fresh.nil : store.Fresh seen low high [] :=
  ⟨List.nodup_nil, by simp, List.nodup_nil, by simp, by simp, by simp, by simp⟩

theorem Fresh.cons (addition : Addition) (unseen : addition.path ∉ seen)
    (unindexed : store.pathToId[addition.path]? = none)
    (stamped : addition.entry.id = addition.id)
    (hung : ∀ parentId, addition.entry.parentId = some parentId →
      store.inner.entries[parentId]?.isSome = true)
    (reach : addition.id + 1 ≤ high)
    (rest : store.Fresh (addition.path :: seen) (addition.id + 1) high additions) :
    store.Fresh seen addition.id high (addition :: additions) where
  ids := by
    rw [List.map_cons, List.nodup_cons]
    refine ⟨fun member => ?_, rest.ids⟩
    obtain ⟨other, present, same⟩ := List.mem_map.mp member
    exact absurd same (Nat.ne_of_gt (rest.range other present).1)
  range := by
    intro other present
    rcases List.mem_cons.mp present with rfl | later
    · exact ⟨le_refl _, reach⟩
    · exact ⟨(Nat.le_succ _).trans (rest.range other later).1, (rest.range other later).2⟩
  paths := by
    rw [List.map_cons, List.nodup_cons]
    refine ⟨fun member => ?_, rest.paths⟩
    obtain ⟨other, present, same⟩ := List.mem_map.mp member
    exact rest.unseen other present (by simp [same])
  unseen := by
    intro other present
    rcases List.mem_cons.mp present with rfl | later
    · exact unseen
    · exact fun member => rest.unseen other later (List.mem_cons_of_mem _ member)
  unindexed := List.forall_mem_cons.mpr ⟨unindexed, rest.unindexed⟩
  stamped := List.forall_mem_cons.mpr ⟨stamped, rest.stamped⟩
  hung := List.forall_mem_cons.mpr ⟨hung, rest.hung⟩

/-- Parent links of additions, as the forest sees them. -/
def links (additions : List Addition) : List (EntryId × Option EntryId) :=
  additions.map (fun addition => (addition.id, addition.entry.parentId))

theorem links_fst : (links additions).map Prod.fst = additions.map (·.id) := by
  rw [links, List.map_map]
  rfl

/-- Fresh additions, recorded, indexed and linked below live parents, extend
the forest. -/
theorem Forested.extend (forested : store.Forested) {after : EntryStore}
    {additions : List Addition} (fresh : store.Fresh seen store.idCounter after.idCounter additions)
    (later : store.idCounter ≤ after.idCounter) (ceiling : after.idCounter ≤ entryIdMax)
    (entries : after.inner.entries = insertAll store.inner.entries
      (additions.map (fun addition => (addition.id, addition.entry))))
    (pathToId : after.pathToId = (store.index additions).pathToId)
    (idToPath : after.idToPath = (store.index additions).idToPath)
    (lists : ∀ above, (after.inner.childrenOf above).Perm
      (Linked.graftsAt (links additions) (some above) ++ store.inner.childrenOf above))
    (roots : after.inner.roots.Perm (Linked.graftsAt (links additions) none ++ store.inner.roots)) :
    after.Forested := by
  have unknown (addition) (member : addition ∈ additions) :
      store.inner.entries[addition.id]? = none := by
    by_contra known
    have used := forested.bounded addition.id (Option.isSome_iff_ne_none.mpr known)
    exact absurd used (Nat.not_lt.mpr (fresh.range addition member).1)
  have ids : (additions.map (fun addition => (addition.id, addition.entry))).map Prod.fst =
      additions.map (·.id) := by
    rw [List.map_map]
    rfl
  have distinct : ((additions.map (fun addition => (addition.id, addition.entry))).map
      Prod.fst).Nodup := ids ▸ fresh.ids
  have pathIds : (additions.map (fun addition => (addition.id, addition.path))).map Prod.fst =
      additions.map (·.id) := by
    rw [List.map_map]
    rfl
  refine ⟨?_, ?_, ?_, ?_, ?_, ceiling⟩
  · rw [pathToId, idToPath]
    have installed := forested.inverse.install
      (additions.map (fun addition => (addition.path, addition.id)))
      (by rw [List.map_map]; exact fresh.paths) (by rw [List.map_map]; exact fresh.ids)
      (by
        intro path member
        simp only [List.map_map, List.mem_map, Function.comp_apply] at member
        obtain ⟨addition, present, rfl⟩ := member
        exact fresh.unindexed addition present)
      (by
        intro id member
        simp only [List.map_map, List.mem_map, Function.comp_apply] at member
        obtain ⟨addition, present, rfl⟩ := member
        by_contra known
        have live := (forested.indexed _).mp (Option.isSome_iff_ne_none.mpr known)
        simp [unknown addition present] at live)
    rwa [List.map_map] at installed
  · intro id
    rw [idToPath, entries, index, isSome_insertAll, isSome_insertAll, forested.indexed, ids, pathIds]
  · refine forested.linked.graft (links additions) (links_fst ▸ fresh.ids) ?_ ?_ ?_ ?_ lists roots
    · intro link member
      obtain ⟨addition, present, rfl⟩ := List.mem_map.mp member
      simp [StoreSnapshot.parentLink, unknown addition present]
    · intro link member above hung
      obtain ⟨addition, present, rfl⟩ := List.mem_map.mp member
      exact StoreSnapshot.parentLink_isSome.mpr (fresh.hung addition present above hung)
    · intro link member
      obtain ⟨addition, present, rfl⟩ := List.mem_map.mp member
      refine StoreSnapshot.parentLink_eq_some.mpr ⟨addition.entry, ?_, rfl⟩
      rw [entries]
      exact lookup_insertAll_of_mem distinct (List.mem_map.mpr ⟨addition, present, rfl⟩)
    · intro node absent
      rw [links_fst] at absent
      simp only [StoreSnapshot.parentLink, entries]
      rw [lookup_insertAll_of_not_mem (ids ▸ absent)]
  · intro id entry known
    rw [entries, lookup_insertAll distinct] at known
    rcases known with member | ⟨_, found⟩
    · obtain ⟨addition, present, same⟩ := List.mem_map.mp member
      cases same
      exact fresh.stamped addition present
    · exact forested.stamped id entry found
  · intro id known
    rw [entries, isSome_insertAll, ids] at known
    rcases known with member | live
    · obtain ⟨addition, present, rfl⟩ := List.mem_map.mp member
      exact (fresh.range addition present).2
    · exact (forested.bounded id live).trans_le later

theorem installInsert_placed {above : EntryId} :
    (store.installInsert path id entry).inner.childrenOf above =
      match entry.parentId with
      | none => store.inner.childrenOf above
      | some parentId => ((store.inner.addRecord store.visibility id entry).addChild
          store.siblingOrder parentId id).childrenOf above := by
  unfold installInsert
  cases entry.parentId <;> rfl

theorem installInsert_lists {above : EntryId} : (store.installInsert path id entry).inner.childrenOf above =
    if entry.parentId = some above then
      store.siblingOrder.insertSorted (store.inner.entries.insert id entry) id (store.inner.childrenOf above)
    else store.inner.childrenOf above := by
  rw [installInsert_placed]
  cases entry.parentId with
  | none => simp
  | some parentId =>
    simp only [StoreSnapshot.addChild_childrenOf, Option.some.injEq]
    split
    · rename_i same
      subst same
      rfl
    · rfl

theorem installInsert_childrenOf {above : EntryId} :
    ((store.installInsert path id entry).inner.childrenOf above).Perm
      (Linked.graftsAt (links [⟨path, id, entry⟩]) (some above) ++ store.inner.childrenOf above) := by
  rw [installInsert_lists]
  split
  · rename_i link
    simpa [links, Linked.graftsAt, link] using SiblingOrder.insertSorted_perm
  · rename_i elsewhere
    simp [links, Linked.graftsAt, elsewhere]

theorem installInsert_entries : (store.installInsert path id entry).inner.entries =
    store.inner.entries.insert id entry := by
  unfold installInsert
  cases entry.parentId <;> rfl

theorem installInsert_roots : (store.installInsert path id entry).inner.roots =
    store.inner.roots ++ Linked.graftsAt (links [⟨path, id, entry⟩]) none := by
  unfold installInsert
  cases link : entry.parentId <;> simp [links, Linked.graftsAt, link, index, StoreSnapshot.addRecord,
    StoreSnapshot.addChild]

theorem insert_forested (forested : store.Forested) (path : Path) (entry : Entry)
    (parent : ∀ parentId, entry.parentId = some parentId →
      store.inner.entries[parentId]?.isSome = true) :
    (store.insert path entry).2.Forested := by
  unfold insert
  split
  · exact forested
  · rename_i unindexed
    have counter := EntryId.allocFrom_counter forested.ceiling
    split
    · rename_i error after allocated
      rw [allocated] at counter
      exact forested.advance counter.1 counter.2
    · rename_i id after allocated
      obtain ⟨rfl, below, rfl⟩ := EntryId.allocFrom_ok allocated
      have fresh : store.Fresh [] store.idCounter (store.idCounter + 1)
          [⟨path, store.idCounter, { entry with id := store.idCounter }⟩] :=
        .cons ⟨path, store.idCounter, { entry with id := store.idCounter }⟩ List.not_mem_nil unindexed
          rfl parent (le_refl _) .nil
      refine forested.extend fresh (Nat.le_succ _) below ?_ rfl rfl
        (fun above => installInsert_childrenOf) ?_
      · exact installInsert_entries
      · exact (List.Perm.of_eq installInsert_roots).trans List.perm_append_comm

/-- A page resolves to fresh additions; on failure only the counter moves. -/
theorem resolveBatch_spec (store : EntryStore) (entries : List (Path × Entry)) (seen : List Path)
    {counter : Nat}
    (ceiling : counter ≤ entryIdMax) :
    counter ≤ (store.resolveBatch seen entries counter).2 ∧
      (store.resolveBatch seen entries counter).2 ≤ entryIdMax ∧
      ∀ additions, (store.resolveBatch seen entries counter).1 = .ok additions →
        store.Fresh seen counter (store.resolveBatch seen entries counter).2 additions := by
  induction entries generalizing seen counter with
  | nil =>
    refine ⟨le_refl _, ceiling, fun additions resolved => ?_⟩
    cases resolved
    exact .nil
  | cons head rest ih =>
    obtain ⟨path, entry⟩ := head
    rw [resolveBatch]
    split
    · exact ih seen ceiling
    · rename_i unindexed
      split
      · exact ⟨le_refl _, ceiling, fun _ failed => by cases failed⟩
      · rename_i unseen
        split
        · exact ⟨le_refl _, ceiling, fun _ failed => by cases failed⟩
        · rename_i parents
          have moved := EntryId.allocFrom_counter ceiling
          split
          · rename_i error after allocated
            rw [allocated] at moved
            exact ⟨moved.1, moved.2, fun _ failed => by cases failed⟩
          · rename_i id after allocated
            rw [allocated] at moved
            obtain ⟨rfl, below, rfl⟩ := EntryId.allocFrom_ok allocated
            obtain ⟨later, bound, fresh⟩ := ih (path :: seen) moved.2
            split
            · rename_i error high failed
              rw [failed] at later bound
              exact ⟨(Nat.le_succ _).trans later, bound, fun _ broken => by cases broken⟩
            · rename_i additions high resolved
              rw [resolved] at later bound fresh
              refine ⟨(Nat.le_succ _).trans later, bound, fun all same => ?_⟩
              cases same
              refine Fresh.cons ⟨path, id, { entry with id := id }⟩ unseen ?_ rfl ?_
                later (fresh additions rfl)
              · simpa using unindexed
              · intro parentId link
                replace link : entry.parentId = some parentId := link
                rw [Std.ExtTreeMap.isSome_getElem?_iff_mem]
                simpa [link] using parents

theorem incoming_eq {additions : List Addition} {parentId : EntryId} :
    incoming additions parentId = Linked.graftsAt (links additions) (some parentId) := by
  simp [incoming, Linked.graftsAt, links, List.filter_map, Function.comp_def]

theorem installBatch_lists {above : EntryId} : (store.installBatch additions).inner.childrenOf above =
    if above ∈ (additions.filterMap (·.entry.parentId)).dedup then
      store.siblingOrder.mergeSiblings (store.installBatch additions).inner.entries
        (store.inner.childrenOf above) (store.siblingOrder.sortSiblings
          (store.installBatch additions).inner.entries (incoming additions above))
    else store.inner.childrenOf above := by
  have reduced : (store.installBatch additions).inner.childrenOf above = (insertAll
      (store.inner.addRecords store.visibility additions).children
      ((additions.filterMap (·.entry.parentId)).dedup.map (fun parentId =>
        (parentId, store.siblingOrder.mergeSiblings
          (store.inner.addRecords store.visibility additions).entries
          ((store.inner.addRecords store.visibility additions).childrenOf parentId)
          (store.siblingOrder.sortSiblings
            (store.inner.addRecords store.visibility additions).entries
            (incoming additions parentId))))))[above]?.getD [] := StoreSnapshot.childrenOf_eq
  rw [reduced, lookup_insertAll_map]
  split
  · rw [StoreSnapshot.addRecords_childrenOf]
    rfl
  · rw [StoreSnapshot.addRecords_frame.1, ← StoreSnapshot.childrenOf_eq]

theorem installBatch_childrenOf {above : EntryId} :
    ((store.installBatch additions).inner.childrenOf above).Perm
      (Linked.graftsAt (links additions) (some above) ++ store.inner.childrenOf above) := by
  rw [installBatch_lists, ← incoming_eq]
  split
  · refine SiblingOrder.mergeSiblings_perm.trans (List.perm_append_comm.trans ?_)
    exact SiblingOrder.sortSiblings_perm.append (.refl _)
  · rename_i absent
    have none : incoming additions above = [] := by
      refine List.eq_nil_iff_forall_not_mem.mpr fun id member => absent ?_
      obtain ⟨addition, present, _⟩ := List.mem_map.mp member
      obtain ⟨listed, link⟩ := List.mem_filter.mp present
      exact List.mem_dedup.mpr (List.mem_filterMap.mpr ⟨addition, listed, by simpa using link⟩)
    rw [none]
    exact .refl _

theorem installBatch_roots : (store.installBatch additions).inner.roots =
    store.inner.roots ++ Linked.graftsAt (links additions) none := by
  have reduced : (store.installBatch additions).inner.roots =
      (store.inner.addRecords store.visibility additions).roots ++
        (additions.filter (·.entry.parentId.isNone)).map (·.id) := rfl
  rw [reduced, StoreSnapshot.addRecords_frame.2.1]
  simp only [Linked.graftsAt, links, List.filter_map, Function.comp_def, List.map_map]
  congr 3
  funext addition
  cases addition.entry.parentId <;> rfl

theorem insertBatch_forested (forested : store.Forested) (entries : List (Path × Entry)) :
    (store.insertBatch entries).2.Forested := by
  have resolved := resolveBatch_spec store entries [] forested.ceiling
  unfold insertBatch
  split
  · rename_i error counter failed
    rw [failed] at resolved
    exact forested.advance resolved.1 resolved.2.1
  · rename_i counter empty
    rw [empty] at resolved
    exact forested.advance resolved.1 resolved.2.1
  · rename_i additions counter _ found
    rw [found] at resolved
    refine forested.extend (resolved.2.2 additions rfl) resolved.1 resolved.2.1
      StoreSnapshot.addRecords_entries rfl rfl (fun above => installBatch_childrenOf) ?_
    exact (List.Perm.of_eq installBatch_roots).trans List.perm_append_comm

end Extension

end Mille.EntryStore
