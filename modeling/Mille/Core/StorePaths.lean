import Mille.Core.StoreRuns

/-! The path index against the tree: the indexed path of an entry is its
parent's path joined with its name, so following child lists finds the same
paths as scanning the index. -/

namespace Mille.EntryStore

open Maps Forest

/-- The path of every non-root entry is its parent's path joined with its name. -/
def Coherent (store : EntryStore) : Prop :=
  ∀ (id : EntryId) (entry : Entry) (parentId : EntryId), store.inner.entries[id]? = some entry →
    entry.parentId = some parentId → ∃ parentPath, store.idToPath[parentId]? = some parentPath ∧
      store.idToPath[id]? = some (parentPath.push (.utf8 entry.name))

/-- An entry that is inserted where its path says: below a live folder, at that
folder's path joined with the entry's name. -/
def PlacedBelow (store : EntryStore) (path : Path) (entry : Entry) : Prop :=
  ∀ parentId, entry.parentId = some parentId → ∃ parent parentPath,
    store.inner.entries[parentId]? = some parent ∧ parent.isFolder = true ∧
      store.idToPath[parentId]? = some parentPath ∧ path = parentPath.push (.utf8 entry.name)

/-- What callers promise about insertions. -/
def PathAdmissible (store : EntryStore) : Op → Prop
  | .insert path entry => store.PlacedBelow path entry
  | .insertBatch entries => ∀ binding ∈ entries, store.PlacedBelow binding.1 binding.2
  | _ => True

/-- A rename that passes its checks leads a directory nowhere below itself, and
any other entry has no known children. -/
def MovesWhole (store : EntryStore) : Op → Prop
  | .rename id newPath => ∀ entry oldPath plan, store.inner.entries[id]? = some entry →
      store.idToPath[id]? = some oldPath → oldPath ≠ newPath →
        store.planRename id entry oldPath newPath = .ok plan →
          if entry.kind = .directory then newPath.startsWith oldPath = false
          else store.inner.childrenOf id = []
  | _ => True

variable {store after : EntryStore} {op : Op} {id parentId : EntryId} {entry : Entry}
variable {path : Path}

theorem PlacedBelow.admissible (placed : store.PlacedBelow path entry) :
    store.Admissible (.insert path entry) := by
  intro parentId link
  obtain ⟨parent, _, found, _⟩ := placed parentId link
  simp [Live, found]

theorem PathAdmissible.admissible (admissible : store.PathAdmissible op) : store.Admissible op := by
  cases op with
  | insert path entry => exact PlacedBelow.admissible admissible
  | _ => trivial

theorem Coherent.restrict (coherent : store.Coherent) (forested : after.Forested)
    (records : ∀ (id : EntryId) (entry : Entry), after.inner.entries[id]? = some entry →
      ∃ old, store.inner.entries[id]? = some old ∧ old.parentId = entry.parentId ∧
        old.name = entry.name)
    (paths : ∀ (id : EntryId) (path : Path), after.idToPath[id]? = some path →
      store.idToPath[id]? = some path) : after.Coherent := by
  intro id entry parentId found link
  obtain ⟨old, known, parent, name⟩ := records id entry found
  obtain ⟨above, indexed⟩ := Option.isSome_iff_exists.mp
    ((forested.indexed parentId).mpr (forested.parent_live found link))
  obtain ⟨here, placed⟩ := Option.isSome_iff_exists.mp
    ((forested.indexed id).mpr (by simp [found]))
  obtain ⟨parentPath, upper, lower⟩ := coherent id old parentId known (parent.trans link)
  have sameParent := Option.some.inj ((paths parentId above indexed).symm.trans upper)
  have same := Option.some.inj ((paths id here placed).symm.trans lower)
  refine ⟨above, indexed, ?_⟩
  rw [placed, same, sameParent, name]

/-- Fresh additions at the paths their live parents give them. -/
theorem Coherent.extend (coherent : store.Coherent) (forested : store.Forested)
    {additions : List Addition} {seen : List Path} {high : Nat}
    (fresh : store.Fresh seen store.idCounter high additions)
    (entries : after.inner.entries = insertAll store.inner.entries
      (additions.map (fun addition => (addition.id, addition.entry))))
    (idToPath : after.idToPath = (store.index additions).idToPath)
    (placed : ∀ addition ∈ additions, store.PlacedBelow addition.path addition.entry) :
    after.Coherent := by
  have ids : (additions.map (fun addition => (addition.id, addition.entry))).map Prod.fst =
      additions.map (·.id) := by
    rw [List.map_map]
    rfl
  have pathIds : (additions.map (fun addition => (addition.id, addition.path))).map Prod.fst =
      additions.map (·.id) := by
    rw [List.map_map]
    rfl
  have kept (id : EntryId) (live : store.inner.entries[id]?.isSome = true) :
      after.idToPath[id]? = store.idToPath[id]? := by
    rw [idToPath, index, lookup_insertAll_of_not_mem]
    rw [pathIds]
    intro member
    obtain ⟨addition, present, rfl⟩ := List.mem_map.mp member
    exact absurd (forested.bounded _ live) (Nat.not_lt.mpr (fresh.range addition present).1)
  intro id entry parentId found link
  rw [entries, lookup_insertAll (ids ▸ fresh.ids)] at found
  rcases found with member | ⟨_, known⟩
  · obtain ⟨addition, present, same⟩ := List.mem_map.mp member
    cases same
    obtain ⟨parent, parentPath, live, _, indexed, joined⟩ := placed addition present parentId link
    refine ⟨parentPath, ?_, ?_⟩
    · rw [kept parentId (by simp [live]), indexed]
    · rw [idToPath, index, ← joined]
      exact lookup_insertAll_of_mem (pathIds ▸ fresh.ids) (List.mem_map.mpr ⟨addition, present, rfl⟩)
  · obtain ⟨parentPath, above, here⟩ := coherent id entry parentId known link
    refine ⟨parentPath, ?_, ?_⟩
    · rw [kept parentId (forested.parent_live known link), above]
    · rw [kept id (by simp [known]), here]

theorem insert_coherent (forested : store.Forested) (coherent : store.Coherent)
    (placed : store.PlacedBelow path entry) : (store.insert path entry).2.Coherent := by
  unfold insert
  split
  · exact coherent
  · rename_i unindexed
    split
    · exact coherent
    · rename_i id counter allocated
      obtain ⟨rfl, below, rfl⟩ := EntryId.allocFrom_ok allocated
      have fresh : store.Fresh [] store.idCounter (store.idCounter + 1)
          [⟨path, store.idCounter, { entry with id := store.idCounter }⟩] :=
        .cons ⟨path, store.idCounter, { entry with id := store.idCounter }⟩ List.not_mem_nil unindexed
          rfl placed.admissible (le_refl _) .nil
      refine coherent.extend forested fresh installInsert_entries rfl ?_
      intro addition member
      rw [List.mem_singleton.mp member]
      exact placed

/-- Every addition of a page is one of its entries under a new id. -/
theorem resolveBatch_source {entries : List (Path × Entry)} {seen : List Path} {counter : Nat}
    {additions : List Addition}
    (resolved : (store.resolveBatch seen entries counter).1 = .ok additions) :
    ∀ addition ∈ additions, ∃ binding ∈ entries,
      addition.path = binding.1 ∧ addition.entry = { binding.2 with id := addition.id } := by
  induction entries generalizing seen counter additions with
  | nil =>
    cases resolved
    simp
  | cons head rest ih =>
    obtain ⟨path, entry⟩ := head
    have later (others : List Addition) (counter' : Nat) (seen' : List Path)
        (ok : (store.resolveBatch seen' rest counter').1 = .ok others) :
        ∀ addition ∈ others, ∃ binding ∈ (path, entry) :: rest,
          addition.path = binding.1 ∧ addition.entry = { binding.2 with id := addition.id } := by
      intro addition member
      obtain ⟨binding, present, same⟩ := ih ok addition member
      exact ⟨binding, List.mem_cons_of_mem _ present, same⟩
    rw [resolveBatch] at resolved
    split at resolved
    · exact later _ _ _ resolved
    · split at resolved
      · cases resolved
      · split at resolved
        · cases resolved
        · split at resolved
          · cases resolved
          · split at resolved
            · cases resolved
            · rename_i found
              cases resolved
              intro addition member
              rcases List.mem_cons.mp member with rfl | tail
              · exact ⟨(path, entry), by simp, rfl, rfl⟩
              · exact later _ _ _ (by rw [found]) addition tail

theorem insertBatch_coherent (forested : store.Forested) (coherent : store.Coherent)
    {entries : List (Path × Entry)}
    (placed : ∀ binding ∈ entries, store.PlacedBelow binding.1 binding.2) :
    (store.insertBatch entries).2.Coherent := by
  have resolved := resolveBatch_spec store entries [] forested.ceiling
  unfold insertBatch
  split
  · exact coherent
  · exact coherent
  · rename_i additions counter _ found
    have source := resolveBatch_source (congrArg Prod.fst found)
    rw [found] at resolved
    refine coherent.extend forested (resolved.2.2 additions rfl) StoreSnapshot.addRecords_entries rfl ?_
    intro addition member
    obtain ⟨binding, present, path, entry⟩ := source addition member
    intro parentId link
    rw [path, entry]
    rw [entry] at link
    exact placed binding present parentId link

theorem update_coherent (forested : store.Forested) (coherent : store.Coherent) (id : EntryId)
    (updated : Entry) : (store.update id updated).2.Coherent := by
  have kept := update_forested forested id updated
  revert kept
  unfold update
  split
  · exact fun _ => coherent
  · rename_i existing found
    split
    · exact fun _ => coherent
    · rename_i same
      split
      · exact fun _ => coherent
      · intro kept
        simp only [not_or, ne_eq, not_not] at same
        refine coherent.restrict kept ?_ (fun _ _ known => known)
        intro other record known
        have lookup : (store.installUpdate id existing
            { updated with id := id }).inner.entries[other]? = _ := lookup_insert
        dsimp only at known
        rw [lookup] at known
        split at known
        · rename_i here
          cases known
          exact ⟨existing, here ▸ found, same.1.symm, same.2.symm⟩
        · exact ⟨record, known, rfl, rfl⟩

theorem removeSubtree_coherent (forested : store.Forested) (coherent : store.Coherent)
    (id : EntryId) : (store.removeSubtree id).2.Coherent := by
  have kept := removeSubtree_forested forested id
  revert kept
  unfold removeSubtree
  split
  · exact fun _ => coherent
  · rename_i entry found
    intro kept
    obtain ⟨entries, _, _, idToPath, _⟩ :=
      installRemoval_inner store id entry (store.inner.subtree [id])
    refine coherent.restrict kept ?_ ?_
    · intro other record known
      dsimp only at known
      rw [entries, StoreSnapshot.evict_entries] at known
      split at known
      · cases known
      · exact ⟨record, known, rfl, rfl⟩
    · intro other path known
      dsimp only at known
      rw [idToPath, (unindexScan_spec forested.inverse _).2] at known
      split at known
      · cases known
      · exact known

theorem markRootUnavailable_coherent (forested : store.Forested) (coherent : store.Coherent)
    (rootId : EntryId) : (store.markRootUnavailable rootId).2.Coherent := by
  have kept := markRootUnavailable_forested forested rootId
  revert kept
  unfold markRootUnavailable
  dsimp only
  split
  · exact fun _ => coherent
  · rename_i root found
    split
    · exact fun _ => coherent
    · split
      · exact fun _ => coherent
      · intro kept
        refine coherent.restrict kept ?_ ?_
        · intro other record known
          rw [installUnavailable_lookup, StoreSnapshot.evict_entries] at known
          split at known
          · rename_i here
            cases known
            exact ⟨root, here ▸ found, rfl, rfl⟩
          · split at known
            · cases known
            · exact ⟨record, known, rfl, rfl⟩
        · intro other path known
          rw [installUnavailable_idToPath forested] at known
          split at known
          · cases known
          · exact known

theorem replaceRoots_coherent (forested : store.Forested) (coherent : store.Coherent)
    (roots : List (Path × Entry)) : (store.replaceRoots roots).2.Coherent := by
  unfold replaceRoots
  dsimp only
  split
  · exact coherent
  · rename_i checked
    obtain ⟨nodup, unseen⟩ := checkRoots_nodup checked
    have resolved := resolveRoots_spec forested forested.ceiling (le_refl _) nodup unseen
    split
    · exact coherent
    · split
      · exact coherent
      · rename_i orderedIds additions counter found
        rw [found] at resolved
        obtain ⟨fresh, added, _, _⟩ := resolved.2.2 orderedIds additions rfl
        split
        · exact coherent
        · have pruned := withoutRoots_forested forested
            (store.inner.roots.filter (· ∉ orderedIds))
            (fun top member => (List.mem_filter.mp member).1)
          set gone := (store.inner.roots.filter (· ∉ orderedIds)).flatMap
            (fun top => store.inner.subtree [top])
          have remaining : (store.withoutRoots gone).Coherent := by
            refine coherent.restrict pruned ?_ ?_
            · intro id record known
              rw [withoutRoots_entries] at known
              split at known
              · cases known
              · exact ⟨record, known, rfl, rfl⟩
            · intro id path known
              rw [withoutRoots_idToPath forested] at known
              split at known
              · cases known
              · exact known
          obtain ⟨entries, _, _, _, idToPath, _⟩ :=
            installRoots_inner { store with idCounter := counter } orderedIds gone additions
          obtain ⟨inner, _, ids⟩ := withoutRoots_advance store counter gone
          rw [inner] at entries
          refine remaining.extend pruned (fresh.withoutRoots forested pruned added) entries
            (idToPath.trans (congrArg (fun ids => insertAll ids _) ids)) ?_
          · intro addition member parentId link
            rw [(added addition member).1] at link
            cases link

theorem reconfigureProjectionInner_coherent (forested : store.Forested) (coherent : store.Coherent)
    (order : SiblingOrder) (visibility : VisibilityPolicy) (compactFolders : Bool)
    (fileNesting : FileNestingPolicy) (classify : Option (Path → Entry → Bool)) :
    (store.reconfigureProjectionInner order visibility compactFolders fileNesting
      classify).2.Coherent := by
  have kept := reconfigureProjectionInner_forested forested order visibility compactFolders
    fileNesting classify
  revert kept
  unfold reconfigureProjectionInner
  dsimp only
  split
  · exact fun _ => coherent
  · intro kept
    refine coherent.restrict kept ?_ (fun _ _ known => known)
    intro id record known
    have same := reclassify_lookup store classify id
    have found : (store.reclassify classify).1[id]? = some record := known
    rw [found] at same
    obtain ⟨old, present, equal⟩ := Option.map_eq_some_iff.mp same.symm
    exact ⟨old, present, congrArg (·.parentId) equal, congrArg (·.name) equal⟩

section Rename

variable {oldPath newPath : Path} {newParentId : Option EntryId} {newName : String}

theorem Forested.moveIndex_under (forested : store.Forested)
    (indexed : store.idToPath[id]? = some oldPath) (directory : entry.kind = .directory)
    (newPath rest : Path) {other : EntryId} (known : store.idToPath[other]? = some (oldPath ++ rest)) :
    (store.moveIndex (store.pathUpdates id entry oldPath newPath)).idToPath[other]? =
      some (newPath ++ rest) := by
  rw [forested.moveIndex_lookup indexed, pathUpdates_directory directory]
  refine .inl ⟨⟨oldPath ++ rest, other, newPath ++ rest⟩, List.mem_map.mpr ?_, rfl, rfl⟩
  refine ⟨(oldPath ++ rest, other), List.mem_filter.mpr ⟨?_, by simp⟩, by simp⟩
  exact Std.ExtTreeMap.mem_toList_iff_getElem?_eq_some.mpr ((forested.inverse _ _).mpr known)

theorem Forested.moveIndex_outside (forested : store.Forested)
    (indexed : store.idToPath[id]? = some oldPath) (directory : entry.kind = .directory)
    {other : EntryId} (known : store.idToPath[other]? = some path)
    (outside : path.startsWith oldPath = false) :
    (store.moveIndex (store.pathUpdates id entry oldPath newPath)).idToPath[other]? = some path := by
  rw [forested.moveIndex_lookup indexed, pathUpdates_directory directory]
  refine .inr ⟨fun moved => ?_, known⟩
  simp only [List.map_map, List.mem_map, List.mem_filter, Function.comp_apply] at moved
  obtain ⟨binding, ⟨listed, under⟩, rfl⟩ := moved
  have back := (forested.inverse _ _).mp (Std.ExtTreeMap.mem_toList_iff_getElem?_eq_some.mp listed)
  rw [Option.some.inj (back.symm.trans known), outside] at under
  cases under

theorem Forested.moveIndex_single (forested : store.Forested)
    (indexed : store.idToPath[id]? = some oldPath) (single : entry.kind ≠ .directory)
    {other : EntryId} : (store.moveIndex (store.pathUpdates id entry oldPath newPath)).idToPath[other]? =
      if other = id then some newPath else store.idToPath[other]? := by
  ext path
  rw [forested.moveIndex_lookup indexed, pathUpdates, if_neg single]
  by_cases same : other = id
  · subst same
    simp
  · simp [same, Ne.symm same]

/-- The destination of a planned rename: the new parent's current path joined
with the new name, with the new parent not the entry itself. -/
theorem RenamePlan.destination {updates : List PathUpdate}
    (plan : store.RenamePlan id entry oldPath newPath (some parentId) updates newName)
    (forested : store.Forested) (coherent : store.Coherent)
    (found : store.inner.entries[id]? = some entry) (indexed : store.idToPath[id]? = some oldPath) :
    parentId ≠ id ∧ ∃ parentPath, store.idToPath[parentId]? = some parentPath ∧
      newPath = parentPath.push (.utf8 newName) := by
  have link : store.inner.parentLink id = some entry.parentId :=
    StoreSnapshot.parentLink_eq_some.mpr ⟨entry, found, rfl⟩
  constructor
  · by_cases changed : entry.parentId = some parentId
    · rintro rfl
      rw [changed] at link
      exact (forested.linked.rooted _ (by simp [link])).no_cycle link .self
    · rintro rfl
      exact checkReparent_ok (plan.outside changed) .self
  · obtain ⟨newParentPath, above, ⟨same, parent⟩ | ⟨_, _, parent, target, stamped⟩⟩ := plan.parent
    · obtain ⟨parentPath, upper, lower⟩ := coherent id entry parentId found parent.symm
      have joined := Option.some.inj (indexed.symm.trans lower)
      rw [joined, Path.parent_push] at same
      exact ⟨parentPath, upper, Path.eq_push (above.trans same.symm) plan.name⟩
    · obtain ⟨holder, known, record⟩ := Option.bind_eq_some_iff.mp target
      have same : parentId = holder := (Option.some.inj stamped).trans (forested.stamped holder parent record)
      exact ⟨newParentPath, same ▸ (forested.inverse _ _).mp known, Path.eq_push above plan.name⟩

theorem installRename_coherent (forested : store.Forested) (coherent : store.Coherent)
    (found : store.inner.entries[id]? = some entry) (indexed : store.idToPath[id]? = some oldPath)
    (plan : store.RenamePlan id entry oldPath newPath newParentId
      (store.pathUpdates id entry oldPath newPath) newName)
    (whole : if entry.kind = .directory then newPath.startsWith oldPath = false
      else store.inner.childrenOf id = []) :
    (store.installRename id entry newParentId (store.pathUpdates id entry oldPath newPath)
      newName).Coherent := by
  intro other record parentId known link
  show ∃ parentPath, (store.moveIndex _).idToPath[parentId]? = some parentPath ∧
    (store.moveIndex _).idToPath[other]? = some (parentPath.push (.utf8 record.name))
  rw [installRename_lookup] at known
  by_cases same : id = other
  · subst same
    rw [if_pos rfl] at known
    cases known
    change newParentId = some parentId at link
    subst link
    obtain ⟨distinct, parentPath, upper, joined⟩ := plan.destination forested coherent found indexed
    refine ⟨parentPath, ?_, ?_⟩
    · by_cases directory : entry.kind = .directory
      · rw [if_pos directory] at whole
        refine forested.moveIndex_outside indexed directory upper ?_
        rw [joined] at whole
        exact Bool.eq_false_iff.mpr fun under =>
          Bool.eq_false_iff.mp whole (Path.push_startsWith_iff.mpr (.inr under))
      · rw [forested.moveIndex_single indexed directory, if_neg distinct, upper]
    · rw [← joined]
      by_cases directory : entry.kind = .directory
      · simpa using forested.moveIndex_under indexed directory newPath [] (by simpa using indexed)
      · rw [forested.moveIndex_single indexed directory, if_pos rfl]
  · rw [if_neg same] at known
    obtain ⟨parentPath, upper, lower⟩ := coherent other record parentId known link
    by_cases directory : entry.kind = .directory
    · by_cases under : parentPath.startsWith oldPath = true
      · obtain ⟨rest, rfl⟩ := Path.startsWith_exists.mp under
        refine ⟨newPath ++ rest, forested.moveIndex_under indexed directory newPath rest upper, ?_⟩
        rw [Path.push, List.append_assoc] at lower ⊢
        exact forested.moveIndex_under indexed directory newPath _ lower
      · refine ⟨parentPath, forested.moveIndex_outside indexed directory upper (by simpa using under), ?_⟩
        refine forested.moveIndex_outside indexed directory lower (Bool.eq_false_iff.mpr fun inside => ?_)
        rcases Path.push_startsWith_iff.mp inside with here | above
        · -- Only the renamed entry itself has the old path.
          have first := (forested.inverse _ _).mpr indexed
          have second := (forested.inverse _ _).mpr lower
          rw [← here] at second
          exact same (Option.some.inj (first.symm.trans second))
        · exact under above
    · rw [if_neg directory] at whole
      have distinct : parentId ≠ id := by
        rintro rfl
        have listed := (forested.linked.child_iff other parentId).mpr
          (StoreSnapshot.parentLink_eq_some.mpr ⟨record, known, link⟩)
        simp [whole] at listed
      refine ⟨parentPath, ?_, ?_⟩
      · rw [forested.moveIndex_single indexed directory, if_neg distinct, upper]
      · rw [forested.moveIndex_single indexed directory, if_neg (Ne.symm same), lower]

theorem rename_coherent (forested : store.Forested) (coherent : store.Coherent) (id : EntryId)
    (newPath : Path) (whole : store.MovesWhole (.rename id newPath)) :
    (store.rename id newPath).2.Coherent := by
  unfold rename
  split
  · exact coherent
  · rename_i entry found
    split
    · exact coherent
    · rename_i oldPath indexed
      split
      · exact coherent
      · rename_i moved
        split
        · exact coherent
        · rename_i newParentId updates newName planned
          have plan := planRename_ok planned
          have moves := plan.moves
          subst moves
          exact installRename_coherent forested coherent found indexed plan
            (whole entry oldPath _ found indexed moved planned)

end Rename

theorem reorderRoots_coherent (coherent : store.Coherent) (roots : List EntryId) :
    (store.reorderRoots roots).2.Coherent := by
  unfold reorderRoots
  dsimp only
  split
  · exact coherent
  · split
    · exact coherent
    · split <;> exact coherent

theorem markDirectoriesChildrenLoaded_coherent (coherent : store.Coherent) (ids : List EntryId) :
    (store.markDirectoriesChildrenLoaded ids).2.Coherent := by
  unfold markDirectoriesChildrenLoaded
  split <;> exact coherent

theorem apply_coherent (forested : store.Forested) (coherent : store.Coherent)
    (admissible : store.PathAdmissible op) (whole : store.MovesWhole op) :
    (store.apply op).Coherent := by
  cases op with
  | insert path entry => exact insert_coherent forested coherent admissible
  | insertBatch entries => exact insertBatch_coherent forested coherent admissible
  | update id updated => exact update_coherent forested coherent id updated
  | rename id newPath => exact rename_coherent forested coherent id newPath whole
  | removeSubtree id => exact removeSubtree_coherent forested coherent id
  | replaceRoots roots => exact replaceRoots_coherent forested coherent roots
  | reorderRoots roots => exact reorderRoots_coherent coherent roots
  | markRootUnavailable rootId => exact markRootUnavailable_coherent forested coherent rootId
  | markDirectoriesChildrenLoaded ids => exact markDirectoriesChildrenLoaded_coherent coherent ids
  | reconfigureProjection => exact reconfigureProjectionInner_coherent forested coherent _ _ _ _ _
  | reconfigureProjectionWithExclusions =>
    exact reconfigureProjectionInner_coherent forested coherent _ _ _ _ _

/-- Workspace roots none of which lies at or below another. -/
def DisjointRoots (store : EntryStore) : Prop :=
  ∀ left ∈ store.inner.roots, ∀ right ∈ store.inner.roots, ∀ leftPath rightPath : Path,
    store.idToPath[left]? = some leftPath → store.idToPath[right]? = some rightPath →
      leftPath.startsWith rightPath = true → left = right

theorem Coherent.startsWith (coherent : store.Coherent) {top low : EntryId} {topPath lowPath : Path}
    (descends : Below store.inner.parentLink top low) (upper : store.idToPath[top]? = some topPath)
    (lower : store.idToPath[low]? = some lowPath) : lowPath.startsWith topPath = true := by
  induction descends generalizing lowPath with
  | self =>
    rw [Option.some.inj (lower.symm.trans upper)]
    exact Path.startsWith_self topPath
  | child link _ ih =>
    obtain ⟨entry, found, parent⟩ := StoreSnapshot.parentLink_eq_some.mp link
    obtain ⟨parentPath, above, here⟩ := coherent _ entry _ found parent
    rw [Option.some.inj (lower.symm.trans here)]
    exact Path.push_startsWith_iff.mpr (.inr (ih above))

theorem Forested.exists_root (forested : store.Forested) (id : EntryId)
    (live : store.inner.entries[id]?.isSome = true) :
    ∃ root ∈ store.inner.roots, Below store.inner.parentLink root id := by
  have rooted := forested.linked.rooted id (StoreSnapshot.parentLink_isSome.mpr live)
  clear live
  induction rooted with
  | root link => exact ⟨_, (forested.linked.root_iff _).mpr link, .self⟩
  | child link _ ih =>
    obtain ⟨root, member, path⟩ := ih
    exact ⟨root, member, .child link path⟩

/-- With disjoint roots, the paths below an indexed path are its descendants'. -/
theorem Coherent.below_iff (coherent : store.Coherent) (forested : store.Forested)
    (disjoint : store.DisjointRoots) {top low : EntryId} {topPath lowPath : Path}
    (upper : store.idToPath[top]? = some topPath) (lower : store.idToPath[low]? = some lowPath) :
    Below store.inner.parentLink top low ↔ lowPath.startsWith topPath = true := by
  refine ⟨fun descends => coherent.startsWith descends upper lower, fun under => ?_⟩
  have live := (forested.indexed low).mp (by simp [lower])
  have rooted := forested.linked.rooted low (StoreSnapshot.parentLink_isSome.mpr live)
  clear live
  induction rooted generalizing lowPath with
  | @root low link =>
    -- The root above `top` contains this one, so it is this one.
    obtain ⟨root, member, path⟩ := forested.exists_root top
      ((forested.indexed top).mp (by simp [upper]))
    have rootLive : store.inner.entries[root]?.isSome = true :=
      StoreSnapshot.parentLink_isSome.mp (by simp [(forested.linked.root_iff root).mp member])
    obtain ⟨rootPath, indexed⟩ := Option.isSome_iff_exists.mp ((forested.indexed root).mpr rootLive)
    have between := coherent.startsWith path indexed upper
    have same := disjoint low ((forested.linked.root_iff low).mpr link) root member lowPath rootPath
      lower indexed (Path.startsWith_trans under between)
    subst same
    have paths := Option.some.inj (lower.symm.trans indexed)
    subst paths
    have equal := List.IsPrefix.eq_of_length_le (Path.startsWith_iff.mp under)
      (Path.startsWith_iff.mp between).length_le
    have holders := (forested.inverse _ _).mpr upper
    rw [equal] at holders
    have holder := (forested.inverse _ _).mpr lower
    rw [Option.some.inj (holders.symm.trans holder)]
    exact .self
  | @child low above link _ ih =>
    obtain ⟨entry, found, parent⟩ := StoreSnapshot.parentLink_eq_some.mp link
    obtain ⟨parentPath, indexed, here⟩ := coherent low entry above found parent
    have joined := Option.some.inj (lower.symm.trans here)
    rw [joined] at under
    rcases Path.push_startsWith_iff.mp under with same | higher
    · have holders := (forested.inverse _ _).mpr upper
      rw [same] at holders
      have holder := (forested.inverse _ _).mpr here
      rw [Option.some.inj (holders.symm.trans holder)]
      exact .self
    · exact .child link (ih indexed higher)

theorem Coherent.mem_pathsUnder (coherent : store.Coherent) (forested : store.Forested)
    (disjoint : store.DisjointRoots) (root : Path) :
    (store.pathsUnder root).Nodup ∧ ∀ path id, (path, id) ∈ store.pathsUnder root ↔
      store.pathToId[path]? = some id ∧ path.startsWith root = true := by
  unfold pathsUnder
  split
  · refine ⟨List.Nodup.filter _ (List.Nodup.of_map Prod.fst ?_), fun path id => ?_⟩
    · rw [Std.ExtTreeMap.map_fst_toList_eq_keys]
      exact Std.ExtTreeMap.nodup_keys
    · rw [List.mem_filter, Std.ExtTreeMap.mem_toList_iff_getElem?_eq_some]
  · rename_i rootId known
    have upper := (forested.inverse _ _).mp known
    have live := (forested.indexed rootId).mp (by simp [upper])
    refine ⟨(forested.subtree_nodup live).filterMap ?_, fun path id => ?_⟩
    · intro left right pair first second
      obtain ⟨_, _, same⟩ := Option.map_eq_some_iff.mp first
      obtain ⟨_, _, again⟩ := Option.map_eq_some_iff.mp second
      exact (congrArg Prod.snd (same.trans again.symm))
    · rw [List.mem_filterMap, forested.inverse path id]
      constructor
      · rintro ⟨low, member, found⟩
        obtain ⟨lowPath, lower, same⟩ := Option.map_eq_some_iff.mp found
        cases same
        exact ⟨lower, (coherent.below_iff forested disjoint upper lower).mp
          ((forested.mem_subtree live).mp member)⟩
      · rintro ⟨lower, under⟩
        refine ⟨id, (forested.mem_subtree live).mpr
          ((coherent.below_iff forested disjoint upper lower).mpr under), ?_⟩
        rw [lower]
        rfl

theorem Reaches.coherent
    (run : Reaches (fun store op => store.PathAdmissible op ∧ store.MovesWhole op) new store) :
    store.Forested ∧ store.Coherent := by
  have initial : new.Coherent := by
    intro id entry parentId found
    simp [new, withProjectionSettings, StoreSnapshot.emptyWithProjection] at found
  refine run.invariant (fun store => store.Forested ∧ store.Coherent) ⟨new_forested, initial⟩ ?_
  rintro store op ⟨forested, coherent⟩ ⟨admissible, whole⟩
  exact ⟨apply_forested forested admissible.admissible,
    apply_coherent forested coherent admissible whole⟩

/-- In every run whose renames move the complete known subtree, paths follow the
tree, and `paths_under` answers like the scan of the whole index. -/
theorem run_keeps_paths
    (run : Reaches (fun store op => store.PathAdmissible op ∧ store.MovesWhole op) new store) :
    store.Coherent ∧ (store.DisjointRoots → ∀ root, (store.pathsUnder root).Nodup ∧
      ∀ path id, (path, id) ∈ store.pathsUnder root ↔
        store.pathToId[path]? = some id ∧ path.startsWith root = true) := by
  obtain ⟨forested, coherent⟩ := run.coherent
  exact ⟨coherent, fun disjoint root => coherent.mem_pathsUnder forested disjoint root⟩

theorem PlacedBelow.root (top : entry.parentId = none) : store.PlacedBelow path entry := by
  intro parentId link
  simp [top] at link

theorem PlacedBelow.child (parentPath : Path) (link : entry.parentId = some parentId)
    (folder : store.inner.entries[parentId]?.any (·.isFolder) = true)
    (indexed : store.idToPath[parentId]? = some parentPath)
    (joined : path = parentPath.push (.utf8 entry.name)) : store.PlacedBelow path entry := by
  intro other same
  cases link.symm.trans same
  cases found : store.inner.entries[parentId]? with
  | none => simp [found] at folder
  | some parent => exact ⟨parent, parentPath, rfl, by simpa [found] using folder, indexed, joined⟩

/-- A file or folder record as a walk would report it. -/
def sampleEntry (parentId : Option EntryId) (name : String) (kind : EntryKind)
    (symlinkTargetIsDir : Option Bool) : Entry :=
  ⟨0, parentId, name, kind, 0, 0, 0, symlinkTargetIsDir, none, false, false, false, false⟩

/-- A root `r`, a folder `d` of the given kind in it, and a file `f` in that. -/
def sampleStore (kind : EntryKind) (symlinkTargetIsDir : Option Bool) : EntryStore :=
  ((new.apply (.insert (Path.ofNames ["r"]) (sampleEntry none "r" .directory none))).apply
    (.insert (Path.ofNames ["r", "d"]) (sampleEntry (some 0) "d" kind symlinkTargetIsDir))).apply
    (.insert (Path.ofNames ["r", "d", "f"]) (sampleEntry (some 1) "f" .file none))

theorem sampleStore_reached : Reaches (fun store op => store.PathAdmissible op ∧ store.MovesWhole op) new
    (sampleStore .directory none) := by
  refine ((Reaches.start.step _ ⟨PlacedBelow.root rfl, trivial⟩).step _
    ⟨PlacedBelow.child (Path.ofNames ["r"]) rfl ?_ ?_ ?_, trivial⟩).step _
    ⟨PlacedBelow.child (Path.ofNames ["r", "d"]) rfl ?_ ?_ ?_, trivial⟩
  all_goals decide

theorem run_keeps_paths_renamed_directory :
    ((sampleStore .directory none).apply (.rename 1 (Path.ofNames ["r", "e"]))).Coherent := by
  refine (run_keeps_paths (sampleStore_reached.step (.rename 1 (Path.ofNames ["r", "e"])) ⟨trivial, ?_⟩)).1
  intro entry oldPath plan found indexed _ _
  have kind : (sampleStore .directory none).inner.entries[1]?.map (·.kind) = some .directory := by
    decide
  have path : (sampleStore .directory none).idToPath[1]? = some (Path.ofNames ["r", "d"]) := by
    decide
  have record : (sampleStore .directory none).inner.entries[1]? = some entry := found
  rw [record] at kind
  cases path.symm.trans indexed
  rw [if_pos (Option.some.inj kind)]
  decide

/-- A renamed symlink to a directory leaves its known children at the old path. -/
theorem renamed_directory_symlink_strands_children :
    ∃ store, Reaches PathAdmissible new store ∧ ¬ store.Coherent := by
  refine ⟨(sampleStore .symlink (some true)).apply (.rename 1 (Path.ofNames ["r", "e"])), ?_, ?_⟩
  · refine (((Reaches.start.step _ (PlacedBelow.root rfl)).step _
      (PlacedBelow.child (Path.ofNames ["r"]) rfl ?_ ?_ ?_)).step _
      (PlacedBelow.child (Path.ofNames ["r", "d"]) rfl ?_ ?_ ?_)).step _ trivial
    all_goals decide
  · intro coherent
    obtain ⟨entry, found⟩ : ∃ entry, ((sampleStore .symlink (some true)).apply
        (.rename 1 (Path.ofNames ["r", "e"]))).inner.entries[2]? = some entry :=
      Option.isSome_iff_exists.mp (by decide)
    have parent : ((sampleStore .symlink (some true)).apply
        (.rename 1 (Path.ofNames ["r", "e"]))).inner.entries[2]?.map (·.parentId) = some (some 1) := by
      decide
    rw [found] at parent
    obtain ⟨parentPath, upper, lower⟩ := coherent 2 entry 1 found (Option.some.inj parent)
    have above : ((sampleStore .symlink (some true)).apply
        (.rename 1 (Path.ofNames ["r", "e"]))).idToPath[1]? = some (Path.ofNames ["r", "e"]) := by
      decide
    have here : ((sampleStore .symlink (some true)).apply
        (.rename 1 (Path.ofNames ["r", "e"]))).idToPath[2]? = some (Path.ofNames ["r", "d", "f"]) := by
      decide
    have joined := Option.some.inj (here.symm.trans lower)
    rw [← Option.some.inj (above.symm.trans upper)] at joined
    simp [Path.ofNames, Path.push] at joined

end Mille.EntryStore
