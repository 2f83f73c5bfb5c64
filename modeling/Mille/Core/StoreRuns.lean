import Mille.Core.StoreCounts

/-! Whole runs of the store. One step lemma per operation says what it may do to
identities; the forest invariant, the counts and the fact that ids are never
reused then hold along every run. -/

namespace Mille

open Maps Forest

/-- The operations of a run, with their arguments. -/
inductive Op where
  | insert (path : Path) (entry : Entry)
  | insertBatch (entries : List (Path × Entry))
  | update (id : EntryId) (updated : Entry)
  | rename (id : EntryId) (newPath : Path)
  | removeSubtree (id : EntryId)
  | replaceRoots (roots : List (Path × Entry))
  | reorderRoots (roots : List EntryId)
  | markRootUnavailable (rootId : EntryId)
  | markDirectoriesChildrenLoaded (ids : List EntryId)
  | reconfigureProjection (order : SiblingOrder) (visibility : VisibilityPolicy)
      (compactFolders : Bool) (fileNesting : FileNestingPolicy)
  | reconfigureProjectionWithExclusions (order : SiblingOrder) (visibility : VisibilityPolicy)
      (compactFolders : Bool) (fileNesting : FileNestingPolicy)
      (classifyExcluded : Path → Entry → Bool)

namespace EntryStore

/-- The store an operation leaves behind, whether it succeeds or fails. -/
def apply (store : EntryStore) : Op → EntryStore
  | .insert path entry => (store.insert path entry).2
  | .insertBatch entries => (store.insertBatch entries).2
  | .update id updated => (store.update id updated).2
  | .rename id newPath => (store.rename id newPath).2
  | .removeSubtree id => (store.removeSubtree id).2
  | .replaceRoots roots => (store.replaceRoots roots).2
  | .reorderRoots roots => (store.reorderRoots roots).2
  | .markRootUnavailable rootId => (store.markRootUnavailable rootId).2
  | .markDirectoriesChildrenLoaded ids => (store.markDirectoriesChildrenLoaded ids).2
  | .reconfigureProjection order visibility compactFolders fileNesting =>
    (store.reconfigureProjection order visibility compactFolders fileNesting).2
  | .reconfigureProjectionWithExclusions order visibility compactFolders fileNesting classify =>
    (store.reconfigureProjectionWithExclusions order visibility compactFolders fileNesting classify).2

def Live (store : EntryStore) (id : EntryId) : Prop :=
  store.inner.entries[id]?.isSome = true

/-- A single insert names no parent, or a live one; a batch checks it itself. -/
def Admissible (store : EntryStore) : Op → Prop
  | .insert _ entry => ∀ parentId, entry.parentId = some parentId → store.Live parentId
  | _ => True

/-- Stores reached by steps that all meet a condition on the store before them. -/
inductive Reaches (allowed : EntryStore → Op → Prop) (start : EntryStore) : EntryStore → Prop where
  | start : Reaches allowed start start
  | step (before : Reaches allowed start store) (op : Op) (meets : allowed store op) :
      Reaches allowed start (store.apply op)

variable {store after start mid : EntryStore} {op : Op} {id : EntryId} {path : Path} {entry : Entry}
variable {allowed stricter : EntryStore → Op → Prop}

theorem Reaches.weaken (run : Reaches stricter start store)
    (weaker : ∀ store op, stricter store op → allowed store op) : Reaches allowed start store := by
  induction run with
  | start => exact .start
  | step _ op meets ih => exact ih.step op (weaker _ op meets)

theorem Reaches.invariant (run : Reaches allowed start store) (holds : EntryStore → Prop)
    (initial : holds start)
    (preserved : ∀ store op, holds store → allowed store op → holds (store.apply op)) :
    holds store := by
  induction run with
  | start => exact initial
  | step _ op meets ih => exact preserved _ op ih meets

theorem empty_forested {order : SiblingOrder} {visibility : VisibilityPolicy} {compactFolders : Bool}
    {fileNesting : FileNestingPolicy} :
    (withProjectionSettings order visibility compactFolders fileNesting).Forested where
  inverse := by
    intro path id
    simp [withProjectionSettings]
  indexed := by
    intro id
    simp [withProjectionSettings, StoreSnapshot.emptyWithProjection]
  linked := by
    have links : (withProjectionSettings order visibility compactFolders fileNesting).inner.parentLink =
        fun _ => none := by
      funext id
      simp [StoreSnapshot.parentLink, withProjectionSettings, StoreSnapshot.emptyWithProjection]
    have lists : (withProjectionSettings order visibility compactFolders fileNesting).inner.childrenOf =
        fun _ => [] := by
      funext id
      simp [StoreSnapshot.childrenOf_eq, withProjectionSettings, StoreSnapshot.emptyWithProjection]
    rw [links, lists]
    exact Linked.empty
  stamped := by
    intro id entry found
    simp [withProjectionSettings, StoreSnapshot.emptyWithProjection] at found
  bounded := by
    intro id live
    simp [withProjectionSettings, StoreSnapshot.emptyWithProjection] at live
  ceiling := Nat.zero_le _

theorem new_forested : new.Forested :=
  empty_forested

theorem apply_forested (forested : store.Forested) (admissible : store.Admissible op) :
    (store.apply op).Forested := by
  cases op with
  | insert path entry => exact insert_forested forested path entry admissible
  | insertBatch entries => exact insertBatch_forested forested entries
  | update id updated => exact update_forested forested id updated
  | rename id newPath => exact rename_forested forested id newPath
  | removeSubtree id => exact removeSubtree_forested forested id
  | replaceRoots roots => exact replaceRoots_forested forested roots
  | reorderRoots roots => exact reorderRoots_forested forested roots
  | markRootUnavailable rootId => exact markRootUnavailable_forested forested rootId
  | markDirectoriesChildrenLoaded ids => exact markDirectoriesChildrenLoaded_forested forested ids
  | reconfigureProjection => exact reconfigureProjectionInner_forested forested _ _ _ _ _
  | reconfigureProjectionWithExclusions =>
    exact reconfigureProjectionInner_forested forested _ _ _ _ _

theorem Reaches.forested (run : Reaches Admissible new store) : store.Forested :=
  run.invariant Forested new_forested (fun _ _ forested admissible => apply_forested forested admissible)

theorem new_counted : new.Counted := by
  intro id
  have none : new.inner.directChildCounts[id]? = none := by
    simp [new, withProjectionSettings, StoreSnapshot.emptyWithProjection]
  have empty : new.inner.childrenOf id = [] := by
    simp [StoreSnapshot.childrenOf_eq, new, withProjectionSettings, StoreSnapshot.emptyWithProjection]
  rw [none, empty]
  rfl

theorem apply_counted (forested : store.Forested) (counted : store.Counted)
    (countable : (store.apply op).Countable) : (store.apply op).Counted := by
  cases op with
  | insert path entry => exact insert_counted counted path entry countable
  | insertBatch entries => exact insertBatch_counted counted entries countable
  | update id updated => exact update_counted counted id updated
  | rename id newPath => exact rename_counted forested counted id newPath countable
  | removeSubtree id => exact removeSubtree_counted forested counted id
  | replaceRoots roots => exact replaceRoots_counted counted roots
  | reorderRoots roots => exact reorderRoots_counted counted roots
  | markRootUnavailable rootId => exact markRootUnavailable_counted counted rootId
  | markDirectoriesChildrenLoaded ids =>
    exact markDirectoriesChildrenLoaded_counted counted
      (fun id => markDirectoriesChildrenLoaded_childrenOf ▸ countable id) ids
  | reconfigureProjection => exact reconfigureProjectionInner_counted counted _ _ _ _ _
  | reconfigureProjectionWithExclusions =>
    exact reconfigureProjectionInner_counted counted _ _ _ _ _

/-- What a step may do to identities: every live id was live before or is at or
above the old counter. -/
def Ages (store after : EntryStore) : Prop :=
  store.idCounter ≤ after.idCounter ∧
    ∀ id, after.Live id → store.Live id ∨ store.idCounter ≤ id

theorem Ages.refl : store.Ages store :=
  ⟨le_refl _, fun _ live => .inl live⟩

theorem Ages.trans (first : store.Ages mid) (second : mid.Ages after) : store.Ages after := by
  refine ⟨first.1.trans second.1, fun id live => ?_⟩
  rcases second.2 id live with known | fresh
  · exact first.2 id known
  · exact .inr (first.1.trans fresh)

theorem Ages.advance {counter : Nat} (later : store.idCounter ≤ counter) :
    store.Ages { store with idCounter := counter } :=
  ⟨later, fun _ live => .inl live⟩

theorem Ages.of_live (counter : after.idCounter = store.idCounter)
    (live : ∀ id, after.Live id → store.Live id) : store.Ages after :=
  ⟨counter.ge, fun id now => .inl (live id now)⟩

theorem insert_ages (ceiling : store.idCounter ≤ entryIdMax) (path : Path) (entry : Entry) :
    store.Ages (store.insert path entry).2 := by
  unfold insert
  split
  · exact .refl
  · have counter := EntryId.allocFrom_counter ceiling
    split
    · rename_i error next allocated
      rw [allocated] at counter
      exact .advance counter.1
    · rename_i fresh next allocated
      obtain ⟨rfl, _, rfl⟩ := EntryId.allocFrom_ok allocated
      refine ⟨Nat.le_succ _, fun id live => ?_⟩
      dsimp only at live
      unfold Live at live ⊢
      rw [installInsert_entries, lookup_insert] at live
      split at live
      · rename_i same
        exact .inr same.le
      · exact .inl live

theorem insertBatch_ages (ceiling : store.idCounter ≤ entryIdMax) (entries : List (Path × Entry)) :
    store.Ages (store.insertBatch entries).2 := by
  have resolved := resolveBatch_spec store entries [] ceiling
  unfold insertBatch
  split
  · rename_i failed
    rw [failed] at resolved
    exact .advance resolved.1
  · rename_i empty
    rw [empty] at resolved
    exact .advance resolved.1
  · rename_i additions counter _ found
    rw [found] at resolved
    refine ⟨resolved.1, fun id live => ?_⟩
    have records : ({ store with idCounter := counter }.installBatch additions).inner.entries =
        insertAll store.inner.entries (additions.map (fun addition => (addition.id, addition.entry))) :=
      StoreSnapshot.addRecords_entries
    dsimp only at live
    unfold Live at live ⊢
    rw [records, isSome_insertAll, List.map_map] at live
    rcases live with new | known
    · obtain ⟨addition, present, rfl⟩ := List.mem_map.mp new
      exact .inr ((resolved.2.2 additions rfl).range addition present).1
    · exact .inl known

theorem replaceRoots_ages (forested : store.Forested) (roots : List (Path × Entry)) :
    store.Ages (store.replaceRoots roots).2 := by
  unfold replaceRoots
  dsimp only
  split
  · exact .refl
  · rename_i checked
    obtain ⟨nodup, unseen⟩ := checkRoots_nodup checked
    have resolved := resolveRoots_spec forested forested.ceiling (le_refl _) nodup unseen
    split
    · exact .refl
    · split
      · rename_i failed
        rw [failed] at resolved
        exact .advance resolved.1
      · rename_i orderedIds additions counter found
        rw [found] at resolved
        split
        · exact .advance resolved.1
        · obtain ⟨entries, _, _, _, _, idCounter⟩ := installRoots_inner
            { store with idCounter := counter } orderedIds
            ((store.inner.roots.filter (· ∉ orderedIds)).flatMap
              (fun top => store.inner.subtree [top])) additions
          refine ⟨resolved.1.trans idCounter.ge, fun id live => ?_⟩
          unfold Live at live ⊢
          rw [entries, isSome_insertAll, List.map_map] at live
          rcases live with new | known
          · obtain ⟨addition, present, rfl⟩ := List.mem_map.mp new
            exact .inr ((resolved.2.2 _ _ rfl).1.range addition present).1
          · simp only [withoutRoots, unindex_inner, StoreSnapshot.evict_entries] at known
            split at known
            · cases known
            · exact .inl known

theorem update_ages (target : EntryId) (updated : Entry) :
    store.Ages (store.update target updated).2 := by
  unfold update
  split
  · exact .refl
  · rename_i existing found
    split
    · exact .refl
    · split
      · exact .refl
      · refine .of_live rfl fun id live => ?_
        have lookup : (store.installUpdate target existing
            { updated with id := target }).inner.entries[id]? = _ := lookup_insert
        unfold Live at live ⊢
        rw [lookup] at live
        split at live
        · rename_i same
          simp [← same, found]
        · exact live

theorem rename_ages (target : EntryId) (newPath : Path) :
    store.Ages (store.rename target newPath).2 := by
  unfold rename
  split
  · exact .refl
  · rename_i entry found
    split
    · exact .refl
    · split
      · exact .refl
      · split
        · exact .refl
        · refine .of_live rfl fun id live => ?_
          unfold Live at live ⊢
          rw [installRename_lookup] at live
          split at live
          · rename_i same
            simp [← same, found]
          · exact live

theorem removeSubtree_ages (target : EntryId) : store.Ages (store.removeSubtree target).2 := by
  unfold removeSubtree
  split
  · exact .refl
  · rename_i entry found
    obtain ⟨entries, _, _, _, counter⟩ :=
      installRemoval_inner store target entry (store.inner.subtree [target])
    refine .of_live counter fun id live => ?_
    unfold Live at live ⊢
    rw [entries, StoreSnapshot.evict_entries] at live
    split at live
    · cases live
    · exact live

theorem markRootUnavailable_ages (rootId : EntryId) :
    store.Ages (store.markRootUnavailable rootId).2 := by
  unfold markRootUnavailable
  dsimp only
  split
  · exact .refl
  · rename_i root found
    split
    · exact .refl
    · split
      · exact .refl
      · refine .of_live (by simp [installUnavailable]) fun id live => ?_
        unfold Live at live ⊢
        rw [installUnavailable_lookup, StoreSnapshot.evict_entries] at live
        split at live
        · rename_i same
          simp [← same, found]
        · split at live
          · cases live
          · exact live

theorem reconfigureProjectionInner_ages (order : SiblingOrder) (visibility : VisibilityPolicy)
    (compactFolders : Bool) (fileNesting : FileNestingPolicy)
    (classify : Option (Path → Entry → Bool)) : store.Ages
      (store.reconfigureProjectionInner order visibility compactFolders fileNesting classify).2 := by
  unfold reconfigureProjectionInner
  dsimp only
  split
  · exact .refl
  · refine .of_live rfl fun id live => ?_
    have same := congrArg Option.isSome (reclassify_lookup store classify id)
    rw [Option.isSome_map, Option.isSome_map] at same
    exact same.symm.trans live

theorem apply_ages (forested : store.Forested) (op : Op) : store.Ages (store.apply op) := by
  cases op with
  | insert path entry => exact insert_ages forested.ceiling path entry
  | insertBatch entries => exact insertBatch_ages forested.ceiling entries
  | update target updated => exact update_ages target updated
  | rename target newPath => exact rename_ages target newPath
  | removeSubtree target => exact removeSubtree_ages target
  | replaceRoots roots => exact replaceRoots_ages forested roots
  | reorderRoots roots =>
    simp only [apply, reorderRoots]
    split
    · exact .refl
    · split
      · exact .refl
      · split
        · exact .refl
        · exact .of_live rfl fun id live => live
  | markRootUnavailable rootId => exact markRootUnavailable_ages rootId
  | markDirectoriesChildrenLoaded ids =>
    simp only [apply, markDirectoriesChildrenLoaded]
    split
    · exact .refl
    · exact .refl
    · exact .of_live rfl fun id live => live
  | reconfigureProjection => exact reconfigureProjectionInner_ages _ _ _ _ _
  | reconfigureProjectionWithExclusions => exact reconfigureProjectionInner_ages _ _ _ _ _

theorem Reaches.ages (forested : start.Forested) (run : Reaches Admissible start store) :
    store.Forested ∧ start.Ages store :=
  run.invariant (fun store => store.Forested ∧ start.Ages store) ⟨forested, .refl⟩
    (fun _ op known admissible =>
      ⟨apply_forested known.1 admissible, known.2.trans (apply_ages known.1 op)⟩)

/-- The invariant in the terms of the published maps. -/
structure ForestInvariant (store : EntryStore) : Prop where
  inverse : ∀ (path : Path) (id : EntryId),
    store.pathToId[path]? = some id ↔ store.idToPath[id]? = some path
  indexed : ∀ id : EntryId, store.idToPath[id]?.isSome = true ↔ store.Live id
  root_once : ∀ (id : EntryId) (entry : Entry), store.inner.entries[id]? = some entry →
    entry.parentId = none →
      store.inner.roots.count id = 1 ∧ ∀ above, id ∉ store.inner.childrenOf above
  child_once : ∀ (id parentId : EntryId) (entry : Entry), store.inner.entries[id]? = some entry →
    entry.parentId = some parentId →
      store.Live parentId ∧ (store.inner.childrenOf parentId).count id = 1 ∧
        id ∉ store.inner.roots ∧ ∀ above, above ≠ parentId → id ∉ store.inner.childrenOf above
  roots_live : ∀ id ∈ store.inner.roots, store.Live id
  lists_live : ∀ above, ∀ id ∈ store.inner.childrenOf above, store.Live id
  acyclic : ∀ id, ¬ Relation.TransGen (fun child above : EntryId => ∃ entry,
    store.inner.entries[child]? = some entry ∧ entry.parentId = some above) id id
  bounded : ∀ id, store.Live id → id < 2 ^ 53

theorem Forested.acyclic (forested : store.Forested) :
    ¬ Relation.TransGen (fun child above : EntryId => ∃ entry,
      store.inner.entries[child]? = some entry ∧ entry.parentId = some above) id id := by
  have below (child above : EntryId) (chain : Relation.TransGen (fun child above : EntryId =>
      ∃ entry, store.inner.entries[child]? = some entry ∧ entry.parentId = some above) child above) :
      ∃ next, store.inner.parentLink child = some (some next) ∧
        Below store.inner.parentLink above next := by
    induction chain with
    | single step => exact ⟨_, StoreSnapshot.parentLink_eq_some.mpr step, .self⟩
    | tail _ step ih =>
      obtain ⟨next, link, path⟩ := ih
      exact ⟨next, link, (Below.of_link (StoreSnapshot.parentLink_eq_some.mpr step)).trans path⟩
  intro cycle
  obtain ⟨next, link, path⟩ := below id id cycle
  exact (forested.linked.rooted id (by simp [link])).no_cycle link path

theorem Forested.invariant (forested : store.Forested) : store.ForestInvariant where
  inverse := forested.inverse
  indexed := forested.indexed
  root_once id entry found top := by
    have link := StoreSnapshot.parentLink_eq_some.mpr ⟨entry, found, top⟩
    refine ⟨List.count_eq_one_of_mem forested.linked.roots_nodup
      ((forested.linked.root_iff id).mpr link), fun above member => ?_⟩
    have listed := (forested.linked.child_iff id above).mp member
    simp [link] at listed
  child_once id parentId entry found parent := by
    have link := StoreSnapshot.parentLink_eq_some.mpr ⟨entry, found, parent⟩
    refine ⟨forested.parent_live found parent, List.count_eq_one_of_mem
      (forested.linked.children_nodup parentId) ((forested.linked.child_iff id parentId).mpr link),
      fun member => ?_, fun above other member => ?_⟩
    · have root := (forested.linked.root_iff id).mp member
      simp [link] at root
    · have listed := (forested.linked.child_iff id above).mp member
      exact other (Option.some.inj (Option.some.inj (listed.symm.trans link)))
  roots_live id member :=
    StoreSnapshot.parentLink_isSome.mp (by simp [(forested.linked.root_iff id).mp member])
  lists_live above id member :=
    StoreSnapshot.parentLink_isSome.mp (by simp [(forested.linked.child_iff id above).mp member])
  acyclic id := forested.acyclic
  bounded id live := (forested.bounded id live).trans_le forested.ceiling

/-- Every run from an empty store keeps the forest invariant and never brings a
dead id back; the counts follow the lists while no list outgrows them. -/
theorem run_keeps_forest :
    (∀ store, Reaches Admissible new store → store.ForestInvariant) ∧
      (∀ store, Reaches (fun store op => store.Admissible op ∧ (store.apply op).Countable) new store →
        store.Counted) ∧
      ∀ early mid late, Reaches Admissible new early → Reaches Admissible early mid →
        Reaches Admissible mid late → ∀ id, early.Live id → ¬ mid.Live id → ¬ late.Live id := by
  refine ⟨fun store run => run.forested.invariant, ?_, ?_⟩
  · intro store run
    refine (run.invariant (fun store => store.Forested ∧ store.Counted)
      ⟨new_forested, new_counted⟩ ?_).2
    rintro store op ⟨forested, counted⟩ ⟨admissible, countable⟩
    exact ⟨apply_forested forested admissible, apply_counted forested counted countable⟩
  · intro early mid late first second third id born dead live
    obtain ⟨forested, aged⟩ := second.ages first.forested
    rcases (third.ages forested).2.2 id live with known | fresh
    · exact dead known
    · have used := first.forested.bounded id born
      exact absurd (used.trans_le (aged.1.trans fresh)) (lt_irrefl _)

/-- A directory that fills up with `size` files, one insert at a time. -/
def crowd : Nat → EntryStore
  | 0 => new.apply (.insert (Path.ofNames ["r"])
      ⟨0, none, "r", .directory, 0, 0, 0, none, none, false, false, false, false⟩)
  | size + 1 => (crowd size).apply (.insert
      ((Path.ofNames ["r"]).push (.utf8 (String.ofList (List.replicate size 'a'))))
      ⟨0, some 0, String.ofList (List.replicate size 'a'), .file, 0, 0, 0, none, none, false, false,
        false, false⟩)

theorem insert_fresh (entry : Entry) (unindexed : store.pathToId[path]? = none) (room : store.idCounter < entryIdMax) :
    (store.insert path entry).2 = { store with idCounter := store.idCounter + 1 }.installInsert path
      store.idCounter { entry with id := store.idCounter } := by
  have allocated : EntryId.allocFrom store.idCounter = (.ok store.idCounter, store.idCounter + 1) := by
    rw [EntryId.allocFrom, if_neg (by omega)]
  simp only [insert, unindexed, allocated]

theorem installInsert_pathToId {other : Path} :
    (store.installInsert path id entry).pathToId[other]? =
      if path = other then some id else store.pathToId[other]? :=
  lookup_insert

private theorem crowdName_injective {left right : Nat}
    (same : (Path.ofNames ["r"]).push (.utf8 (String.ofList (List.replicate left 'a'))) =
      (Path.ofNames ["r"]).push (.utf8 (String.ofList (List.replicate right 'a')))) : left = right := by
  have names := (Path.push_injective same).2
  simpa using congrArg List.length (String.ofList_injective (OsString.utf8.inj names))

theorem crowd_spec (size : Nat) (room : size + 1 < entryIdMax) :
    Reaches Admissible new (crowd size) ∧ (crowd size).idCounter = size + 1 ∧
      (crowd size).Live 0 ∧ ((crowd size).inner.childrenOf 0).length = size ∧
      (crowd size).inner.directChildCounts[0]?.getD 0 = .ofNat size ∧
      ∀ later, size ≤ later → (crowd size).pathToId[(Path.ofNames ["r"]).push
        (.utf8 (String.ofList (List.replicate later 'a')))]? = none := by
  have noPaths (path : Path) : new.pathToId[path]? = none := by simp [new, withProjectionSettings]
  induction size with
  | zero =>
    have start := insert_fresh ⟨0, none, "r", .directory, 0, 0, 0, none, none, false, false, false,
      false⟩ (noPaths (Path.ofNames ["r"])) (by decide)
    refine ⟨Reaches.start.step _ (fun _ link => by cases link), ?_, ?_, ?_, ?_, ?_⟩
    all_goals simp only [crowd, apply, start]
    · rfl
    · simp [Live, installInsert_entries, new, withProjectionSettings]
    · rw [installInsert_length]
      rfl
    · rw [installInsert_counts]
      rfl
    · intro later _
      rw [installInsert_pathToId, if_neg (by simp [Path.push, Path.ofNames])]
      exact noPaths _
  | succ size ih =>
    obtain ⟨run, counter, live, length, count, free⟩ := ih (by omega)
    have next := insert_fresh ⟨0, some 0, String.ofList (List.replicate size 'a'), .file, 0, 0, 0,
      none, none, false, false, false, false⟩ (free size (le_refl _)) (by omega)
    refine ⟨run.step _ (fun _ link => by cases link; exact live), ?_, ?_, ?_, ?_, ?_⟩
    all_goals simp only [crowd, apply, next]
    · exact congrArg (· + 1) counter
    · unfold Live at live ⊢
      rw [installInsert_entries, lookup_insert]
      split
      · rfl
      · exact live
    · rw [installInsert_length]
      simp [length]
    · rw [installInsert_counts]
      simp [count]
    · intro later above
      rw [installInsert_pathToId, if_neg (fun same => ?_)]
      · exact free later (by omega)
      · have := crowdName_injective same
        omega

/-- The count of a directory with `2 ^ 32` children has wrapped around to zero. -/
theorem crowded_count_wraps : ∃ store, Reaches Admissible new store ∧ store.Live 0 ∧
    (store.inner.childrenOf 0).length = 2 ^ 32 ∧ ¬ CountOk store.inner.directChildCounts[0]?
      (store.inner.childrenOf 0) := by
  -- The size stays a variable, so that nothing unfolds the run.
  obtain ⟨size, big⟩ : ∃ size, size = 2 ^ 32 := ⟨_, rfl⟩
  obtain ⟨run, _, live, length, count, _⟩ := crowd_spec size (by rw [big]; decide)
  refine ⟨crowd size, run, live, length.trans big, fun ok => ?_⟩
  have start := ok.getD
  rw [count, length, big] at start
  simp at start

end EntryStore

end Mille
