import Mille.Core.StorePaths
import Mille.Core.StoreSorted
import Mille.Binding.Reconcile

/-! The steps a reconciliation is made of, by what they leave of the records, the marks and
the places: some take away, some add under fresh ids, one puts a record in another's place. -/

namespace Mille

open Maps

namespace EntryStore

section Places

variable {store after : EntryStore} {path : Path} {id : EntryId} {entry : Entry}

theorem Forested.getByPath_eq_some (forested : store.Forested) :
    store.getByPath path = some entry ↔
      store.inner.entries[entry.id]? = some entry ∧ store.idToPath[entry.id]? = some path := by
  unfold getByPath getById
  rw [Option.bind_eq_some_iff]
  constructor
  · rintro ⟨id, indexed, found⟩
    have stamp := forested.stamped id entry found
    subst stamp
    exact ⟨found, (forested.inverse path entry.id).mp indexed⟩
  · rintro ⟨found, indexed⟩
    exact ⟨entry.id, (forested.inverse path entry.id).mpr indexed, found⟩

/-- Loaded marks are on ids that have been handed out. -/
def Marked (store : EntryStore) : Prop :=
  ∀ id ∈ store.inner.loadedDirectories, id < store.idCounter

theorem Marked.later (marked : store.Marked)
    (loaded : ∀ id ∈ after.inner.loadedDirectories, id ∈ store.inner.loadedDirectories)
    (counter : store.idCounter ≤ after.idCounter) : after.Marked :=
  fun id member => (marked id (loaded id member)).trans_le counter

theorem removeSubtree_eq (found : store.inner.entries[id]? = some entry) :
    (store.removeSubtree id).2 = store.installRemoval id entry (store.inner.subtree [id]) := by
  simp only [removeSubtree, found]

theorem removeSubtree_idCounter (id : EntryId) :
    (store.removeSubtree id).2.idCounter = store.idCounter := by
  unfold removeSubtree
  split
  · rfl
  · exact (installRemoval_inner ..).2.2.2.2

theorem removeSubtree_loaded (found : store.inner.entries[id]? = some entry) :
    (store.removeSubtree id).2.inner.loadedDirectories =
      store.inner.loadedDirectories.filter (· ∉ store.inner.subtree [id]) := by
  rw [removeSubtree_eq found]
  unfold installRemoval
  cases entry.parentId <;> rfl

theorem removeSubtree_idToPath (forested : store.Forested)
    (found : store.inner.entries[id]? = some entry) (other : EntryId) :
    (store.removeSubtree id).2.idToPath[other]? =
      if other ∈ store.inner.subtree [id] then none else store.idToPath[other]? := by
  rw [removeSubtree_eq found, (installRemoval_inner ..).2.2.2.1]
  exact (unindexScan_spec forested.inverse _).2 other

theorem insert_loaded : (store.insert path entry).2.inner.loadedDirectories =
    store.inner.loadedDirectories := by
  unfold insert
  split
  · rfl
  · split
    · rfl
    · unfold installInsert
      cases entry.parentId <;> rfl

end Places

/-- The entry has no known children and no loaded mark. -/
def Bare (store : EntryStore) (id : EntryId) : Prop :=
  id ∉ store.inner.loadedDirectories ∧ store.inner.childrenOf id = []

/-- Only folders own children or a mark. -/
def Owned (store : EntryStore) : Prop :=
  ∀ (id : EntryId) (entry : Entry), store.inner.entries[id]? = some entry → entry.isFolder = false →
    store.Bare id

/-- The path of a parent is shorter than the path of its child. -/
def Ranked (store : EntryStore) : Prop :=
  ∀ (id : EntryId) (entry : Entry) (parentId : EntryId) (path above : Path),
    store.inner.entries[id]? = some entry → entry.parentId = some parentId →
      store.idToPath[id]? = some path → store.idToPath[parentId]? = some above → above.length < path.length

/-- What every reconciliation step keeps. -/
structure Kept (store : EntryStore) : Prop where
  forested : store.Forested
  marked : store.Marked
  ranked : store.Ranked
  owned : store.Owned

/-- A parent that is shorter than a path. -/
def Above (store : EntryStore) (parentId : Option EntryId) (path : Path) : Prop :=
  ∀ id, parentId = some id → ∀ above, store.idToPath[id]? = some above → above.length < path.length

variable {store after mid : EntryStore} {path : Path} {id : EntryId} {entry : Entry}

theorem new_kept : new.Kept where
  forested := new_forested
  marked id member := by
    simp [new, withProjectionSettings, StoreSnapshot.emptyWithProjection] at member
  ranked id entry parentId path above found := by
    simp [new, withProjectionSettings, StoreSnapshot.emptyWithProjection] at found
  owned id entry found := by
    simp [new, withProjectionSettings, StoreSnapshot.emptyWithProjection] at found

theorem Forested.childless_iff (forested : store.Forested) : store.inner.childrenOf id = [] ↔
    ∀ (child : EntryId) (record : Entry), store.inner.entries[child]? = some record →
      record.parentId ≠ some id := by
  constructor
  · intro empty child record found parent
    have member := (forested.linked.child_iff child id).mpr
      (StoreSnapshot.parentLink_eq_some.mpr ⟨record, found, parent⟩)
    simp [empty] at member
  · intro orphan
    refine List.eq_nil_iff_forall_not_mem.mpr fun child member => ?_
    obtain ⟨record, found, parent⟩ :=
      StoreSnapshot.parentLink_eq_some.mp ((forested.linked.child_iff child id).mp member)
    exact orphan child record found parent

/-- A step that only takes records, marks and places away. -/
structure Shrinks (store after : EntryStore) : Prop where
  forested : after.Forested
  record : ∀ (id : EntryId) (entry : Entry), after.inner.entries[id]? = some entry →
    store.inner.entries[id]? = some entry
  loaded : after.inner.loadedDirectories ⊆ store.inner.loadedDirectories
  place : ∀ (id : EntryId) (path : Path), after.idToPath[id]? = some path → store.idToPath[id]? = some path
  counter : store.idCounter ≤ after.idCounter

namespace Shrinks

theorem refl (forested : store.Forested) : store.Shrinks store :=
  ⟨forested, fun _ _ found => found, fun _ member => member, fun _ _ indexed => indexed, le_refl _⟩

theorem trans (first : store.Shrinks mid) (second : mid.Shrinks after) : store.Shrinks after where
  forested := second.forested
  record id entry found := first.record id entry (second.record id entry found)
  loaded := second.loaded.trans first.loaded
  place id path indexed := first.place id path (second.place id path indexed)
  counter := first.counter.trans second.counter

theorem bare (shrinks : store.Shrinks after) (forested : store.Forested) (bare : store.Bare id) :
    after.Bare id := by
  refine ⟨fun member => bare.1 (shrinks.loaded member), shrinks.forested.childless_iff.mpr ?_⟩
  intro child record found
  exact forested.childless_iff.mp bare.2 child record (shrinks.record child record found)

theorem kept (shrinks : store.Shrinks after) (kept : store.Kept) : after.Kept where
  forested := shrinks.forested
  marked := kept.marked.later (fun _ member => shrinks.loaded member) shrinks.counter
  ranked id entry parentId path above found parent here upper :=
    kept.ranked id entry parentId path above (shrinks.record _ _ found) parent (shrinks.place _ _ here)
      (shrinks.place _ _ upper)
  owned id entry found plain := shrinks.bare kept.forested
    (kept.owned id entry (shrinks.record id entry found) plain)

theorem getByPath (shrinks : store.Shrinks after) (forested : store.Forested)
    (found : after.getByPath path = some entry) : store.getByPath path = some entry := by
  obtain ⟨record, indexed⟩ := shrinks.forested.getByPath_eq_some.mp found
  exact forested.getByPath_eq_some.mpr ⟨shrinks.record _ _ record, shrinks.place _ _ indexed⟩

end Shrinks

theorem removeSubtree_lookup (found : store.inner.entries[id]? = some entry) (other : EntryId) :
    (store.removeSubtree id).2.inner.entries[other]? =
      if other ∈ store.inner.subtree [id] then none else store.inner.entries[other]? := by
  rw [removeSubtree_eq found, (installRemoval_inner ..).1]
  exact StoreSnapshot.evict_entries

theorem removeSubtree_shrinks (forested : store.Forested) (id : EntryId) :
    store.Shrinks (store.removeSubtree id).2 := by
  cases found : store.inner.entries[id]? with
  | none =>
    simp only [removeSubtree, found]
    exact .refl forested
  | some entry =>
    refine ⟨removeSubtree_forested forested id, ?_, ?_, ?_, (removeSubtree_idCounter id).ge⟩
    · intro other record kept
      rw [removeSubtree_lookup found] at kept
      split at kept
      · cases kept
      · exact kept
    · rw [removeSubtree_loaded found]
      exact Finset.filter_subset ..
    · intro other path indexed
      rw [removeSubtree_idToPath forested found] at indexed
      split at indexed
      · cases indexed
      · exact indexed

theorem removeSubtree_gone (forested : store.Forested) (id : EntryId) :
    (store.removeSubtree id).2.inner.entries[id]? = none := by
  cases found : store.inner.entries[id]? with
  | none => simp only [removeSubtree, found]
  | some entry =>
    rw [removeSubtree_lookup found, if_pos]
    exact (forested.mem_subtree (by simp [found])).mpr .self

theorem removeMissing_shrinks (forested : store.Forested) (missing : Path × EntryId) :
    store.Shrinks (store.removeMissing missing).2 := by
  unfold removeMissing
  split
  · exact .refl forested
  · exact removeSubtree_shrinks forested missing.2

theorem removeMissing_ok (missing : Path × EntryId) :
    ∃ out, (store.removeMissing missing).1 = .ok out := by
  unfold removeMissing
  split
  · exact ⟨_, rfl⟩
  · exact ⟨_, rfl⟩

theorem removeMissing_gone (forested : store.Forested) {missing : Path × EntryId}
    (indexed : ∀ entry, store.inner.entries[missing.2]? = some entry → store.idToPath[missing.2]? = some missing.1) :
    (store.removeMissing missing).2.inner.entries[missing.2]? = none := by
  unfold removeMissing
  split
  · next unknown =>
    cases found : store.inner.entries[missing.2]? with
    | none => rfl
    | some entry =>
      have stamp := forested.stamped _ _ found
      have known := forested.getByPath_eq_some.mpr
        ⟨by rw [stamp]; exact found, by rw [stamp]; exact indexed entry found⟩
      simp [known] at unknown
  · exact removeSubtree_gone forested missing.2

theorem removeMissings_spec (forested : store.Forested) (out : ReconcileOutcome)
    (missing : List (Path × EntryId))
    (indexed : ∀ lost ∈ missing, ∀ entry, store.inner.entries[lost.2]? = some entry →
      store.idToPath[lost.2]? = some lost.1) :
    ∃ change after, applyEach removeMissing store out missing = (.ok change, after) ∧
      store.Shrinks after ∧ ∀ lost ∈ missing, after.inner.entries[lost.2]? = none := by
  induction missing generalizing store out with
  | nil => exact ⟨out, store, rfl, .refl forested, by simp⟩
  | cons lost rest ih =>
    obtain ⟨change, done⟩ := @removeMissing_ok store lost
    have step := removeMissing_shrinks forested lost
    have gone := removeMissing_gone forested (indexed lost (by simp))
    obtain ⟨final, after, loop, shrinks, cleared⟩ := ih step.forested (out.merge change) (by
      intro other member entry found
      have before := indexed other (by simp [member]) entry (step.record _ _ found)
      obtain ⟨place, still⟩ := Option.isSome_iff_exists.mp
        ((step.forested.indexed other.2).mpr (by simp [found]))
      rw [still, ← before, step.place _ _ still])
    refine ⟨final, after, ?_, step.trans shrinks, List.forall_mem_cons.mpr ⟨?_, cleared⟩⟩
    · rw [applyEach, show store.removeMissing lost = (.ok change, (store.removeMissing lost).2) from
        Prod.ext done rfl]
      exact loop
    · cases found : after.inner.entries[lost.2]? with
      | none => rfl
      | some entry => exact absurd (shrinks.record _ _ found) (by simp [gone])

/-- A step that only adds records, under ids that were not handed out before. -/
structure Grows (store after : EntryStore) (additions : List Addition) : Prop where
  forested : after.Forested
  counter : store.idCounter ≤ after.idCounter
  record : ∀ (id : EntryId) (entry : Entry), after.inner.entries[id]? = some entry →
    (∃ addition ∈ additions, addition.id = id ∧ addition.entry = entry) ∨ store.inner.entries[id]? = some entry
  place : ∀ (id : EntryId) (path : Path), after.idToPath[id]? = some path →
    (∃ addition ∈ additions, addition.id = id ∧ addition.path = path) ∨ store.idToPath[id]? = some path
  loaded : after.inner.loadedDirectories = store.inner.loadedDirectories
  distinct : (additions.map (·.id)).Nodup
  unused : ∀ addition ∈ additions, store.idCounter ≤ addition.id
  hung : ∀ addition ∈ additions, ∀ parentId, addition.entry.parentId = some parentId →
    store.inner.entries[parentId]?.isSome = true

namespace Grows

variable {additions : List Addition}

theorem of_fresh {seen : List Path} (forested : after.Forested) (counter : store.idCounter ≤ after.idCounter)
    (fresh : store.Fresh seen store.idCounter after.idCounter additions)
    (entries : after.inner.entries = insertAll store.inner.entries
      (additions.map (fun addition => (addition.id, addition.entry))))
    (idToPath : after.idToPath = (store.index additions).idToPath)
    (loaded : after.inner.loadedDirectories = store.inner.loadedDirectories) :
    store.Grows after additions where
  forested := forested
  counter := counter
  record id entry found := by
    rw [entries, lookup_insertAll (by simpa [List.map_map, Function.comp_def] using fresh.ids)] at found
    rcases found with member | ⟨_, known⟩
    · obtain ⟨addition, present, same⟩ := List.mem_map.mp member
      cases same
      exact .inl ⟨addition, present, rfl, rfl⟩
    · exact .inr known
  place id path indexed := by
    rw [idToPath, index, lookup_insertAll (by simpa [List.map_map, Function.comp_def] using fresh.ids)] at indexed
    rcases indexed with member | ⟨_, known⟩
    · obtain ⟨addition, present, same⟩ := List.mem_map.mp member
      cases same
      exact .inl ⟨addition, present, rfl, rfl⟩
    · exact .inr known
  loaded := loaded
  distinct := fresh.ids
  unused addition member := (fresh.range addition member).1
  hung := fresh.hung

theorem unknown (grows : store.Grows after additions) (forested : store.Forested) {addition : Addition}
    (member : addition ∈ additions) : store.inner.entries[addition.id]? = none := by
  by_contra known
  have used := forested.bounded addition.id (Option.isSome_iff_ne_none.mpr known)
  exact absurd used (Nat.not_lt.mpr (grows.unused addition member))

theorem getByPath (grows : store.Grows after additions) (forested : store.Forested)
    (found : after.getByPath path = some entry) :
    (∃ addition ∈ additions, addition.path = path ∧ addition.entry = entry) ∨
      store.getByPath path = some entry := by
  obtain ⟨record, indexed⟩ := grows.forested.getByPath_eq_some.mp found
  have unindexed {addition : Addition} (member : addition ∈ additions) :
      store.idToPath[addition.id]? = none := by
    have gone := grows.unknown forested member
    have places := (forested.indexed addition.id).not
    simpa [gone] using places
  rcases grows.record _ _ record with ⟨addition, member, same, view⟩ | known
  · rcases grows.place _ _ indexed with ⟨other, present, again, here⟩ | old
    · have one := List.inj_on_of_nodup_map grows.distinct member present (same.trans again.symm)
      exact .inl ⟨addition, member, by rw [one]; exact here, view⟩
    · rw [← same, unindexed member] at old
      cases old
  · rcases grows.place _ _ indexed with ⟨other, present, again, _⟩ | old
    · rw [← again, grows.unknown forested present] at known
      cases known
    · exact .inr (forested.getByPath_eq_some.mpr ⟨known, old⟩)

theorem bare (grows : store.Grows after additions) (forested : store.Forested)
    (elsewhere : ∀ addition ∈ additions, addition.entry.parentId ≠ some id) (bare : store.Bare id) :
    after.Bare id := by
  refine ⟨by rw [grows.loaded]; exact bare.1, grows.forested.childless_iff.mpr ?_⟩
  intro child record found
  rcases grows.record child record found with ⟨addition, member, _, rfl⟩ | known
  · exact elsewhere addition member
  · exact forested.childless_iff.mp bare.2 child record known

theorem place_known (grows : store.Grows after additions) (forested : store.Forested)
    (known : store.inner.entries[id]?.isSome = true) (indexed : after.idToPath[id]? = some path) :
    store.idToPath[id]? = some path := by
  rcases grows.place id path indexed with ⟨addition, member, rfl, _⟩ | old
  · simp [grows.unknown forested member] at known
  · exact old

theorem place_added (grows : store.Grows after additions) (forested : store.Forested) {addition : Addition}
    (member : addition ∈ additions) (indexed : after.idToPath[addition.id]? = some path) :
    path = addition.path := by
  rcases grows.place _ path indexed with ⟨other, present, same, rfl⟩ | old
  · rw [List.inj_on_of_nodup_map grows.distinct present member same]
  · have known := (forested.indexed addition.id).mp (by simp [old])
    simp [grows.unknown forested member] at known

theorem kept (grows : store.Grows after additions) (kept : store.Kept)
    (folders : ∀ addition ∈ additions, ∀ parentId entry, addition.entry.parentId = some parentId →
      store.inner.entries[parentId]? = some entry → entry.isFolder = true)
    (deeper : ∀ addition ∈ additions, store.Above addition.entry.parentId addition.path) : after.Kept where
  forested := grows.forested
  marked := kept.marked.later (fun _ member => by rwa [grows.loaded] at member) grows.counter
  ranked id entry parentId path above found parent here upper := by
    rcases grows.record id entry found with ⟨addition, member, rfl, rfl⟩ | known
    · have live := grows.hung addition member parentId parent
      rw [grows.place_added kept.forested member here]
      exact deeper addition member parentId parent above (grows.place_known kept.forested live upper)
    · have live := kept.forested.parent_live known parent
      exact kept.ranked id entry parentId path above known parent
        (grows.place_known kept.forested (by simp [known]) here) (grows.place_known kept.forested live upper)
  owned id entry found plain := by
    rcases grows.record id entry found with ⟨addition, member, rfl, _⟩ | known
    · have gone := grows.unknown kept.forested member
      refine grows.bare kept.forested ?_ ⟨?_, ?_⟩
      · intro other present parent
        have live := grows.hung other present _ parent
        simp [gone] at live
      · intro marked
        exact absurd (kept.marked _ marked) (Nat.not_lt.mpr (grows.unused addition member))
      · refine kept.forested.childless_iff.mpr fun child record live parent => ?_
        have above := kept.forested.parent_live live parent
        simp [gone] at above
    · refine grows.bare kept.forested ?_ (kept.owned id entry known plain)
      intro addition member parent
      have folder := folders addition member id entry parent known
      simp [plain] at folder

end Grows

theorem Shrinks.advance (forested : store.Forested) {counter : Nat} (later : store.idCounter ≤ counter)
    (ceiling : counter ≤ entryIdMax) : store.Shrinks { store with idCounter := counter } :=
  ⟨forested.advance later ceiling, fun _ _ found => found, fun _ member => member, fun _ _ indexed => indexed, later⟩

theorem insert_steps (forested : store.Forested) (path : Path) (entry : Entry)
    (parent : ∀ parentId, entry.parentId = some parentId → store.inner.entries[parentId]?.isSome = true) :
    store.Shrinks (store.insert path entry).2 ∨
      ∃ id, store.Grows (store.insert path entry).2 [⟨path, id, { entry with id := id }⟩] := by
  have grown := insert_forested forested path entry parent
  have loaded := @insert_loaded store path entry
  cases unindexed : store.pathToId[path]? with
  | some known =>
    simp only [insert, unindexed]
    exact .inl (.refl forested)
  | none =>
    by_cases room : store.idCounter < entryIdMax
    · rw [insert_fresh entry unindexed room] at grown loaded ⊢
      have fresh : store.Fresh [] store.idCounter (store.idCounter + 1)
          [⟨path, store.idCounter, { entry with id := store.idCounter }⟩] :=
        .cons ⟨path, store.idCounter, { entry with id := store.idCounter }⟩ List.not_mem_nil unindexed
          rfl parent (le_refl _) .nil
      exact .inr ⟨_, .of_fresh grown (Nat.le_succ _) fresh installInsert_entries rfl loaded⟩
    · have full : EntryId.allocFrom store.idCounter = (.error .entryIdExhausted, entryIdMax) := by
        simp only [EntryId.allocFrom, ge_iff_le, Nat.not_lt.mp room, if_true]
      simp only [insert, unindexed, full]
      exact .inl (.advance forested forested.ceiling (le_refl _))

theorem resolveBatch_mem {entries : List (Path × Entry)} {seen : List Path} {counter high : Nat}
    {additions : List Addition} (resolved : store.resolveBatch seen entries counter = (.ok additions, high)) :
    ∀ addition ∈ additions, ∃ binding ∈ entries, addition.path = binding.1 ∧
      addition.entry = { binding.2 with id := addition.id } := by
  induction entries generalizing seen counter additions with
  | nil =>
    cases resolved
    simp
  | cons head rest ih =>
    obtain ⟨path, entry⟩ := head
    rw [resolveBatch] at resolved
    split at resolved
    · intro addition member
      obtain ⟨binding, present, same⟩ := ih resolved addition member
      exact ⟨binding, by simp [present], same⟩
    · split at resolved
      · cases resolved
      · split at resolved
        · cases resolved
        · split at resolved
          · cases resolved
          · split at resolved
            · cases resolved
            · next found =>
              cases resolved
              refine List.forall_mem_cons.mpr ⟨⟨(path, entry), by simp, rfl, rfl⟩, ?_⟩
              intro addition member
              obtain ⟨binding, present, same⟩ := ih found addition member
              exact ⟨binding, by simp [present], same⟩

theorem insertBatch_steps (forested : store.Forested) (entries : List (Path × Entry)) :
    store.Shrinks (store.insertBatch entries).2 ∨
      ∃ additions, store.Grows (store.insertBatch entries).2 additions ∧
        ∀ addition ∈ additions, ∃ binding ∈ entries, addition.path = binding.1 ∧
          addition.entry = { binding.2 with id := addition.id } := by
  have grown := insertBatch_forested forested entries
  have spec := resolveBatch_spec store entries [] forested.ceiling
  revert grown
  unfold insertBatch
  cases resolved : store.resolveBatch [] entries store.idCounter with
  | mk result counter =>
    rw [resolved] at spec
    cases result with
    | error error => exact fun _ => .inl (.advance forested spec.1 spec.2.1)
    | ok additions =>
      cases additions with
      | nil => exact fun _ => .inl (.advance forested spec.1 spec.2.1)
      | cons addition rest =>
        intro grown
        have loaded : ({ store with idCounter := counter }.installBatch
            (addition :: rest)).inner.loadedDirectories = store.inner.loadedDirectories :=
          StoreSnapshot.addRecords_frame.2.2.2
        refine .inr ⟨_, .of_fresh grown spec.1 (spec.2.2 _ rfl) StoreSnapshot.addRecords_entries rfl loaded,
          resolveBatch_mem resolved⟩

/-- A step that puts another record in one record's place. -/
structure Amends (store after : EntryStore) (id : EntryId) (updated : Entry) : Prop where
  forested : after.Forested
  record : ∀ other : EntryId, after.inner.entries[other]? =
    if id = other then some updated else store.inner.entries[other]?
  parent : ∀ existing, store.inner.entries[id]? = some existing → updated.parentId = existing.parentId
  loaded : after.inner.loadedDirectories = store.inner.loadedDirectories
  place : after.idToPath = store.idToPath
  counter : after.idCounter = store.idCounter

theorem update_steps (forested : store.Forested) (updated : Entry) {existing : Entry}
    (found : store.inner.entries[id]? = some existing) :
    store.Shrinks (store.update id updated).2 ∧ (∃ error, (store.update id updated).1 = .error error) ∨
      store.Amends (store.update id updated).2 id { updated with id := id } := by
  have later := update_forested forested id updated
  revert later
  simp only [update, found]
  split
  · exact fun _ => .inl ⟨.refl forested, _, rfl⟩
  · next matching =>
    have parent : updated.parentId = existing.parentId := by
      simp only [ne_eq, not_or, not_not] at matching
      exact matching.1
    have linked (other : Entry) (known : some existing = some other) : updated.parentId = other.parentId := by
      cases known
      exact parent
    split
    · next same =>
      intro later
      refine .inr ⟨later, fun other => ?_, by rw [found]; exact linked, rfl, rfl, rfl⟩
      split
      · next here => rw [← here, found, same]
      · rfl
    · intro later
      exact .inr ⟨later, fun other => lookup_insert, by rw [found]; exact linked, rfl, rfl, rfl⟩

namespace Amends

variable {updated existing : Entry}

theorem child_iff (amends : store.Amends after id updated) (found : store.inner.entries[id]? = some existing)
    {child above : EntryId} :
    (∃ record, after.inner.entries[child]? = some record ∧ record.parentId = some above) ↔
      ∃ record, store.inner.entries[child]? = some record ∧ record.parentId = some above := by
  rw [amends.record]
  split
  · next here =>
    subst here
    simp [found, amends.parent existing found]
  · rfl

theorem bare (amends : store.Amends after id updated) (forested : store.Forested)
    (found : store.inner.entries[id]? = some existing) {other : EntryId} (bare : store.Bare other) :
    after.Bare other := by
  refine ⟨by rw [amends.loaded]; exact bare.1, amends.forested.childless_iff.mpr ?_⟩
  intro child record live parent
  obtain ⟨old, known, above⟩ := (amends.child_iff found).mp ⟨record, live, parent⟩
  exact forested.childless_iff.mp bare.2 child old known above

theorem kept (amends : store.Amends after id updated) (kept : store.Kept)
    (found : store.inner.entries[id]? = some existing)
    (folder : updated.isFolder = true ∨ store.Bare id) : after.Kept where
  forested := amends.forested
  marked := kept.marked.later (fun _ member => by rwa [amends.loaded] at member) amends.counter.ge
  ranked child record parentId path above live parent here upper := by
    obtain ⟨old, known, link⟩ := (amends.child_iff found).mp ⟨record, live, parent⟩
    rw [amends.place] at here upper
    exact kept.ranked child old parentId path above known link here upper
  owned other record live plain := by
    rw [amends.record] at live
    split at live
    · next here =>
      cases live
      subst here
      rcases folder with yes | bare
      · simp [plain] at yes
      · exact amends.bare kept.forested found bare
    · exact amends.bare kept.forested found (kept.owned other record live plain)

theorem getByPath (amends : store.Amends after id updated) (forested : store.Forested)
    (indexed : store.idToPath[id]? = some path) {other : Path} (elsewhere : other ≠ path)
    (found : after.getByPath other = some entry) : store.getByPath other = some entry := by
  obtain ⟨record, here⟩ := amends.forested.getByPath_eq_some.mp found
  rw [amends.place] at here
  rw [amends.record] at record
  split at record
  · next same =>
    rw [← same] at here
    exact absurd (Option.some.inj (here.symm.trans indexed)) elsewhere
  · exact forested.getByPath_eq_some.mpr ⟨record, here⟩

end Amends

theorem newlyLoaded_folder {snapshot : StoreSnapshot} {ids loaded marks : List EntryId}
    (listed : newlyLoaded snapshot ids loaded = .ok marks) :
    ∀ id ∈ marks, id ∈ loaded ∨ ∃ entry, snapshot.entries[id]? = some entry ∧ entry.isFolder = true := by
  induction ids generalizing loaded with
  | nil =>
    cases listed
    exact fun id member => .inl member
  | cons head rest ih =>
    rw [newlyLoaded] at listed
    split at listed
    · cases listed
    · next entry found =>
      split at listed
      · cases listed
      · next folder =>
        intro id member
        rcases ih listed id member with old | known
        · split at old
          · rcases List.mem_append.mp old with before | here
            · exact .inl before
            · rw [List.mem_singleton.mp here]
              exact .inr ⟨entry, found, by simpa using folder⟩
          · exact .inl old
        · exact .inr known

theorem markDirectoriesChildrenLoaded_kept (kept : store.Kept) (ids : List EntryId) :
    (store.markDirectoriesChildrenLoaded ids).2.Kept := by
  have later := markDirectoriesChildrenLoaded_forested kept.forested ids
  revert later
  unfold markDirectoriesChildrenLoaded
  split
  · exact fun _ => kept
  · exact fun _ => kept
  · next marks _ listed =>
    intro later
    have folders := newlyLoaded_folder listed
    refine ⟨later, ?_, kept.ranked, ?_⟩
    · intro id member
      rcases Finset.mem_union.mp member with old | new
      · exact kept.marked id old
      · rcases folders id (List.mem_toFinset.mp new) with never | ⟨entry, found, _⟩
        · simp at never
        · exact kept.forested.bounded id (by simp [found])
    · intro id entry found plain
      obtain ⟨unmarked, childless⟩ := kept.owned id entry found plain
      refine ⟨fun member => ?_, childless⟩
      rcases Finset.mem_union.mp member with old | new
      · exact unmarked old
      · rcases folders id (List.mem_toFinset.mp new) with never | ⟨other, known, folder⟩
        · simp at never
        · cases known.symm.trans found
          simp [plain] at folder

theorem markRootUnavailable_kept (kept : store.Kept) (rootId : EntryId) :
    (store.markRootUnavailable rootId).2.Kept := by
  have later := markRootUnavailable_forested kept.forested rootId
  revert later
  unfold markRootUnavailable
  dsimp only
  split
  · exact fun _ => kept
  · next root found =>
    split
    · exact fun _ => kept
    · split
      · exact fun _ => kept
      · intro later
        set gone := store.inner.subtree (store.inner.childrenOf rootId).reverse
        have loaded : (store.installUnavailable rootId root gone).inner.loadedDirectories =
            (store.inner.evict gone).loadedDirectories.erase rootId := by
          simp only [installUnavailable, unindex_inner]
          rfl
        have fewer : (store.inner.evict gone).loadedDirectories ⊆ store.inner.loadedDirectories := by
          exact Finset.filter_subset ..
        have counter : (store.installUnavailable rootId root gone).idCounter = store.idCounter := by
          simp only [installUnavailable, unindex_idCounter, publish_idCounter]
        have others {id : EntryId} {entry : Entry} (away : rootId ≠ id)
            (known : (store.installUnavailable rootId root gone).inner.entries[id]? = some entry) :
            store.inner.entries[id]? = some entry := by
          rw [installUnavailable_lookup, if_neg away, StoreSnapshot.evict_entries] at known
          split at known
          · cases known
          · exact known
        have places {id : EntryId} {path : Path}
            (indexed : (store.installUnavailable rootId root gone).idToPath[id]? = some path) :
            store.idToPath[id]? = some path := by
          rw [installUnavailable_idToPath kept.forested] at indexed
          split at indexed
          · cases indexed
          · exact indexed
        refine ⟨later, ?_, ?_, ?_⟩
        · refine kept.marked.later (fun id member => ?_) counter.ge
          rw [loaded] at member
          exact fewer (Finset.mem_of_mem_erase member)
        · intro id entry parentId path above known parent here upper
          by_cases own : rootId = id
          · subst own
            rw [installUnavailable_lookup, if_pos rfl] at known
            cases known
            exact kept.ranked _ root parentId path above found parent (places here) (places upper)
          · exact kept.ranked id entry parentId path above (others own known) parent (places here)
              (places upper)
        · intro id entry known plain
          by_cases here : rootId = id
          · subst here
            exact ⟨by rw [loaded]; simp, by simp [installUnavailable_childrenOf]⟩
          · have old := others here known
            obtain ⟨unmarked, childless⟩ := kept.owned id entry old plain
            refine ⟨fun member => ?_, ?_⟩
            · rw [loaded] at member
              exact unmarked (fewer (Finset.mem_of_mem_erase member))
            · rw [installUnavailable_childrenOf, childless, ite_self]

theorem forgetDirectory_kept (kept : store.Kept) (config : WatchConfig) (directory : Path) :
    (store.forgetDirectory config directory).2.Kept := by
  unfold forgetDirectory
  split
  · exact kept
  · next entry found =>
    split
    · have after := markRootUnavailable_kept kept entry.id
      split
      · next marked => rwa [marked] at after
      · next marked => rwa [marked] at after
    · exact (removeSubtree_shrinks kept.forested entry.id).kept kept

end EntryStore

end Mille
