import Mille.Binding.ReconcileSteps

/-! Which entries own children while the store is reconciled: a record that is no folder
keeps neither a child list nor a loaded mark, as long as no listing turns a known link to a
directory into something else. -/

namespace Mille

open Maps

/-- The paths a walked entry may be hung at. -/
def hangsAt (directory : Path) (walked : WalkedEntry) : List Path :=
  walked.parentPath.toList ++ if walked.path = directory then walked.path.parent.toList else []

namespace EntryStore

/-- A listing that leaves every owner a folder: it names each path once and each parent
before its children, hangs nothing on what is no folder, and what it shows as no folder was
known as a directory, or without a mark and with no children but those it clears. -/
structure Steady (store : EntryStore) (directory : Path) (cleared : List EntryId)
    (listing : List WalkedEntry) : Prop where
  distinct : (listing.map (·.path)).Nodup
  links : ∀ walked ∈ listing, walked.directoryLike = false → ∀ entry,
    store.getByPath walked.path = some entry → entry.kind = .directory ∨
      entry.id ∉ store.inner.loadedDirectories ∧ ∀ child ∈ store.inner.childrenOf entry.id, child ∈ cleared
  hung : ∀ before walked rest, listing = before ++ walked :: rest → ∀ above ∈ hangsAt directory walked,
    (∃ upper ∈ before, upper.path = above ∧ upper.directoryLike = true) ∨
      above ∉ listing.map (·.path) ∧ ∀ entry, store.getByPath above = some entry → entry.isFolder = true

def FolderAt (store : EntryStore) (path : Path) : Prop :=
  ∀ entry, store.getByPath path = some entry → entry.isFolder = true

def QuietAt (store : EntryStore) (path : Path) : Prop :=
  ∀ entry, store.getByPath path = some entry → entry.kind = .directory ∨ store.Bare entry.id

/-- A parent that may get children while the rest of a listing is still to come. -/
def Hangs (store : EntryStore) (rest : List WalkedEntry) (parentId : Option EntryId) : Prop :=
  ∀ id, parentId = some id → ∀ entry, store.inner.entries[id]? = some entry →
    entry.isFolder = true ∧ ∀ walked ∈ rest, walked.directoryLike = false →
      store.getByPath walked.path = some entry → entry.kind = .directory

/-- What holds between two entries of a listing, some of them waiting to be inserted. -/
structure Loop (start store : EntryStore) (listing before rest : List WalkedEntry)
    (pending : List (Path × Entry)) : Prop where
  split : listing = before ++ rest
  kept : store.Kept
  quiet : ∀ walked ∈ rest, walked.directoryLike = false → store.QuietAt walked.path
  folders : ∀ walked ∈ before, walked.directoryLike = true → store.FolderAt walked.path
  outside : ∀ path ∉ listing.map (·.path), ∀ entry, store.getByPath path = some entry →
    start.getByPath path = some entry
  waits : ∀ binding ∈ pending, store.Hangs rest binding.2.parentId ∧
    store.Above binding.2.parentId binding.1 ∧ ∃ walked ∈ before, walked.path = binding.1 ∧ binding.2.isFolder = walked.directoryLike

variable {start store after : EntryStore} {directory path : Path} {listing before rest : List WalkedEntry}
variable {walked : WalkedEntry} {pending : List (Path × Entry)} {id : EntryId} {entry existing : Entry}
variable {repositoryIgnore excludes : Option IgnoreMatcher} {cleared : List EntryId}

theorem Forested.path_unique (forested : store.Forested) {other : Path}
    (here : store.getByPath path = some entry) (there : store.getByPath other = some entry) : path = other := by
  have first := (forested.getByPath_eq_some.mp here).2
  have second := (forested.getByPath_eq_some.mp there).2
  exact Option.some.inj (first.symm.trans second)

theorem entryFromWalked_isFolder (walked : WalkedEntry) (parentId : Option EntryId) :
    (entryFromWalked walked parentId repositoryIgnore excludes).isFolder = walked.directoryLike := rfl

theorem Hangs.shrinks {parentId : Option EntryId} (hangs : store.Hangs rest parentId)
    (forested : store.Forested) (shrinks : store.Shrinks after) : after.Hangs rest parentId := by
  intro id same entry found
  obtain ⟨folder, directory⟩ := hangs id same entry (shrinks.record id entry found)
  exact ⟨folder, fun walked member plain here =>
    directory walked member plain (shrinks.getByPath forested here)⟩

theorem Hangs.tail {parentId : Option EntryId} (hangs : store.Hangs (walked :: rest) parentId) :
    store.Hangs rest parentId := by
  intro id same entry found
  obtain ⟨folder, directory⟩ := hangs id same entry found
  exact ⟨folder, fun other member => directory other (by simp [member])⟩

namespace Loop

theorem apart (loop : Loop start store listing before rest pending) (distinct : (listing.map (·.path)).Nodup)
    {earlier later : WalkedEntry} (first : earlier ∈ before) (next : later ∈ rest) :
    earlier.path ≠ later.path := by
  rw [loop.split, List.map_append] at distinct
  exact (List.nodup_append.mp distinct).2.2 _ (List.mem_map_of_mem first) _ (List.mem_map_of_mem next)

theorem shrinks (loop : Loop start store listing before rest pending) (shrinks : store.Shrinks after) :
    Loop start after listing before rest pending where
  split := loop.split
  kept := shrinks.kept loop.kept
  quiet walked member plain entry found := by
    have known := shrinks.getByPath loop.kept.forested found
    exact (loop.quiet walked member plain entry known).imp_right (shrinks.bare loop.kept.forested)
  folders walked member like entry found :=
    loop.folders walked member like entry (shrinks.getByPath loop.kept.forested found)
  outside path unlisted entry found :=
    loop.outside path unlisted entry (shrinks.getByPath loop.kept.forested found)
  waits binding member := by
    obtain ⟨hangs, above, source⟩ := loop.waits binding member
    exact ⟨hangs.shrinks loop.kept.forested shrinks,
      fun id parent path indexed => above id parent path (shrinks.place id path indexed), source⟩

theorem hangs_at (loop : Loop start store listing before (walked :: rest) pending)
    (steady : start.Steady directory cleared listing) {above : Path}
    (below : above ∈ hangsAt directory walked) (found : store.getByPath above = some entry) :
    entry.isFolder = true ∧ ∀ later ∈ walked :: rest, later.path ≠ above := by
  rcases steady.hung before walked rest loop.split above below with
    ⟨upper, member, same, like⟩ | ⟨unlisted, folder⟩
  · refine ⟨loop.folders upper member like entry (by rw [same]; exact found), fun later next here => ?_⟩
    exact loop.apart steady.distinct member next (same.trans here.symm)
  · refine ⟨folder entry (loop.outside above unlisted entry found), fun later next here => ?_⟩
    refine unlisted (here ▸ List.mem_map_of_mem ?_)
    rw [loop.split]
    exact List.mem_append_right _ next

theorem resolveParent_hangs (loop : Loop start store listing before (walked :: rest) pending)
    (steady : start.Steady directory cleared listing) :
    store.Hangs (walked :: rest) (store.resolveParent directory walked) := by
  have forested := loop.kept.forested
  -- A parent that is looked up by one of the entry's own paths.
  have looked {above : Path} (below : above ∈ hangsAt directory walked) {upper : Entry}
      (found : store.getByPath above = some upper) : store.Hangs (walked :: rest) (some upper.id) := by
    intro id same entry known
    cases same
    cases (forested.getByPath_eq_some.mp found).1.symm.trans known
    obtain ⟨folder, settled⟩ := loop.hangs_at steady below found
    exact ⟨folder, fun later member _ here => absurd (forested.path_unique here found) (settled later member)⟩
  unfold resolveParent
  cases known : (store.getByPath walked.path).bind (·.parentId) with
  | some parentId =>
    obtain ⟨existing, found, parent⟩ := Option.bind_eq_some_iff.mp known
    have child := (forested.getByPath_eq_some.mp found).1
    have owns : ¬ store.Bare parentId := fun bare =>
      forested.childless_iff.mp bare.2 _ existing child parent
    intro id same entry live
    cases same
    refine ⟨?_, fun later member plain here => ?_⟩
    · by_contra plain
      exact owns (loop.kept.owned _ entry live (by simpa using plain))
    · have stamp := forested.stamped _ entry live
      refine (loop.quiet later member plain entry here).resolve_right ?_
      rw [stamp]
      exact owns
  | none =>
    rw [Option.none_or]
    cases listed : walked.parentPath.bind store.getByPath with
    | some upper =>
      obtain ⟨above, reported, found⟩ := Option.bind_eq_some_iff.mp listed
      exact looked (by simp [hangsAt, reported]) found
    | none =>
      rw [Option.map_none, Option.none_or]
      split
      · next root =>
        cases upper : walked.path.parent.bind store.getByPath with
        | none => exact fun id same => by cases same
        | some upper =>
          obtain ⟨above, parent, found⟩ := Option.bind_eq_some_iff.mp upper
          refine looked ?_ found
          rw [hangsAt, if_pos root, parent]
          simp
      · exact fun id same => by cases same

theorem resolveParent_above (kept : store.Kept) (reported : walked.Reported) (directory : Path) :
    store.Above (store.resolveParent directory walked) walked.path ∧
      ∀ parentId, store.resolveParent directory walked = some parentId →
        store.inner.entries[parentId]?.isSome = true := by
  have forested := kept.forested
  have looked {above : Path} (up : walked.path.parent = some above) {upper : Entry}
      (found : store.getByPath above = some upper) :
      store.Above (some upper.id) walked.path ∧
        ∀ parentId, some upper.id = some parentId → store.inner.entries[parentId]?.isSome = true := by
    obtain ⟨live, indexed⟩ := forested.getByPath_eq_some.mp found
    refine ⟨fun id same path here => ?_, fun parentId same => ?_⟩
    · cases same
      rw [Option.some.inj (here.symm.trans indexed)]
      exact Path.parent_length up
    · cases same
      simp [live]
  have nobody : store.Above none walked.path ∧ ∀ parentId : EntryId, none = some parentId →
      store.inner.entries[parentId]?.isSome = true :=
    ⟨(fun id same => by cases same), (fun id same => by cases same)⟩
  unfold resolveParent
  cases known : (store.getByPath walked.path).bind (·.parentId) with
  | some parentId =>
    obtain ⟨existing, found, parent⟩ := Option.bind_eq_some_iff.mp known
    obtain ⟨child, indexed⟩ := forested.getByPath_eq_some.mp found
    refine ⟨fun id same above upper => ?_, fun id same => ?_⟩
    · cases same
      exact kept.ranked _ existing _ _ above child parent indexed upper
    · cases same
      exact forested.parent_live child parent
  | none =>
    rw [Option.none_or]
    cases listed : walked.parentPath.bind store.getByPath with
    | some upper =>
      obtain ⟨above, told, found⟩ := Option.bind_eq_some_iff.mp listed
      rcases reported with silent | same
      · simp [silent] at told
      · exact looked (same ▸ told) found
    | none =>
      rw [Option.map_none, Option.none_or]
      split
      · cases upper : walked.path.parent.bind store.getByPath with
        | none => exact nobody
        | some upper =>
          obtain ⟨above, parent, found⟩ := Option.bind_eq_some_iff.mp upper
          exact looked parent found
      · exact nobody

theorem defer (loop : Loop start store listing before (walked :: rest) pending) (entry : Entry)
    (hangs : store.Hangs (walked :: rest) entry.parentId) (above : store.Above entry.parentId walked.path)
    (like : entry.isFolder = walked.directoryLike)
    (unknown : store.getByPath walked.path = none) :
    Loop start store listing (before ++ [walked]) rest (pending ++ [(walked.path, entry)]) where
  split := by rw [loop.split]; simp
  kept := loop.kept
  quiet later member := loop.quiet later (by simp [member])
  folders upper member like := by
    rcases List.mem_append.mp member with earlier | here
    · exact loop.folders upper earlier like
    · rw [List.mem_singleton.mp here]
      intro entry found
      simp [unknown] at found
  outside := loop.outside
  waits binding member := by
    rcases List.mem_append.mp member with earlier | here
    · obtain ⟨hangs, above, upper, present, same⟩ := loop.waits binding earlier
      exact ⟨hangs.tail, above, upper, by simp [present], same⟩
    · rw [List.mem_singleton.mp here]
      exact ⟨hangs.tail, above, walked, by simp, rfl, like⟩

theorem replace (loop : Loop start store listing before (walked :: rest) pending) (entry : Entry)
    (hangs : store.Hangs (walked :: rest) entry.parentId) (above : store.Above entry.parentId walked.path)
    (like : entry.isFolder = walked.directoryLike)
    (found : store.getByPath walked.path = some existing) :
    Loop start (store.removeSubtree existing.id).2 listing (before ++ [walked]) rest
      (pending ++ [(walked.path, entry)]) := by
  have forested := loop.kept.forested
  have shrinks := removeSubtree_shrinks forested existing.id
  refine (loop.shrinks shrinks).defer entry (hangs.shrinks forested shrinks)
    (fun id parent path indexed => above id parent path (shrinks.place id path indexed)) like ?_
  cases still : (store.removeSubtree existing.id).2.getByPath walked.path with
  | none => rfl
  | some other =>
    cases (shrinks.getByPath forested still).symm.trans found
    have live := (shrinks.forested.getByPath_eq_some.mp still).1
    rw [removeSubtree_gone forested] at live
    cases live

/-- An entry that stays is updated in place. -/
theorem amend (loop : Loop start store listing before (walked :: rest) pending) (entry : Entry)
    (steady : start.Steady directory cleared listing) (like : entry.isFolder = walked.directoryLike)
    (kind : entry.kind = walked.kind) (found : store.getByPath walked.path = some existing)
    (stays : ¬ (existing.kind = .directory ∧ entry.kind ≠ .directory))
    (amends : store.Amends after existing.id entry) :
    Loop start after listing (before ++ [walked]) rest pending := by
  have forested := loop.kept.forested
  obtain ⟨record, indexed⟩ := forested.getByPath_eq_some.mp found
  have alone : walked.path ∉ rest.map (·.path) := by
    have distinct := steady.distinct
    rw [loop.split, List.map_append, List.map_cons] at distinct
    exact (List.nodup_cons.mp (List.nodup_append.mp distinct).2.1).1
  have changed {other : Entry} (here : after.getByPath walked.path = some other) : other = entry := by
    obtain ⟨live, place⟩ := amends.forested.getByPath_eq_some.mp here
    rw [amends.place] at place
    have same : existing.id = other.id := by
      have back := (forested.inverse _ _).mpr place
      exact Option.some.inj (((forested.inverse _ _).mpr indexed).symm.trans back)
    rw [amends.record, if_pos same] at live
    exact (Option.some.inj live).symm
  -- What is shown as no folder was no directory, so it had nothing to lose.
  have undirected (plain : walked.directoryLike = false) : existing.kind ≠ .directory := by
    intro directory
    refine stays ⟨directory, ?_⟩
    rw [kind]
    intro same
    simp [WalkedEntry.directoryLike, same] at plain
  refine ⟨by rw [loop.split]; simp, ?_, ?_, ?_, ?_, ?_⟩
  · refine amends.kept loop.kept record ?_
    cases plain : walked.directoryLike with
    | true => exact .inl (like.trans plain)
    | false =>
      exact .inr ((loop.quiet walked (by simp) plain existing found).resolve_left (undirected plain))
  · intro later member plain other here
    have elsewhere : later.path ≠ walked.path := by
      intro same
      exact alone (same ▸ List.mem_map_of_mem member)
    have known := amends.getByPath forested indexed elsewhere here
    exact (loop.quiet later (by simp [member]) plain other known).imp_right (amends.bare forested record)
  · intro upper member folder other here
    rcases List.mem_append.mp member with earlier | last
    · have elsewhere := loop.apart steady.distinct earlier (by simp : walked ∈ walked :: rest)
      exact loop.folders upper earlier folder other (amends.getByPath forested indexed elsewhere here)
    · rw [List.mem_singleton.mp last] at here folder
      rw [changed here, like, folder]
  · intro path unlisted other here
    refine loop.outside path unlisted other (amends.getByPath forested indexed ?_ here)
    rintro rfl
    refine unlisted (List.mem_map_of_mem ?_)
    rw [loop.split]
    simp
  · intro binding member
    obtain ⟨hangs, above, upper, present, same⟩ := loop.waits binding member
    refine ⟨?_, by rw [Above, amends.place]; exact above, upper, by simp [present], same⟩
    intro id parent other live
    rw [amends.record] at live
    split at live
    · next here =>
      cases live
      subst here
      obtain ⟨_, directory⟩ := hangs _ parent existing record
      refine ⟨?_, fun later next _ again => ?_⟩
      · rw [like]
        by_contra plain
        have no : walked.directoryLike = false := by simpa using plain
        exact undirected no (directory walked (by simp) no found)
      · have stamp := amends.forested.stamped existing.id entry (by rw [amends.record, if_pos rfl])
        have place := (amends.forested.getByPath_eq_some.mp again).2
        rw [stamp, amends.place, indexed] at place
        exact absurd (Option.some.inj place ▸ List.mem_map_of_mem next) alone
    · obtain ⟨folder, directory⟩ := hangs id parent other live
      refine ⟨folder, fun later next plain again => directory later (by simp [next]) plain ?_⟩
      refine amends.getByPath forested indexed ?_ again
      intro same
      exact alone (same ▸ List.mem_map_of_mem next)

/-- What waits is inserted below folders. -/
theorem flush (loop : Loop start store listing before rest pending) (after : EntryStore)
    (distinct : (listing.map (·.path)).Nodup)
    (steps : store.Shrinks after ∨ ∃ additions, store.Grows after additions ∧
      ∀ addition ∈ additions, ∃ binding ∈ pending, addition.path = binding.1 ∧
        addition.entry = { binding.2 with id := addition.id }) :
    Loop start after listing before rest [] := by
  rcases steps with shrinks | ⟨additions, grows, origin⟩
  · exact { loop.shrinks shrinks with waits := by simp }
  have forested := loop.kept.forested
  have source {addition : Addition} (member : addition ∈ additions) :
      store.Hangs rest addition.entry.parentId ∧ store.Above addition.entry.parentId addition.path ∧
        ∃ walked ∈ before, walked.path = addition.path ∧ addition.entry.isFolder = walked.directoryLike := by
    obtain ⟨binding, waiting, path, view⟩ := origin addition member
    obtain ⟨hangs, above, walked, present, same, like⟩ := loop.waits binding waiting
    refine ⟨by rw [view]; exact hangs, by rw [view, path]; exact above, walked, present,
      same.trans path.symm, ?_⟩
    rw [view]
    exact like
  refine ⟨loop.split, ?_, ?_, ?_, ?_, by simp⟩
  · exact grows.kept loop.kept (fun addition member parentId entry parent live =>
      ((source member).1 parentId parent entry live).1) fun addition member => (source member).2.1
  · intro walked member plain entry found
    rcases grows.getByPath forested found with ⟨addition, present, path, _⟩ | known
    · obtain ⟨_, _, upper, earlier, same, _⟩ := source present
      exact absurd (same.trans path) (loop.apart distinct earlier member)
    · by_cases hung : ∃ addition ∈ additions, addition.entry.parentId = some entry.id
      · obtain ⟨addition, present, parent⟩ := hung
        have live := (forested.getByPath_eq_some.mp known).1
        exact .inl (((source present).1 entry.id parent entry live).2 walked member plain known)
      · refine (loop.quiet walked member plain entry known).imp_right (grows.bare forested ?_)
        exact fun addition present parent => hung ⟨addition, present, parent⟩
  · intro walked member like entry found
    rcases grows.getByPath forested found with ⟨addition, present, path, view⟩ | known
    · obtain ⟨_, _, upper, earlier, same, folder⟩ := source present
      have one : upper = walked := by
        rw [loop.split, List.map_append] at distinct
        exact List.inj_on_of_nodup_map (List.nodup_append.mp distinct).1 earlier member (same.trans path)
      rw [← view, folder, one, like]
    · exact loop.folders walked member like entry known
  · intro path unlisted entry found
    rcases grows.getByPath forested found with ⟨addition, present, here, _⟩ | known
    · obtain ⟨_, _, upper, earlier, same, _⟩ := source present
      refine absurd ?_ unlisted
      rw [← here, ← same, loop.split]
      exact List.mem_map_of_mem (List.mem_append_left _ earlier)
    · exact loop.outside path unlisted entry known

end Loop

theorem Kept.below_longer (kept : store.Kept) {top low : EntryId} {topPath lowPath : Path}
    (below : Forest.Below store.inner.parentLink top low) (upper : store.idToPath[top]? = some topPath)
    (lower : store.idToPath[low]? = some lowPath) : topPath.length ≤ lowPath.length := by
  induction below generalizing lowPath with
  | self => rw [Option.some.inj (upper.symm.trans lower)]
  | @child low mid step rest ih =>
    obtain ⟨record, found, parent⟩ := StoreSnapshot.parentLink_eq_some.mp step
    have live := kept.forested.parent_live found parent
    obtain ⟨midPath, middle⟩ := Option.isSome_iff_exists.mp ((kept.forested.indexed mid).mpr live)
    have short := kept.ranked low record mid lowPath midPath found parent lower middle
    exact (ih middle).trans short.le

theorem Kept.outlives (kept : store.Kept) (found : store.getByPath path = some existing)
    {parentId : EntryId} (above : store.Above (some parentId) path)
    (live : store.inner.entries[parentId]?.isSome = true) :
    (store.removeSubtree existing.id).2.inner.entries[parentId]?.isSome = true := by
  obtain ⟨record, indexed⟩ := kept.forested.getByPath_eq_some.mp found
  rw [removeSubtree_lookup record, if_neg, live]
  rw [kept.forested.mem_subtree (by simp [record])]
  intro below
  obtain ⟨parentPath, upper⟩ := Option.isSome_iff_exists.mp ((kept.forested.indexed parentId).mpr live)
  have longer := kept.below_longer below indexed upper
  have shorter := above parentId rfl parentPath upper
  omega

namespace Loop

/-- One walked entry of the one-shot form, whatever its outcome. -/
theorem applyWalked (loop : Loop start store listing before (walked :: rest) [])
    (steady : start.Steady directory cleared listing) (reported : walked.Reported)
    {result : Except FxError ReconcileOutcome}
    (done : store.applyWalked directory repositoryIgnore excludes walked = (result, after)) :
    after.Kept ∧ ∀ out, result = .ok out → Loop start after listing (before ++ [walked]) rest [] := by
  have forested := loop.kept.forested
  obtain ⟨above, live⟩ := resolveParent_above loop.kept reported directory
  have hangs := loop.resolveParent_hangs steady
  set entry := entryFromWalked walked (store.resolveParent directory walked) repositoryIgnore excludes
    with record
  have like : entry.isFolder = walked.directoryLike := entryFromWalked_isFolder walked _
  cases known : store.getByPath walked.path with
  | none =>
    have waiting := loop.defer entry hangs above like known
    have steps := insert_steps forested walked.path entry live
    have next := waiting.flush (store.insert walked.path entry).2 steady.distinct (by
      rcases steps with shrinks | ⟨id, grows⟩
      · exact .inl shrinks
      · exact .inr ⟨_, grows, by simp⟩)
    simp only [EntryStore.applyWalked, known, ← record] at done
    split at done
    · next inserted =>
      cases done
      rw [inserted] at next
      exact ⟨next.kept, fun out same => by cases same⟩
    · next inserted =>
      cases done
      rw [inserted] at next
      exact ⟨next.kept, fun _ _ => next⟩
  | some existing =>
    by_cases replaced : existing.kind = .directory ∧ entry.kind ≠ .directory
    · have waiting := loop.replace entry hangs above like known
      have outlive : ∀ parentId, entry.parentId = some parentId →
          (store.removeSubtree existing.id).2.inner.entries[parentId]?.isSome = true := by
        intro parentId parent
        have resolved : store.resolveParent directory walked = some parentId := parent
        exact loop.kept.outlives known (resolved ▸ above) (live parentId resolved)
      have steps := insert_steps (removeSubtree_forested forested existing.id) walked.path entry outlive
      have next := waiting.flush ((store.removeSubtree existing.id).2.insert walked.path entry).2
        steady.distinct (by
          rcases steps with shrinks | ⟨id, grows⟩
          · exact .inl shrinks
          · exact .inr ⟨_, grows, by simp⟩)
      simp only [EntryStore.applyWalked, known, ← record, if_pos replaced] at done
      split at done
      · next inserted =>
        cases done
        rw [inserted] at next
        exact ⟨next.kept, fun out same => by cases same⟩
      · next inserted =>
        cases done
        rw [inserted] at next
        exact ⟨next.kept, fun _ _ => next⟩
    · simp only [EntryStore.applyWalked, known, ← record, if_neg replaced] at done
      have found := (forested.getByPath_eq_some.mp known).1
      rcases update_steps forested entry found with ⟨shrinks, error, failed⟩ | amends
      · have same : store.update existing.id entry = (.error error, (store.update existing.id entry).2) :=
          Prod.ext failed rfl
        rw [same] at done
        cases done
        exact ⟨shrinks.kept loop.kept, fun out same => by cases same⟩
      · have next := loop.amend { entry with id := existing.id } steady like rfl known
          replaced amends
        split at done
        · next updated =>
          cases done
          rw [updated] at next
          exact ⟨next.kept, fun out same => by cases same⟩
        · next updated =>
          cases done
          rw [updated] at next
          exact ⟨next.kept, fun _ _ => next⟩

theorem applyAll {out : ReconcileOutcome} (loop : Loop start store listing before rest [])
    (steady : start.Steady directory cleared listing) (reported : ∀ walked ∈ listing, walked.Reported)
    {result : Except FxError ReconcileOutcome}
    (done : applyEach (fun store walked =>
      store.applyWalked directory repositoryIgnore excludes walked) store out rest = (result, after)) :
    after.Kept := by
  induction rest generalizing store before out with
  | nil =>
    cases done
    exact loop.kept
  | cons walked rest ih =>
    have told := reported walked (by rw [loop.split]; simp)
    rw [applyEach] at done
    cases step : store.applyWalked directory repositoryIgnore excludes walked with
    | mk outcome mid =>
      obtain ⟨kept, next⟩ := loop.applyWalked steady told step
      rw [step] at done
      cases outcome with
      | error error =>
        cases done
        exact kept
      | ok change => exact ih (next change rfl) done

/-- The loop of a progressive page: what it adds waits. -/
theorem collectBatch {out : ReconcileOutcome} {page : List WalkedEntry}
    (loop : Loop start store listing before (page ++ rest) pending)
    (steady : start.Steady directory cleared listing) (reported : ∀ walked ∈ listing, walked.Reported)
    {result : Except FxError (ReconcileOutcome × List (Path × Entry))}
    (done : EntryStore.collectBatch directory repositoryIgnore excludes store out pending page = (result, after)) :
    after.Kept ∧ ∀ change additions, result = .ok (change, additions) →
      Loop start after listing (before ++ page) rest additions := by
  induction page generalizing store before out pending with
  | nil =>
    cases done
    refine ⟨loop.kept, fun change additions same => ?_⟩
    cases same
    rw [List.append_nil]
    exact loop
  | cons walked page ih =>
    rw [List.cons_append] at loop
    have told := reported walked (by rw [loop.split]; simp)
    have forested := loop.kept.forested
    obtain ⟨above, _⟩ := resolveParent_above loop.kept told directory
    have hangs := loop.resolveParent_hangs steady
    rw [EntryStore.collectBatch] at done
    set entry := entryFromWalked walked (store.resolveParent directory walked) repositoryIgnore excludes
    have like : entry.isFolder = walked.directoryLike := entryFromWalked_isFolder walked _
    have order : before ++ walked :: page = before ++ [walked] ++ page := by simp
    rw [order]
    cases known : store.getByPath walked.path with
    | none =>
      simp only [known] at done
      exact ih (loop.defer entry hangs above like known) done
    | some existing =>
      by_cases replaced : existing.kind = .directory ∧ entry.kind ≠ .directory
      · simp only [known, if_pos replaced] at done
        exact ih (loop.replace entry hangs above like known) done
      · simp only [known, if_neg replaced] at done
        have found := (forested.getByPath_eq_some.mp known).1
        rcases update_steps forested entry found with ⟨shrinks, error, failed⟩ | amends
        · have same : store.update existing.id entry = (.error error, (store.update existing.id entry).2) :=
            Prod.ext failed rfl
          rw [same] at done
          cases done
          exact ⟨shrinks.kept loop.kept, fun _ _ same => by cases same⟩
        · have next := loop.amend { entry with id := existing.id } steady like rfl known replaced amends
          split at done
          · next updated =>
            cases done
            rw [updated] at next
            exact ⟨next.kept, fun _ _ same => by cases same⟩
          · next updated =>
            rw [updated] at next
            exact ih next done

theorem applyWalkedBatch {page : List WalkedEntry} (loop : Loop start store listing before (page ++ rest) [])
    (steady : start.Steady directory cleared listing) (reported : ∀ walked ∈ listing, walked.Reported)
    {result : Except FxError ReconcileOutcome}
    (done : store.applyWalkedBatch directory repositoryIgnore excludes page = (result, after)) :
    after.Kept ∧ ∀ out, result = .ok out → Loop start after listing (before ++ page) rest [] := by
  unfold EntryStore.applyWalkedBatch at done
  cases collected : EntryStore.collectBatch directory repositoryIgnore excludes store .empty [] page with
  | mk outcome mid =>
    obtain ⟨kept, next⟩ := loop.collectBatch steady reported collected
    rw [collected] at done
    cases outcome with
    | error error =>
      cases done
      exact ⟨kept, fun _ same => by cases same⟩
    | ok found =>
      have flushed := (next found.1 found.2 rfl).flush _ steady.distinct
        (insertBatch_steps kept.forested found.2)
      dsimp only at done
      split at done
      · next inserted =>
        cases done
        rw [inserted] at flushed
        exact ⟨flushed.kept, fun _ same => by cases same⟩
      · next inserted =>
        cases done
        rw [inserted] at flushed
        exact ⟨flushed.kept, fun _ _ => flushed⟩

theorem applyPages {out : ReconcileOutcome} {pages : List (List WalkedEntry)}
    (loop : Loop start store listing before (pages.flatten ++ rest) [])
    (steady : start.Steady directory cleared listing) (reported : ∀ walked ∈ listing, walked.Reported)
    {result : Except FxError ReconcileOutcome}
    (done : applyEach (fun store page =>
      store.applyWalkedBatch directory repositoryIgnore excludes page) store out pages = (result, after)) :
    after.Kept := by
  induction pages generalizing store before out with
  | nil =>
    cases done
    exact loop.kept
  | cons page pages ih =>
    rw [List.flatten_cons, List.append_assoc] at loop
    rw [applyEach] at done
    cases step : store.applyWalkedBatch directory repositoryIgnore excludes page with
    | mk outcome mid =>
      obtain ⟨kept, next⟩ := loop.applyWalkedBatch steady reported step
      rw [step] at done
      cases outcome with
      | error error =>
        cases done
        exact kept
      | ok change => exact ih (next change rfl) done

end Loop

theorem missingPaths_indexed (forested : store.Forested) {depth : Option Nat} {diskPaths : List Path}
    {unread : List (Path × ReadFailure)} :
    ∀ lost ∈ store.missingPaths directory depth diskPaths unread, ∀ entry,
      store.inner.entries[lost.2]? = some entry → store.idToPath[lost.2]? = some lost.1 := by
  intro lost member entry _
  have listed : lost ∈ store.pathsUnder directory := by
    have sorted := List.mem_mergeSort.mp member
    exact (List.mem_filter.mp sorted).1
  unfold pathsUnder at listed
  split at listed
  · have bound := (List.mem_filter.mp listed).1
    exact (forested.inverse _ _).mp (Std.ExtTreeMap.mem_toList_iff_getElem?_eq_some.mp bound)
  · obtain ⟨id, _, found⟩ := List.mem_filterMap.mp listed
    obtain ⟨path, indexed, rfl⟩ := Option.map_eq_some_iff.mp found
    exact indexed

end EntryStore

end Mille
