import Mille.Core.Resume

/-! The resume walk is the exact difference of two sets of paths: those of the snapshot's entries
and those the disk walk of each root finds. -/

namespace Mille

open Maps

variable {store : EntryStore} {rootStats : List RootStat} {id : EntryId} {path root : Path} {levels : Nat}

namespace EntryStore

/-- An entry with at most so many entries on its way up to a root, itself and the root included. -/
inductive Within (store : EntryStore) : Nat → EntryId → Prop where
  | root {id : EntryId} {entry : Entry} {levels : Nat} (found : store.inner.entries[id]? = some entry)
      (top : entry.parentId = none) : Within store (levels + 1) id
  | child {id parentId : EntryId} {entry : Entry} {levels : Nat} (found : store.inner.entries[id]? = some entry)
      (link : entry.parentId = some parentId) (above : Within store levels parentId) : Within store (levels + 1) id

/-- The root stats are those of the roots, in order. -/
def StatsOf (store : EntryStore) (rootStats : List RootStat) : Prop :=
  rootStats.map (fun stat => some stat.path) = store.inner.roots.map fun root => store.idToPath[root]?

/-- The stamp of the entry a path leads to. -/
def stampAt (store : EntryStore) (path : Path) : Option Stamp :=
  (store.getByPath path).map fun entry => (entry.mtimeMs, entry.size)

end EntryStore

variable {nextEntryId : Nat} {milleVersion : String} {createdMs : Int}

section Paths

theorem climb_spec (coherent : store.Coherent) (within : store.Within levels id) (below : List String) :
    ∃ rootId rootName names, (snapshotToResume store.inner nextEntryId rootStats milleVersion createdMs).climb levels id below =
        some (rootId, rootName :: (names ++ below)) ∧ store.inner.parentLink rootId = some none ∧
      ∀ rootPath, store.idToPath[rootId]? = some rootPath →
        store.idToPath[id]? = some (names.foldl (fun out name => out.push (.utf8 name)) rootPath) := by
  induction within generalizing below with
  | @root id entry levels found top =>
    refine ⟨id, entry.name, [], ?_, StoreSnapshot.parentLink_eq_some.mpr ⟨entry, found, top⟩, fun rootPath known => known⟩
    rw [ResumeSnapshot.climb]
    simp [snapshotToResume, found, top]
  | @child id parentId entry levels found link _ ih =>
    obtain ⟨rootId, rootName, names, climbed, top, leads⟩ := ih (entry.name :: below)
    refine ⟨rootId, rootName, names ++ [entry.name], ?_, top, ?_⟩
    · rw [ResumeSnapshot.climb]
      simpa [snapshotToResume, found, link] using climbed
    · intro rootPath known
      obtain ⟨parentPath, above, here⟩ := coherent id entry parentId found link
      have same := Option.some.inj (above.symm.trans (leads rootPath known))
      rw [here, same, List.foldl_append]
      rfl

theorem stat_of_root (stats : store.StatsOf rootStats) {rootId : EntryId} (member : rootId ∈ store.inner.roots) :
    ∃ position stat, store.inner.roots.findIdx? (· = rootId) = some position ∧ rootStats[position]? = some stat ∧
      store.idToPath[rootId]? = some stat.path := by
  obtain ⟨position, found⟩ : ∃ position, store.inner.roots.findIdx? (· = rootId) = some position := by
    rw [← Option.isSome_iff_exists, List.findIdx?_isSome, List.any_eq_true]
    exact ⟨rootId, member, by simp⟩
  obtain ⟨bound, here, _⟩ := List.findIdx?_eq_some_iff_getElem.mp found
  have paired := congrArg (·[position]?) stats
  simp only [List.getElem?_map, List.getElem?_eq_getElem bound, of_decide_eq_true here, Option.map_some,
    Option.map_eq_some_iff] at paired
  obtain ⟨stat, listed, same⟩ := paired
  exact ⟨position, stat, found, listed, same.symm⟩

variable (forested : store.Forested) (coherent : store.Coherent) (stats : store.StatsOf rootStats)
variable (shallow : ∀ id, store.Live id → store.Within maxAncestorWalk id)

include forested coherent stats shallow

theorem entryPath_eq (id : EntryId) :
    (snapshotToResume store.inner nextEntryId rootStats milleVersion createdMs).entryPath id = store.idToPath[id]? := by
  by_cases live : store.Live id
  · obtain ⟨rootId, rootName, names, climbed, top, leads⟩ :=
      @climb_spec store rootStats id _ nextEntryId milleVersion createdMs coherent (shallow id live) []
    obtain ⟨position, stat, found, listed, known⟩ := stat_of_root stats ((forested.linked.root_iff rootId).mpr top)
    have position' : (snapshotToResume store.inner nextEntryId rootStats milleVersion createdMs).roots.findIdx? (· = rootId) = some position := found
    have listed' : (snapshotToResume store.inner nextEntryId rootStats milleVersion createdMs).rootStats[position]? = some stat := listed
    rw [ResumeSnapshot.entryPath, climbed]
    dsimp only
    rw [position']
    dsimp only
    rw [listed', leads stat.path known, List.append_nil]
    rfl
  · have unindexed : store.idToPath[id]? = none := by
      rw [← Option.not_isSome_iff_eq_none, forested.indexed id]
      exact live
    have unknown : store.inner.entries[id]? = none := by
      rw [← Option.not_isSome_iff_eq_none]
      exact live
    have dead : (snapshotToResume store.inner nextEntryId rootStats milleVersion createdMs).climb maxAncestorWalk id [] = none := by
      rw [maxAncestorWalk, ResumeSnapshot.climb]
      simp [snapshotToResume, unknown]
    rw [ResumeSnapshot.entryPath, dead, unindexed]

theorem lookup_snapPaths (path : Path) :
    (snapshotToResume store.inner nextEntryId rootStats milleVersion createdMs).snapPaths[path]? = store.stampAt path := by
  have placed (id : EntryId) : (snapshotToResume store.inner nextEntryId rootStats milleVersion createdMs).entryPath id = store.idToPath[id]? :=
    entryPath_eq forested coherent stats shallow id
  have entries : (snapshotToResume store.inner nextEntryId rootStats milleVersion createdMs).entries = store.inner.entries := rfl
  have keys : ((store.inner.entries.toList.filterMap fun held => (store.idToPath[held.1]?).map fun path =>
      (path, (held.2.mtimeMs, held.2.size))).map Prod.fst) =
        store.inner.entries.keys.filterMap fun id => store.idToPath[id]? := by
    rw [← Std.ExtTreeMap.map_fst_toList_eq_keys, List.map_filterMap, List.filterMap_map]
    congr 1
    funext held
    simp [Function.comp_def]
  have distinct : (store.inner.entries.keys.filterMap fun id => store.idToPath[id]?).Nodup := by
    apply Std.ExtTreeMap.nodup_keys.filterMap
    intro left right path one two
    exact Option.some.inj (((forested.inverse path left).mpr one).symm.trans ((forested.inverse path right).mpr two))
  rw [ResumeSnapshot.snapPaths, entries]
  simp only [placed]
  apply Option.ext
  intro stamp
  rw [lookup_insertAll (keys ▸ distinct)]
  simp only [List.mem_filterMap, Option.map_eq_some_iff, Prod.mk.injEq, Prod.exists,
    Std.ExtTreeMap.mem_toList_iff_getElem?_eq_some, EntryStore.stampAt, EntryStore.getByPath, Option.bind_eq_some_iff,
    EntryStore.getById, Std.ExtTreeMap.getElem?_empty, reduceCtorEq, and_false, or_false]
  constructor
  · rintro ⟨id, entry, found, _, indexed, rfl, rfl⟩
    exact ⟨entry, ⟨id, (forested.inverse _ _).mpr indexed, found⟩, rfl⟩
  · rintro ⟨entry, ⟨id, known, found⟩, rfl⟩
    exact ⟨id, entry, found, path, (forested.inverse _ _).mp known, rfl, rfl⟩

end Paths

section Difference

variable {held : Path → Option Stamp} {roots : List Path} {state : Path → Option (List WalkedEntry)}
variable {walked : List WalkedEntry} {event : ResumeEvent} {events : List ResumeEvent}

/-- The entries of a complete walk: each path once, all of them at the root or below it. -/
structure CompleteWalk (root : Path) (walked : List WalkedEntry) : Prop where
  distinct : (walked.map (·.path)).Nodup
  below : ∀ entry ∈ walked, entry.path.startsWith root = true

/-- The events a root calls for: that it is missing, or the difference of the entries below it
and a complete walk. -/
inductive Expected (held : Path → Option Stamp) (root : Path) : Option (List WalkedEntry) → ResumeEvent → Prop where
  | rootDisappeared : Expected held root none (.rootDisappeared root)
  | appeared {walked : List WalkedEntry} {entry : WalkedEntry} (member : entry ∈ walked)
      (absent : held entry.path = none) : Expected held root (some walked) (.appeared entry.path)
  | disappeared {walked : List WalkedEntry} {path : Path} (below : path.startsWith root = true)
      (known : (held path).isSome = true) (absent : path ∉ walked.map (·.path)) :
      Expected held root (some walked) (.disappeared path)
  | modified {walked : List WalkedEntry} {entry : WalkedEntry} {stamp : Stamp} (member : entry ∈ walked)
      (known : held entry.path = some stamp) (differs : stamp ≠ (entry.mtimeMs, entry.size)) :
      Expected held root (some walked) (.modified entry.path)

/-- What an event does to a set of paths. -/
def ResumeEvent.applyTo (paths : Set Path) : ResumeEvent → Set Path
  | .appeared path => insert path paths
  | .disappeared path => paths \ {path}
  | .modified _ => paths
  | .rootDisappeared root => {path ∈ paths | path.startsWith root = false}

def replay (events : List ResumeEvent) (paths : Set Path) : Set Path := events.foldl ResumeEvent.applyTo paths

/-- The events that take a path away. -/
def ResumeEvent.Removes (path : Path) : ResumeEvent → Prop
  | .disappeared gone => gone = path
  | .rootDisappeared root => path.startsWith root = true
  | _ => False

/-- Where nothing that appears is taken away, the order of the events does not matter. -/
theorem mem_replay (paths : Set Path) (steady : .appeared path ∈ events → ∀ event ∈ events, ¬event.Removes path) :
    path ∈ replay events paths ↔
      (path ∈ paths ∨ .appeared path ∈ events) ∧ ∀ event ∈ events, ¬event.Removes path := by
  induction events generalizing paths with
  | nil => simp [replay]
  | cons first rest ih =>
    have later : .appeared path ∈ rest → ∀ event ∈ rest, ¬event.Removes path := fun appears event member =>
      steady (List.mem_cons_of_mem first appears) event (List.mem_cons_of_mem first member)
    rw [replay, List.foldl_cons]
    refine (ih _ later).trans ?_
    rw [List.forall_mem_cons, List.mem_cons]
    cases first with
    | appeared found =>
      by_cases here : path = found
      · subst here
        have spared := steady List.mem_cons_self
        simp [ResumeEvent.applyTo, ResumeEvent.Removes]
      · simp [ResumeEvent.applyTo, ResumeEvent.Removes, here]
    | disappeared gone =>
      by_cases here : gone = path
      · subst here
        have absent : .appeared gone ∉ rest := fun appears =>
          steady (List.mem_cons_of_mem _ appears) _ List.mem_cons_self rfl
        simp [ResumeEvent.applyTo, ResumeEvent.Removes, absent]
      · simp [ResumeEvent.applyTo, ResumeEvent.Removes, here, Ne.symm here]
    | modified changed => simp [ResumeEvent.applyTo, ResumeEvent.Removes]
    | rootDisappeared root =>
      by_cases here : path.startsWith root = true
      · have absent : .appeared path ∉ rest := fun appears =>
          steady (List.mem_cons_of_mem _ appears) _ List.mem_cons_self here
        simp [ResumeEvent.applyTo, ResumeEvent.Removes, absent, here]
      · simp [ResumeEvent.applyTo, ResumeEvent.Removes, here]

variable (apart : ∀ left ∈ roots, ∀ right ∈ roots, ∀ path : Path,
  path.startsWith left = true → path.startsWith right = true → left = right)
variable (covered : ∀ path : Path, (held path).isSome = true → ∃ root ∈ roots, path.startsWith root = true)
variable (complete : ∀ root ∈ roots, ∀ walked, state root = some walked → CompleteWalk root walked)
variable (meant : ∀ event, event ∈ events ↔ ∃ root ∈ roots, Expected held root (state root) event)

include apart complete meant

theorem not_removes_walked (member : root ∈ roots) (found : state root = some walked)
    (present : path ∈ walked.map (·.path)) : ∀ event ∈ events, ¬event.Removes path := by
  obtain ⟨entry, listed, rfl⟩ := List.mem_map.mp present
  have under := (complete root member walked found).below entry listed
  intro event occurs removes
  obtain ⟨other, also, expected⟩ := (meant event).mp occurs
  cases event with
  | appeared _ => exact removes
  | modified _ => exact removes
  | disappeared gone =>
    cases removes
    generalize answer : state other = reply at expected
    cases expected with
    | disappeared below _ absent =>
      have same := apart root member other also _ under below
      subst same
      rw [found] at answer
      cases answer
      exact absent present
  | rootDisappeared gone =>
    generalize answer : state other = reply at expected
    cases expected with
    | rootDisappeared =>
      have same := apart root member other also _ under removes
      subst same
      rw [found] at answer
      cases answer

include covered

theorem mem_replay_held : path ∈ replay events {path | (held path).isSome = true} ↔
    ∃ root ∈ roots, ∃ walked, state root = some walked ∧ path ∈ walked.map (·.path) := by
  have appears (path : Path) (occurs : .appeared path ∈ events) :
      ∃ root ∈ roots, ∃ walked, state root = some walked ∧ path ∈ walked.map (·.path) := by
    obtain ⟨root, member, expected⟩ := (meant _).mp occurs
    generalize answer : state root = reply at expected
    cases expected with
    | appeared listed _ => exact ⟨root, member, _, answer, List.mem_map_of_mem listed⟩
  rw [mem_replay _ fun occurs => by
    obtain ⟨root, member, walked, found, present⟩ := appears path occurs
    exact not_removes_walked apart complete meant member found present]
  constructor
  · rintro ⟨known | occurs, spared⟩
    · obtain ⟨root, member, under⟩ := covered path known
      cases found : state root with
      | none =>
        have occurs := (meant (.rootDisappeared root)).mpr ⟨root, member, found ▸ .rootDisappeared⟩
        exact absurd under (spared _ occurs)
      | some walked =>
        by_contra missed
        have absent : path ∉ walked.map (·.path) := fun present => missed ⟨root, member, walked, found, present⟩
        have occurs := (meant (.disappeared path)).mpr ⟨root, member, found ▸ .disappeared under known absent⟩
        exact spared _ occurs rfl
    · exact appears path occurs
  · rintro ⟨root, member, walked, found, present⟩
    refine ⟨?_, not_removes_walked apart complete meant member found present⟩
    obtain ⟨entry, listed, rfl⟩ := List.mem_map.mp present
    cases known : held entry.path with
    | none => exact .inr ((meant _).mpr ⟨root, member, found ▸ .appeared listed known⟩)
    | some stamp => exact .inl (by simp [known])

end Difference

section Rounds

variable {snap : ResumeSnapshot} {held : Path → Option Stamp} {walked : List WalkedEntry} {event : ResumeEvent}
variable {state : Path → Option (List WalkedEntry)} {reads : Path → RootRead}

theorem lookup_diskPaths (distinct : (walked.map (·.path)).Nodup) {stamp : Stamp} :
    (ResumeSnapshot.diskPaths walked)[path]? = some stamp ↔
      ∃ entry ∈ walked, entry.path = path ∧ (entry.mtimeMs, entry.size) = stamp := by
  have keys : (walked.map fun entry => (entry.path, (entry.mtimeMs, entry.size))).map Prod.fst = walked.map (·.path) := by
    rw [List.map_map]
    rfl
  rw [ResumeSnapshot.diskPaths, lookup_insertAll (keys ▸ distinct), List.mem_map]
  simp

theorem mem_diskPaths : path ∈ (ResumeSnapshot.diskPaths walked).keys ↔ path ∈ walked.map (·.path) := by
  rw [Std.ExtTreeMap.mem_keys, Std.ExtTreeMap.mem_iff_isSome_getElem?, ResumeSnapshot.diskPaths, isSome_insertAll,
    List.map_map]
  simp [Function.comp_def]

/-- The events of a walked root. -/
theorem mem_diffRoot (paths : ∀ path, snap.snapPaths[path]? = held path) (complete : CompleteWalk root walked) :
    event ∈ snap.diffRoot root walked ↔ Expected held root (some walked) event := by
  have contains (path : Path) : snap.snapPaths.contains path = (held path).isSome := by
    rw [← paths, Std.ExtTreeMap.contains_eq_isSome_getElem?]
  rw [ResumeSnapshot.diffRoot, List.mem_append]
  constructor
  · rintro (appears | compared)
    · obtain ⟨path, listed, rfl⟩ := List.mem_map.mp appears
      rw [List.mem_filter, mem_diskPaths, contains] at listed
      obtain ⟨entry, member, rfl⟩ := List.mem_map.mp listed.1
      exact .appeared member (by simpa using listed.2)
    · obtain ⟨⟨path, stamp⟩, listed, emitted⟩ := List.mem_filterMap.mp compared
      rw [List.mem_filter, Std.ExtTreeMap.mem_toList_iff_getElem?_eq_some, paths] at listed
      obtain ⟨known, below⟩ := listed
      cases found : (ResumeSnapshot.diskPaths walked)[path]? with
      | none =>
        simp only [ResumeSnapshot.compareHeld, found, Option.some.injEq] at emitted
        subst emitted
        refine .disappeared below (by simp [known]) ?_
        rw [← mem_diskPaths, Std.ExtTreeMap.mem_keys, Std.ExtTreeMap.mem_iff_isSome_getElem?, found]
        simp
      | some other =>
        simp only [ResumeSnapshot.compareHeld, found, Option.ite_none_right_eq_some, Option.some.injEq] at emitted
        obtain ⟨differs, rfl⟩ := emitted
        obtain ⟨entry, member, rfl, rfl⟩ := (lookup_diskPaths complete.distinct).mp found
        refine .modified member known fun same => ?_
        subst same
        simp at differs
  · intro expected
    cases expected with
    | @appeared _ entry member absent =>
      refine .inl (List.mem_map.mpr ⟨entry.path, ?_, rfl⟩)
      rw [List.mem_filter, mem_diskPaths, contains, absent]
      exact ⟨List.mem_map_of_mem member, rfl⟩
    | @disappeared _ path below known absent =>
      obtain ⟨stamp, known⟩ := Option.isSome_iff_exists.mp known
      refine .inr (List.mem_filterMap.mpr ⟨(path, stamp), ?_, ?_⟩)
      · rw [List.mem_filter, Std.ExtTreeMap.mem_toList_iff_getElem?_eq_some, paths]
        exact ⟨known, below⟩
      · have missing : (ResumeSnapshot.diskPaths walked)[path]? = none := by
          rw [← mem_diskPaths, Std.ExtTreeMap.mem_keys, Std.ExtTreeMap.mem_iff_isSome_getElem?] at absent
          simpa using absent
        simp [ResumeSnapshot.compareHeld, missing]
    | @modified _ entry stamp member known differs =>
      refine .inr (List.mem_filterMap.mpr ⟨(entry.path, stamp), ?_, ?_⟩)
      · rw [List.mem_filter, Std.ExtTreeMap.mem_toList_iff_getElem?_eq_some, paths]
        exact ⟨known, complete.below entry member⟩
      · have found : (ResumeSnapshot.diskPaths walked)[entry.path]? = some (entry.mtimeMs, entry.size) :=
          (lookup_diskPaths complete.distinct).mpr ⟨entry, member, rfl, rfl⟩
        have changed : entry.mtimeMs ≠ stamp.1 ∨ entry.size ≠ stamp.2 := by
          by_contra both
          rw [not_or, not_not, not_not] at both
          exact differs (Prod.ext both.1.symm both.2.symm)
        simp only [ResumeSnapshot.compareHeld, found]
        rw [if_pos changed]

theorem compareHeld_path {disk : Std.ExtTreeMap Path Stamp} {entry : Path × Stamp}
    (emitted : ResumeSnapshot.compareHeld disk entry = some event) :
    event = .disappeared entry.1 ∨ event = .modified entry.1 := by
  unfold ResumeSnapshot.compareHeld at emitted
  split at emitted
  · exact .inl (Option.some.inj emitted).symm
  · split at emitted
    · exact .inr (Option.some.inj emitted).symm
    · cases emitted

theorem diffRoot_nodup : (snap.diffRoot root walked).Nodup := by
  rw [ResumeSnapshot.diffRoot]
  apply List.Nodup.append
  · apply List.Nodup.map
    · intro left right same
      exact ResumeEvent.appeared.inj same
    · exact Std.ExtTreeMap.nodup_keys.filter _
  · -- each path of the snapshot is there once and yields at most one event
    have once : (snap.snapPaths.toList.filter fun held => held.1.startsWith root).Pairwise fun left right =>
        left.1 ≠ right.1 := by
      apply List.Pairwise.filter
      rw [← List.pairwise_map (f := Prod.fst), Std.ExtTreeMap.map_fst_toList_eq_keys]
      exact Std.ExtTreeMap.nodup_keys
    refine List.Pairwise.filterMap _ ?_ once
    intro left right distinct one first two second same
    subst same
    rcases compareHeld_path first with rfl | rfl
    · rcases compareHeld_path second with again | again
      · exact distinct (ResumeEvent.disappeared.inj again)
      · cases again
    · rcases compareHeld_path second with again | again
      · cases again
      · exact distinct (ResumeEvent.modified.inj again)
  · intro event appears compared
    obtain ⟨path, _, rfl⟩ := List.mem_map.mp appears
    obtain ⟨held, _, emitted⟩ := List.mem_filterMap.mp compared
    rcases compareHeld_path emitted with same | same
    · cases same
    · cases same

/-- What a root's round reads of a state of the disk. -/
def Shows (read : RootRead) (root : Path) : Option (List WalkedEntry) → Prop
  | none => read.present = false ∨ ∃ path, read.report.intoComplete = .error (.io .enoent path)
  | some walked => read.present = true ∧ read.report.intoComplete = .ok walked ∧ CompleteWalk root walked

/-- The events of one round. -/
def roundOf (snap : ResumeSnapshot) (root : Path) : Option (List WalkedEntry) → List ResumeEvent
  | none => [.rootDisappeared root]
  | some walked => snap.diffRoot root walked

theorem rootEvents_eq {read : RootRead} {answer : Option (List WalkedEntry)} (shows : Shows read root answer) :
    snap.rootEvents root read = .ok (roundOf snap root answer) := by
  rw [ResumeSnapshot.rootEvents]
  cases answer with
  | none =>
    rcases shows with absent | ⟨path, gone⟩
    · rw [absent]
      rfl
    · rw [gone]
      split <;> rfl
  | some walked =>
    obtain ⟨present, answered, _⟩ := shows
    rw [present, answered]
    rfl

theorem allEvents_eq (stats : List RootStat) (shows : ∀ stat ∈ stats, Shows (reads stat.path) stat.path (state stat.path)) :
    snap.allEvents reads stats = .ok (stats.flatMap fun stat => roundOf snap stat.path (state stat.path)) := by
  induction stats with
  | nil => rfl
  | cons stat rest ih =>
    obtain ⟨here, others⟩ := List.forall_mem_cons.mp shows
    rw [ResumeSnapshot.allEvents, rootEvents_eq here, ih others]
    rfl

theorem roundOf_below {answer : Option (List WalkedEntry)} (paths : ∀ path, snap.snapPaths[path]? = held path)
    (complete : ∀ walked, answer = some walked → CompleteWalk root walked) :
    ∀ event ∈ roundOf snap root answer, event.key.2.startsWith root = true := by
  intro event member
  cases answer with
  | none =>
    cases List.mem_singleton.mp member
    exact Path.startsWith_self root
  | some walked =>
    have whole := complete walked rfl
    cases (mem_diffRoot paths whole).mp member with
    | appeared listed _ => exact whole.below _ listed
    | disappeared below _ _ => exact below
    | modified listed _ _ => exact whole.below _ listed

theorem mem_roundOf {answer : Option (List WalkedEntry)} (paths : ∀ path, snap.snapPaths[path]? = held path)
    (complete : ∀ walked, answer = some walked → CompleteWalk root walked) :
    event ∈ roundOf snap root answer ↔ Expected held root answer event := by
  cases answer with
  | none =>
    rw [roundOf, List.mem_singleton]
    constructor
    · rintro rfl
      exact .rootDisappeared
    · intro expected
      cases expected
      rfl
  | some walked => exact mem_diffRoot paths (complete walked rfl)

theorem roundOf_nodup {answer : Option (List WalkedEntry)} : (roundOf snap root answer).Nodup := by
  cases answer with
  | none => exact List.nodup_singleton _
  | some walked => exact diffRoot_nodup

end Rounds

section Exact

variable {state : Path → Option (List WalkedEntry)} {reads : Path → RootRead}

theorem stat_indexed (stats : store.StatsOf rootStats) {index : Nat} (bound : index < rootStats.length) :
    ∃ inside : index < store.inner.roots.length,
      store.idToPath[store.inner.roots[index]]? = some rootStats[index].path := by
  have lengths := congrArg List.length stats
  rw [List.length_map, List.length_map] at lengths
  have inside : index < store.inner.roots.length := lengths ▸ bound
  have paired := congrArg (·[index]?) stats
  simp only [List.getElem?_map, List.getElem?_eq_getElem bound, List.getElem?_eq_getElem inside, Option.map_some,
    Option.some.injEq] at paired
  exact ⟨inside, paired.symm⟩

theorem stats_apart (forested : store.Forested) (disjoint : store.DisjointRoots) (stats : store.StatsOf rootStats) :
    rootStats.Pairwise fun left right =>
      ∀ path : Path, path.startsWith left.path = true → path.startsWith right.path = true → False := by
  rw [List.pairwise_iff_getElem]
  intro low high one two less path first second
  obtain ⟨inside, lower⟩ := stat_indexed stats one
  obtain ⟨inside', upper⟩ := stat_indexed stats two
  -- of two prefixes of one path, one is a prefix of the other
  have same : store.inner.roots[low] = store.inner.roots[high] := by
    rcases List.prefix_or_prefix_of_prefix (Path.startsWith_iff.mp first) (Path.startsWith_iff.mp second) with near | near
    · exact (disjoint _ (List.getElem_mem inside') _ (List.getElem_mem inside) _ _ upper lower
        (Path.startsWith_iff.mpr near)).symm
    · exact disjoint _ (List.getElem_mem inside) _ (List.getElem_mem inside') _ _ lower upper
        (Path.startsWith_iff.mpr near)
  have index := (List.Nodup.getElem_inj_iff forested.linked.roots_nodup).mp same
  omega

theorem stats_alone (apart : rootStats.Pairwise fun left right =>
      ∀ path : Path, path.startsWith left.path = true → path.startsWith right.path = true → False) :
    ∀ left ∈ rootStats.map (·.path), ∀ right ∈ rootStats.map (·.path), ∀ path : Path,
      path.startsWith left = true → path.startsWith right = true → left = right := by
  intro left one right two path first second
  obtain ⟨stat, present, rfl⟩ := List.mem_map.mp one
  obtain ⟨other, present', rfl⟩ := List.mem_map.mp two
  obtain ⟨low, inside, rfl⟩ := List.mem_iff_getElem.mp present
  obtain ⟨high, inside', rfl⟩ := List.mem_iff_getElem.mp present'
  rw [List.pairwise_iff_getElem] at apart
  rcases lt_trichotomy low high with less | rfl | more
  · exact (apart low high inside inside' less path first second).elim
  · rfl
  · exact (apart high low inside' inside more path second first).elim

/-- What a list of events says about a snapshot and a state of the disk. -/
structure ExactDiff (held : Path → Option Stamp) (roots : List Path) (state : Path → Option (List WalkedEntry))
    (events : List ResumeEvent) : Prop where
  once : events.Nodup
  sorted : events.Pairwise fun left right => (left.order right).isLE = true
  meant : ∀ event, event ∈ events ↔ ∃ root ∈ roots, Expected held root (state root) event
  /-- Every root walked finds what is held: there is nothing to say. -/
  unchanged : (∀ root ∈ roots, ∃ walked, state root = some walked ∧ ∀ path stamp,
    (path.startsWith root = true ∧ held path = some stamp) ↔
      ∃ entry ∈ walked, entry.path = path ∧ (entry.mtimeMs, entry.size) = stamp) → events = []
  replayed : ∀ path, path ∈ replay events {path | (held path).isSome = true} ↔
    ∃ root ∈ roots, ∃ walked, state root = some walked ∧ path ∈ walked.map (·.path)

theorem order_eq : ResumeEvent.order = compareLex (compareOn (·.key.1)) (compareOn (·.key.2)) := rfl

instance : Std.TransCmp ResumeEvent.order := by
  rw [order_eq]
  infer_instance

theorem stamp_covered (forested : store.Forested) (coherent : store.Coherent) (stats : store.StatsOf rootStats)
    (known : (store.stampAt path).isSome = true) : ∃ stat ∈ rootStats, path.startsWith stat.path = true := by
  rw [EntryStore.stampAt, Option.isSome_map] at known
  obtain ⟨entry, found⟩ := Option.isSome_iff_exists.mp known
  obtain ⟨id, indexed, live⟩ := Option.bind_eq_some_iff.mp found
  obtain ⟨rootId, member, below⟩ := forested.exists_root id (Option.isSome_iff_exists.mpr ⟨entry, live⟩)
  obtain ⟨position, stat, _, listed, upper⟩ := stat_of_root stats member
  have lower := (forested.inverse _ _).mp indexed
  exact ⟨stat, List.mem_of_getElem? listed, coherent.startsWith below upper lower⟩

theorem not_expected_unchanged {held : Path → Option Stamp} {walked : List WalkedEntry} {event : ResumeEvent}
    (same : ∀ path stamp, (path.startsWith root = true ∧ held path = some stamp) ↔
      ∃ entry ∈ walked, entry.path = path ∧ (entry.mtimeMs, entry.size) = stamp) :
    ¬Expected held root (some walked) event := by
  intro expected
  cases expected with
  | @appeared _ entry member absent =>
    have known := ((same entry.path (entry.mtimeMs, entry.size)).mpr ⟨entry, member, rfl, rfl⟩).2
    rw [absent] at known
    cases known
  | @disappeared _ path below known absent =>
    obtain ⟨stamp, here⟩ := Option.isSome_iff_exists.mp known
    obtain ⟨entry, member, rfl, _⟩ := (same path stamp).mp ⟨below, here⟩
    exact absent (List.mem_map_of_mem member)
  | @modified _ entry stamp member known differs =>
    have here := ((same entry.path (entry.mtimeMs, entry.size)).mpr ⟨entry, member, rfl, rfl⟩).2
    exact differs (Option.some.inj (known.symm.trans here))

/-- `events_since` is the exact difference. -/
theorem events_since_exact (run : EntryStore.Reaches (fun store op => store.Admissible op) EntryStore.new store)
    (faithful : store.Coherent) (shallow : ∀ id, store.Live id → store.Within maxAncestorWalk id)
    (disjoint : store.DisjointRoots) (stats : store.StatsOf rootStats)
    (shows : ∀ stat ∈ rootStats, Shows (reads stat.path) stat.path (state stat.path)) :
    ∃ events, (snapshotToResume store.inner nextEntryId rootStats milleVersion createdMs).eventsSince reads = .ok events ∧
      ExactDiff store.stampAt (rootStats.map (·.path)) state events := by
  have forested := run.forested
  have paths (path : Path) : (snapshotToResume store.inner nextEntryId rootStats milleVersion createdMs).snapPaths[path]? =
      store.stampAt path := lookup_snapPaths forested faithful stats shallow path
  have complete : ∀ stat ∈ rootStats, ∀ walked, state stat.path = some walked → CompleteWalk stat.path walked := by
    intro stat member walked found
    have shown := shows stat member
    rw [found] at shown
    exact shown.2.2
  have apart := stats_apart forested disjoint stats
  generalize written : snapshotToResume store.inner nextEntryId rootStats milleVersion createdMs = snap at paths
  have listed : snap.rootStats = rootStats := written ▸ rfl
  have collected := @allEvents_eq snap state reads rootStats shows
  have perm := List.mergeSort_perm (rootStats.flatMap fun stat => roundOf snap stat.path (state stat.path))
    fun left right => (left.order right).isLE
  have meant (event : ResumeEvent) : event ∈ rootStats.flatMap (fun stat => roundOf snap stat.path (state stat.path)) ↔
      ∃ root ∈ rootStats.map (·.path), Expected store.stampAt root (state root) event := by
    rw [List.mem_flatMap]
    constructor
    · rintro ⟨stat, member, occurs⟩
      exact ⟨stat.path, List.mem_map_of_mem member, (mem_roundOf paths (complete stat member)).mp occurs⟩
    · rintro ⟨_, member, expected⟩
      obtain ⟨stat, present, rfl⟩ := List.mem_map.mp member
      exact ⟨stat, present, (mem_roundOf paths (complete stat present)).mpr expected⟩
  have once : (rootStats.flatMap fun stat => roundOf snap stat.path (state stat.path)).Nodup := by
    refine List.nodup_flatMap.mpr ⟨fun stat _ => roundOf_nodup, ?_⟩
    refine apart.imp_of_mem ?_
    intro left right one two separate event first second
    exact separate event.key.2 (roundOf_below paths (complete left one) event first)
      (roundOf_below paths (complete right two) event second)
  refine ⟨_, by rw [ResumeSnapshot.eventsSince, listed, collected]; rfl, perm.nodup_iff.mpr once, ?_,
    fun event => perm.mem_iff.trans (meant event), ?_, ?_⟩
  · apply List.pairwise_mergeSort
    · intro first second third
      exact Std.TransCmp.isLE_trans
    · intro left right
      rw [@Std.OrientedCmp.eq_swap _ ResumeEvent.order _ right left]
      cases left.order right <;> rfl
  · intro same
    apply List.eq_nil_iff_forall_not_mem.mpr
    intro event member
    obtain ⟨root, present, expected⟩ := (perm.mem_iff.trans (meant event)).mp member
    obtain ⟨walked, found, agrees⟩ := same root present
    rw [found] at expected
    exact not_expected_unchanged agrees expected
  · intro path
    apply mem_replay_held
    · exact stats_alone apart
    · intro path known
      obtain ⟨stat, member, below⟩ := stamp_covered forested faithful stats known
      exact ⟨stat.path, List.mem_map_of_mem member, below⟩
    · intro root member walked found
      obtain ⟨stat, present, rfl⟩ := List.mem_map.mp member
      exact complete stat present walked found
    · exact fun event => perm.mem_iff.trans (meant event)

/-- A walk that finds the root of the sample and one file that is new. -/
def sampleWalk : List WalkedEntry :=
  [⟨Path.ofNames ["r"], none, "r", .directory, 0, 0, 0, false, none, false, false, 0⟩,
    ⟨Path.ofNames ["r", "n"], some (Path.ofNames ["r"]), "n", .file, 1, 5, 5, false, none, false, false, 1⟩]

theorem complete_sampleWalk : CompleteWalk (Path.ofNames ["r"]) sampleWalk where
  distinct := by decide
  below := by decide

theorem within_sampleStore (id : EntryId) (live : (EntryStore.sampleStore .directory none).Live id) :
    (EntryStore.sampleStore .directory none).Within maxAncestorWalk id := by
  have forested := EntryStore.sampleStore_reached.coherent.1
  have small : id < 3 := forested.bounded id live
  obtain ⟨top, first, parentless⟩ := StoreSnapshot.parentLink_eq_some.mp
    (by decide : (EntryStore.sampleStore .directory none).inner.parentLink 0 = some none)
  obtain ⟨folder, second, above⟩ := StoreSnapshot.parentLink_eq_some.mp
    (by decide : (EntryStore.sampleStore .directory none).inner.parentLink 1 = some (some 0))
  obtain ⟨file, third, parent⟩ := StoreSnapshot.parentLink_eq_some.mp
    (by decide : (EntryStore.sampleStore .directory none).inner.parentLink 2 = some (some 1))
  interval_cases id
  · exact .root first parentless
  · exact .child second above (.root first parentless)
  · exact .child third parent (.child second above (.root first parentless))

/-- Two entries are gone and one is new. -/
theorem events_since_exact_sample : ∃ events,
    (snapshotToResume (EntryStore.sampleStore .directory none).inner 3 [⟨Path.ofNames ["r"], 0⟩] "" 0).eventsSince
        (fun _ => ⟨true, ⟨sampleWalk, [], [], none⟩⟩) = .ok events ∧
      ExactDiff (EntryStore.sampleStore .directory none).stampAt [Path.ofNames ["r"]] (fun _ => some sampleWalk) events := by
  have roots : (EntryStore.sampleStore .directory none).inner.roots = [0] := by decide
  apply events_since_exact
    (EntryStore.sampleStore_reached.weaken fun _ _ meets => EntryStore.PathAdmissible.admissible meets.1)
    EntryStore.sampleStore_reached.coherent.2 within_sampleStore
  · intro left one right two _ _ _ _ _
    rw [roots, List.mem_singleton] at one two
    rw [one, two]
  · rw [EntryStore.StatsOf, roots]
    decide
  · intro stat member
    cases List.mem_singleton.mp member
    exact ⟨rfl, rfl, complete_sampleWalk⟩

end Exact

end Mille
