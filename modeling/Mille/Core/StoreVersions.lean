import Mille.Core.StoreChanges

/-! The tree version against the changes that wait to be drained: every
publication moves the version by one and is recorded from the version before
the first change of its interval. -/

namespace Mille

namespace EntryStore

variable {store base after : EntryStore}

/-- Something was recorded since the last drain. -/
def Undrained (store : EntryStore) : Prop :=
  ¬ (store.pendingChanges.isEmpty && store.pendingChanges.fromVersion = 0 && store.pendingChanges.toVersion = 0)

/-- Every change up to a version has been drained. -/
structure Passed (store : EntryStore) (version : Nat) : Prop where
  published : version ≤ store.inner.treeVersion
  drained : store.Undrained → version ≤ store.pendingChanges.fromVersion

/-- Where the pending changes start once another one is recorded. -/
def startsAt (store : EntryStore) : Nat :=
  if store.pendingChanges.isEmpty && store.pendingChanges.fromVersion = 0 && store.pendingChanges.toVersion = 0 then
    store.inner.treeVersion
  else store.pendingChanges.fromVersion

/-- The versions of a publication. -/
structure Dated (store after : EntryStore) : Prop where
  version : after.inner.treeVersion = store.inner.treeVersion + 1
  starts : after.pendingChanges.fromVersion = store.startsAt
  ends : after.pendingChanges.toVersion = store.inner.treeVersion + 1

theorem publish_dated {next : StoreSnapshot} {change : ChangeSet → ChangeSet}
    (version : next.treeVersion = store.inner.treeVersion) (pending : base.pendingChanges = store.pendingChanges)
    (keeps : ∀ changes, (change changes).fromVersion = changes.fromVersion ∧
      (change changes).toVersion = changes.toVersion) :
    store.Dated (base.publish next change) := by
  refine ⟨congrArg (· + 1) version, ?_, ?_⟩
  · rw [startsAt, ← pending, ← version]
    refine (keeps _).1.trans ?_
    show ChangeSet.fromVersion (if _ then _ else _) = _
    split <;> rfl
  · rw [← version]
    exact (keeps _).2

theorem Dated.index (dated : store.Dated after) (additions : List Addition) : store.Dated (after.index additions) :=
  ⟨dated.version, dated.starts, dated.ends⟩

theorem Dated.unindex (dated : store.Dated after) (ids : List EntryId) : store.Dated (after.unindex ids) :=
  ⟨by rw [unindex_inner, dated.version], by rw [unindex_pending, dated.starts], by rw [unindex_pending, dated.ends]⟩

theorem Dated.unindexScan (dated : store.Dated after) (ids : List EntryId) : store.Dated (after.unindexScan ids) :=
  ⟨dated.version, dated.starts, dated.ends⟩

theorem Dated.moveIndex (dated : store.Dated after) (updates : List PathUpdate) :
    store.Dated (after.moveIndex updates) :=
  ⟨dated.version, dated.starts, dated.ends⟩

theorem addRecords_treeVersion (snapshot : StoreSnapshot) (visibility : VisibilityPolicy) (additions : List Addition) :
    (snapshot.addRecords visibility additions).treeVersion = snapshot.treeVersion := by
  induction additions generalizing snapshot with
  | nil => rfl
  | cons addition rest ih => exact ih _

/-- A mutation publishes nothing, or exactly one version. -/
theorem Published.dated {edit : Edit} (published : store.Published edit after) :
    after.inner.treeVersion = store.inner.treeVersion ∧ after.pendingChanges = store.pendingChanges ∨
      store.Dated after := by
  cases published with
  | idle edit counter => exact .inl ⟨rfl, rfl⟩
  | insert path given entry =>
    refine .inr (Dated.index (publish_dated ?_ ?_ ?_) _)
    · split <;> rfl
    · rfl
    · exact fun _ => ⟨rfl, rfl⟩
  | insertBatch entries additions =>
    refine .inr (Dated.index (publish_dated ?_ ?_ ?_) _)
    · exact addRecords_treeVersion _ _ _
    · rfl
    · exact fun _ => ⟨rfl, rfl⟩
  | update | reorderRoots | markDirectoriesChildrenLoaded | reconfigureProjection
  | reconfigureProjectionWithExclusions => exact .inr (publish_dated rfl rfl fun _ => ⟨rfl, rfl⟩)
  | markRootUnavailable =>
    refine .inr (Dated.unindex (publish_dated ?_ ?_ ?_) _)
    · rfl
    · rfl
    · exact fun _ => ⟨rfl, rfl⟩
  | rename id entry oldPath newPath newParentId =>
    refine .inr (Dated.moveIndex (publish_dated ?_ rfl fun changes => ?_) _)
    · split
      · split <;> rfl
      · rfl
    · split <;> exact ⟨rfl, rfl⟩
  | removeSubtree id entry =>
    refine .inr (Dated.unindexScan (publish_dated ?_ ?_ ?_) _)
    · cases entry.parentId <;> rfl
    · rfl
    · exact fun _ => ⟨rfl, rfl⟩
  | replaceRoots roots orderedIds additions =>
    refine .inr (Dated.index (Dated.unindex (publish_dated ?_ ?_ ?_) _) _)
    · exact addRecords_treeVersion _ _ _
    · rfl
    · exact fun _ => ⟨rfl, rfl⟩
  | remove id existing found =>
    rw [EntryStore.remove, found]
    refine .inr (Dated.unindex (publish_dated ?_ ?_ ?_) _)
    · cases existing.parentId <;> rfl
    · rfl
    · exact fun _ => ⟨rfl, rfl⟩

theorem Published.passed {edit : Edit} {version : Nat} (published : store.Published edit after)
    (passed : store.Passed version) : after.Passed version := by
  rcases published.dated with ⟨same, pending⟩ | dated
  · refine ⟨same ▸ passed.published, fun undrained => ?_⟩
    rw [pending]
    exact passed.drained (by rwa [Undrained, pending] at undrained)
  · refine ⟨by rw [dated.version]; exact Nat.le_succ_of_le passed.published, fun _ => ?_⟩
    rw [dated.starts, startsAt]
    split
    · exact passed.published
    · next undrained => exact passed.drained undrained

theorem Published.ends {edit : Edit} (published : store.Published edit after)
    (ends : store.pendingChanges.toVersion ≤ store.inner.treeVersion) :
    after.pendingChanges.toVersion ≤ after.inner.treeVersion := by
  rcases published.dated with ⟨same, pending⟩ | dated
  · rwa [same, pending]
  · rw [dated.ends, dated.version]

theorem Published.later {edit : Edit} (published : store.Published edit after) :
    store.inner.treeVersion ≤ after.inner.treeVersion := by
  rcases published.dated with ⟨same, _⟩ | dated
  · exact same.ge
  · exact dated.version ▸ Nat.le_succ _

theorem Passed.weaken {lower version : Nat} (passed : store.Passed version) (le : lower ≤ version) : store.Passed lower :=
  ⟨le.trans passed.published, fun undrained => le.trans (passed.drained undrained)⟩

theorem passed_drain (store : EntryStore) : store.takePendingChanges.2.Passed store.inner.treeVersion :=
  ⟨le_refl _, fun undrained => absurd rfl undrained⟩

theorem Passed.drain {version : Nat} (passed : store.Passed version) : store.takePendingChanges.2.Passed version :=
  store.passed_drain.weaken passed.published

/-- What holds of every store between two native calls. -/
structure Recording (store : EntryStore) : Prop where
  housed : store.Housed
  ends : store.pendingChanges.toVersion ≤ store.inner.treeVersion

theorem Recording.drain (recording : store.Recording) : store.takePendingChanges.2.Recording :=
  ⟨recording.housed.drain, Nat.zero_le _⟩

theorem Recording.edits (recording : store.Recording) (edits : List Edit) : (edits.foldl edit store).Recording := by
  induction edits generalizing store with
  | nil => exact recording
  | cons next rest ih =>
    have published := edit_published recording.housed.ceiling next
    exact ih ⟨published.housed recording.housed, published.ends recording.ends⟩

theorem Recording.later (recording : store.Recording) (edits : List Edit) :
    store.inner.treeVersion ≤ (edits.foldl edit store).inner.treeVersion := by
  induction edits generalizing store with
  | nil => exact le_refl _
  | cons next rest ih =>
    have published := edit_published recording.housed.ceiling next
    exact published.later.trans (ih ⟨published.housed recording.housed, published.ends recording.ends⟩)

theorem Recording.passed_edits {version : Nat} (recording : store.Recording) (edits : List Edit)
    (passed : store.Passed version) : (edits.foldl edit store).Passed version := by
  induction edits generalizing store with
  | nil => exact passed
  | cons next rest ih =>
    have published := edit_published recording.housed.ceiling next
    exact ih ⟨published.housed recording.housed, published.ends recording.ends⟩ (published.passed passed)

end EntryStore

end Mille
