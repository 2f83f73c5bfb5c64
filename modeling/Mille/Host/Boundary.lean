import Mille.Core.StorePaths

/-! The workspace boundary of the host: which entries lie beyond a symlink, and
which paths are reached from a workspace root without passing through one. -/

namespace Mille

open Forest

namespace StoreSnapshot

/-- The loop of `crossesSymlink`, with the rounds its guard leaves. -/
def crossesFrom (snapshot : StoreSnapshot) : Nat → Option EntryId → Bool
  | 0, _ => false
  | _ + 1, none => false
  | guard + 1, some cursor =>
    match snapshot.entries[cursor]? with
    | none => false
    | some entry => if entry.kind = .symlink then true else crossesFrom snapshot guard entry.parentId

def crossesGuard : Nat := 1024

/-- Whether one of the nearest ancestors of an entry is a symlink. -/
def crossesSymlink (snapshot : StoreSnapshot) (id : EntryId) : Bool :=
  snapshot.crossesFrom crossesGuard (snapshot.entries[id]?.bind (·.parentId))

/-- The entry a number of parent links above another. -/
def above (snapshot : StoreSnapshot) : Nat → EntryId → Option EntryId
  | 0, id => some id
  | distance + 1, id => (snapshot.entries[id]?.bind (·.parentId)).bind (above snapshot distance)

/-- A symlink below its workspace root. -/
def IsLink (snapshot : StoreSnapshot) (id : EntryId) : Prop :=
  ∃ entry, snapshot.entries[id]? = some entry ∧ entry.parentId ≠ none ∧ entry.kind = .symlink

instance (snapshot : StoreSnapshot) (id : EntryId) : Decidable (snapshot.IsLink id) :=
  match found : snapshot.entries[id]? with
  | none => isFalse fun ⟨_, same, _⟩ => by simp [found] at same
  | some entry =>
    if link : entry.parentId ≠ none ∧ entry.kind = .symlink then isTrue ⟨entry, found, link⟩
    else isFalse fun ⟨_, same, rest⟩ => link (Option.some.inj (found.symm.trans same) ▸ rest)

variable {snapshot : StoreSnapshot} {id parentId low top : EntryId} {entry : Entry} {distance : Nat}

theorem above_succ (found : snapshot.entries[id]? = some entry) (link : entry.parentId = some parentId) :
    snapshot.above (distance + 1) id = snapshot.above distance parentId := by
  simp [above, found, link]

theorem above_root (found : snapshot.entries[id]? = some entry) (root : entry.parentId = none) :
    snapshot.above (distance + 1) id = none := by
  simp [above, found, root]

/-- The guarded loop finds exactly the symlinks within its rounds. -/
theorem crossesFrom_iff (guard : Nat) (cursor : Option EntryId) : snapshot.crossesFrom guard cursor = true ↔
    ∃ distance < guard, ∃ id entry, cursor.bind (snapshot.above distance) = some id ∧
      snapshot.entries[id]? = some entry ∧ entry.kind = .symlink := by
  induction guard generalizing cursor with
  | zero => simp [crossesFrom]
  | succ guard ih =>
    cases cursor with
    | none => simp [crossesFrom]
    | some cursor =>
      cases found : snapshot.entries[cursor]? with
      | none =>
        simp only [crossesFrom, found, Bool.false_eq_true, false_iff]
        rintro ⟨distance, _, id, entry, reached, present, _⟩
        cases distance with
        | zero =>
          cases reached
          simp [found] at present
        | succ distance => simp [above, found] at reached
      | some entry =>
        simp only [crossesFrom, found]
        split
        · next symlink =>
          simp only [true_iff]
          exact ⟨0, by omega, cursor, entry, rfl, found, symlink⟩
        · next other =>
          rw [ih entry.parentId]
          constructor
          · rintro ⟨distance, less, id, last, reached, rest⟩
            refine ⟨distance + 1, by omega, id, last, ?_, rest⟩
            simpa [above, found] using reached
          · rintro ⟨distance, less, id, last, reached, present, symlink⟩
            cases distance with
            | zero =>
              cases reached
              rw [found] at present
              cases present
              exact absurd symlink other
            | succ distance =>
              refine ⟨distance, by omega, id, last, ?_, present, symlink⟩
              simpa [above, found] using reached

theorem not_isLink_of_crossesSymlink (clear : snapshot.crossesSymlink id = false) (near : distance < crossesGuard)
    (reached : snapshot.above (distance + 1) id = some top) : ¬ snapshot.IsLink top := by
  rintro ⟨entry, found, _, symlink⟩
  have crosses : snapshot.crossesSymlink id = true :=
    (crossesFrom_iff _ _).mpr ⟨distance, near, top, entry, reached, found, symlink⟩
  rw [clear] at crosses
  cases crosses

end StoreSnapshot

namespace EntryStore

variable {store : EntryStore} {id parentId low top root : EntryId} {entry : Entry} {path : Path}

/-- Neither the entry nor anything above it is a link. -/
def Clean (store : EntryStore) (id : EntryId) : Prop :=
  ∀ distance top, store.inner.above distance id = some top → ¬ store.inner.IsLink top

/-- A path that is reached from a workspace root through directories only: every proper prefix
below the root is an entry that is no symlink, and so is the path itself where it is entered. -/
def ReachedFrom (store : EntryStore) (root : EntryId) (path : Path) (entered : Bool) : Prop :=
  ∃ rootPath, store.idToPath[root]? = some rootPath ∧ path.startsWith rootPath = true ∧
    ∀ between : Path, between.startsWith rootPath = true → between ≠ rootPath →
      path.startsWith between = true → (between ≠ path ∨ entered = true) →
        ∃ id entry, store.pathToId[between]? = some id ∧ store.inner.entries[id]? = some entry ∧
          entry.kind ≠ .symlink

theorem above_below (reached : store.inner.above distance low = some top) :
    Below store.inner.parentLink top low := by
  induction distance generalizing low with
  | zero =>
    cases reached
    exact .self
  | succ distance ih =>
    obtain ⟨next, first, rest⟩ := Option.bind_eq_some_iff.mp reached
    obtain ⟨entry, found, link⟩ := Option.bind_eq_some_iff.mp first
    exact .child (StoreSnapshot.parentLink_eq_some.mpr ⟨entry, found, link⟩) (ih rest)

theorem below_above (descends : Below store.inner.parentLink top low) :
    ∃ distance, store.inner.above distance low = some top := by
  induction descends with
  | self => exact ⟨0, rfl⟩
  | child link _ ih =>
    obtain ⟨entry, found, parent⟩ := StoreSnapshot.parentLink_eq_some.mp link
    obtain ⟨distance, reached⟩ := ih
    exact ⟨distance + 1, by rw [StoreSnapshot.above_succ found parent]; exact reached⟩

theorem clean_iff_below : store.Clean low ↔
    ∀ top, Below store.inner.parentLink top low → ¬ store.inner.IsLink top := by
  constructor
  · intro clean top descends
    obtain ⟨distance, reached⟩ := below_above descends
    exact clean distance top reached
  · intro clean distance top reached
    exact clean top (above_below reached)

theorem Coherent.between (coherent : store.Coherent) {topPath lowPath between : Path}
    (descends : Below store.inner.parentLink top low) (upper : store.idToPath[top]? = some topPath)
    (lower : store.idToPath[low]? = some lowPath) (under : between.startsWith topPath = true)
    (above : lowPath.startsWith between = true) :
    ∃ mid, Below store.inner.parentLink top mid ∧ Below store.inner.parentLink mid low ∧
      store.idToPath[mid]? = some between := by
  induction descends generalizing lowPath with
  | self =>
    have same := Option.some.inj (upper.symm.trans lower)
    subst same
    have equal := (Path.startsWith_iff.mp above).eq_of_length_le (Path.startsWith_iff.mp under).length_le
    exact ⟨top, .self, .self, equal ▸ upper⟩
  | @child low parentId link rest ih =>
    obtain ⟨entry, found, parent⟩ := StoreSnapshot.parentLink_eq_some.mp link
    obtain ⟨parentPath, indexed, here⟩ := coherent low entry parentId found parent
    have joined := Option.some.inj (lower.symm.trans here)
    rw [joined] at above
    rcases Path.push_startsWith_iff.mp above with same | higher
    · exact ⟨low, .child link rest, .self, same ▸ here⟩
    · obtain ⟨mid, upward, downward, found⟩ := ih indexed higher
      exact ⟨mid, upward, .child link downward, found⟩

theorem Forested.path_of_live (forested : store.Forested) (live : store.inner.entries[id]? = some entry) :
    ∃ path, store.idToPath[id]? = some path := by
  apply Option.isSome_iff_exists.mp
  exact (forested.indexed id).mpr (by simp [live])

theorem root_above (isRoot : store.inner.parentLink root = some none)
    (descends : Below store.inner.parentLink root id) (above : Below store.inner.parentLink top id) :
    Below store.inner.parentLink root top := by
  rcases descends.linear above with under | higher
  · exact under
  · rw [higher.root_eq isRoot]
    exact .self

section Reached

variable (forested : store.Forested) (coherent : store.Coherent)
include forested coherent

/-- Entering an entry passes through it and everything above it. -/
theorem reachedFrom_entered (isRoot : root ∈ store.inner.roots) (descends : Below store.inner.parentLink root id)
    (indexed : store.idToPath[id]? = some path) : store.ReachedFrom root path true ↔ store.Clean id := by
  have top := (forested.linked.root_iff root).mp isRoot
  rw [clean_iff_below]
  constructor
  · rintro ⟨rootPath, rooted, _, passes⟩ mid above ⟨entry, found, inner, symlink⟩
    obtain ⟨midPath, here⟩ := forested.path_of_live found
    have lower := root_above top descends above
    have strict : midPath ≠ rootPath := by
      intro same
      have holder := (forested.inverse _ _).mpr here
      rw [same, (forested.inverse _ _).mpr rooted] at holder
      cases holder
      obtain ⟨other, present, none⟩ := StoreSnapshot.parentLink_eq_some.mp top
      rw [found] at present
      cases present
      exact inner none
    obtain ⟨holder, other, held, present, plain⟩ := passes midPath (coherent.startsWith lower rooted here) strict
      (coherent.startsWith above here indexed) (.inr rfl)
    rw [(forested.inverse _ _).mpr here] at held
    cases held
    rw [found] at present
    cases present
    exact plain symlink
  · intro clean
    obtain ⟨rootEntry, rootFound, none⟩ := StoreSnapshot.parentLink_eq_some.mp top
    obtain ⟨rootPath, rooted⟩ := forested.path_of_live rootFound
    refine ⟨rootPath, rooted, coherent.startsWith descends rooted indexed, ?_⟩
    intro between under strict reaching _
    obtain ⟨mid, upward, downward, here⟩ := coherent.between descends rooted indexed under reaching
    obtain ⟨entry, found⟩ := Option.isSome_iff_exists.mp ((forested.indexed mid).mp (by simp [here]))
    refine ⟨mid, entry, (forested.inverse _ _).mpr here, found, fun symlink => ?_⟩
    refine clean mid downward ⟨entry, found, fun isTop => strict ?_, symlink⟩
    have same := upward.root_eq (StoreSnapshot.parentLink_eq_some.mpr ⟨entry, found, isTop⟩)
    subst same
    exact Option.some.inj (here.symm.trans rooted)

theorem reachedFrom_child (isRoot : root ∈ store.inner.roots) (descends : Below store.inner.parentLink root id)
    (indexed : store.idToPath[id]? = some path) (name : OsString) :
    store.ReachedFrom root (path.push name) false ↔ store.Clean id := by
  rw [← reachedFrom_entered forested coherent isRoot descends indexed]
  have proper (between : Path) : (path.push name).startsWith between = true ∧ between ≠ path.push name ↔
      path.startsWith between = true := by
    rw [Path.push_startsWith_iff]
    constructor
    · rintro ⟨same | under, strict⟩
      · exact absurd same strict
      · exact under
    · intro under
      refine ⟨.inr under, fun same => ?_⟩
      have longer := (Path.startsWith_iff.mp under).length_le
      simp [same, Path.push] at longer
  constructor
  · rintro ⟨rootPath, rooted, _, passes⟩
    refine ⟨rootPath, rooted, coherent.startsWith descends rooted indexed, ?_⟩
    intro between under strict reaching _
    obtain ⟨longer, short⟩ := (proper between).mpr reaching
    exact passes between under strict longer (.inl short)
  · rintro ⟨rootPath, rooted, below, passes⟩
    refine ⟨rootPath, rooted, Path.push_startsWith_iff.mpr (.inr below), ?_⟩
    intro between under strict reaching short
    have shorter := (proper between).mp ⟨reaching, short.resolve_right (by simp)⟩
    exact passes between under strict shorter (.inr rfl)

end Reached

theorem reachedFrom_self (rooted : store.idToPath[root]? = some path) : store.ReachedFrom root path false := by
  refine ⟨path, rooted, Path.startsWith_self path, fun between under strict above _ => absurd ?_ strict⟩
  exact (Path.startsWith_iff.mp above).eq_of_length_le (Path.startsWith_iff.mp under).length_le

theorem not_reachedFrom_sibling {base : Path} {name : OsString} (rooted : store.idToPath[root]? = some path)
    (parent : path.parent = some base) (other : base.push name ≠ path) :
    ¬ store.ReachedFrom root (base.push name) false := by
  rintro ⟨rootPath, same, under, _⟩
  cases Option.some.inj (rooted.symm.trans same)
  refine other ((Path.startsWith_iff.mp under).eq_of_length_le ?_).symm
  have length : path.length = base.length + 1 := by
    cases path with
    | nil => cases parent
    | cons first rest =>
      cases parent
      simp
  simp [Path.push, length]

end EntryStore

end Mille
