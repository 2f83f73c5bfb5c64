import Mille.Host.Operations

/-! What a session below admin reaches with the operations the host accepts from
it. Each operation is matched with the entries its paths pass through; the check
covers the nearest ancestors of the ids it is shown, and nothing else. -/

namespace Mille

open Forest EntryStore Remote

theorem bind_eq_ok {ε α β : Type} {action : Except ε α} {next : α → Except ε β} {result : β}
    (ran : action >>= next = .ok result) : ∃ value, action = .ok value ∧ next value = .ok result := by
  cases action with
  | error error => cases ran
  | ok value => exact ⟨value, rfl, ran⟩

namespace EntryStore

variable {store : EntryStore} {id parentId top root : EntryId} {entry : Entry} {path parentPath : Path}

/-- Nothing above the entry is a link. -/
def CleanAbove (store : EntryStore) (id : EntryId) : Prop :=
  ∀ distance top, store.inner.above (distance + 1) id = some top → ¬ store.inner.IsLink top

/-- Nothing above the entry is a link, as far as the boundary check does not look. -/
def CleanBeyond (store : EntryStore) (id : EntryId) : Prop :=
  ∀ distance top, StoreSnapshot.crossesGuard ≤ distance → store.inner.above (distance + 1) id = some top →
    ¬ store.inner.IsLink top

/-- An entry below a workspace root. -/
def IsInner (store : EntryStore) (id : EntryId) : Prop :=
  ∃ entry, store.inner.entries[id]? = some entry ∧ entry.parentId ≠ none

theorem clean_iff : store.Clean id ↔ ¬ store.inner.IsLink id ∧ store.CleanAbove id := by
  constructor
  · intro clean
    exact ⟨clean 0 id rfl, fun distance top reached => clean (distance + 1) top reached⟩
  · rintro ⟨here, higher⟩ distance top reached
    cases distance with
    | zero =>
      cases reached
      exact here
    | succ distance => exact higher distance top reached

theorem cleanAbove_iff_beyond (clear : store.inner.crossesSymlink id = false) :
    store.CleanAbove id ↔ store.CleanBeyond id := by
  constructor
  · intro clean distance top _ reached
    exact clean distance top reached
  · intro clean distance top reached
    by_cases near : distance < StoreSnapshot.crossesGuard
    · exact StoreSnapshot.not_isLink_of_crossesSymlink clear near reached
    · exact clean distance top (Nat.le_of_not_lt near) reached

theorem cleanAbove_of_parent (found : store.inner.entries[id]? = some entry)
    (link : entry.parentId = some parentId) : store.CleanAbove id ↔ store.Clean parentId := by
  constructor
  · intro clean distance top reached
    exact clean distance top (by rw [StoreSnapshot.above_succ found link]; exact reached)
  · intro clean distance top reached
    rw [StoreSnapshot.above_succ found link] at reached
    exact clean distance top reached

theorem cleanAbove_of_root (found : store.inner.entries[id]? = some entry) (isTop : entry.parentId = none) :
    store.CleanAbove id := by
  intro distance top reached
  rw [StoreSnapshot.above_root found isTop] at reached
  cases reached

end EntryStore

namespace Explorer

variable {path : Path}

theorem tmpSibling_eq {base : Path} (above : path.parent = some base) :
    ∃ name, tmpSibling path = some (base.push name) ∧ base.push name ≠ path := by
  unfold tmpSibling
  rw [above]
  refine ⟨_, rfl, fun same => ?_⟩
  have last := congrArg Path.fileName same
  rw [Path.fileName_push] at last
  split at last
  · next none =>
    rw [none] at last
    cases last
  · next text found =>
    rw [found] at last
    have longer := congrArg String.length (OsString.utf8.inj (Option.some.inj last))
    rw [String.length_append] at longer
    have positive : 0 < ".mille.tmp".length := by decide
    omega
  · next bytes found =>
    rw [found] at last
    have longer := congrArg List.length (OsString.raw.inj (Option.some.inj last))
    rw [List.length_append] at longer
    have positive : 0 < ".mille.tmp".toByteArray.data.toList.length := by decide
    omega

end Explorer

namespace Host

/-- A path that an operation reaches from a workspace root, the one above the entry that names it,
without passing through a symlink. -/
def Contained (store : EntryStore) (touch : Touch) : Prop :=
  ∃ root ∈ store.inner.roots, (∀ id ∈ touch.named, Below store.inner.parentLink root id) ∧
    ∃ path, touch.path = some path ∧ store.ReachedFrom root path touch.entered

section Touches

variable {store : EntryStore} {id parentId : EntryId} {entry : Entry} {path parentPath : Path}
variable (forested : store.Forested) (coherent : store.Coherent)
include forested

theorem root_of_indexed (indexed : store.idToPath[id]? = some path) :
    ∃ root ∈ store.inner.roots, Below store.inner.parentLink root id := by
  apply forested.exists_root
  exact (forested.indexed id).mp (by simp [indexed])

theorem contained_beside (found : store.inner.entries[id]? = some entry) (link : entry.parentId = some parentId)
    (touched : Option Path) (entered : Bool) :
    Contained store ⟨some id, touched, entered⟩ ↔ Contained store ⟨some parentId, touched, entered⟩ := by
  have parentLink := StoreSnapshot.parentLink_eq_some.mpr ⟨entry, found, link⟩
  constructor
  · rintro ⟨root, isRoot, below, reached⟩
    refine ⟨root, isRoot, ?_, reached⟩
    rintro _ ⟨⟩
    refine (below id rfl).last_step (fun same => ?_) parentLink
    rw [same, (forested.linked.root_iff root).mp isRoot] at parentLink
    cases parentLink
  · rintro ⟨root, isRoot, below, reached⟩
    refine ⟨root, isRoot, ?_, reached⟩
    rintro _ ⟨⟩
    exact .child parentLink (below parentId rfl)

include coherent

theorem contained_entered (indexed : store.idToPath[id]? = some path) :
    Contained store ⟨some id, some path, true⟩ ↔ store.Clean id := by
  constructor
  · rintro ⟨root, isRoot, below, _, same, reached⟩
    cases same
    exact (reachedFrom_entered forested coherent isRoot (below id rfl) indexed).mp reached
  · intro clean
    obtain ⟨root, isRoot, below⟩ := root_of_indexed forested indexed
    refine ⟨root, isRoot, ?_, path, rfl, (reachedFrom_entered forested coherent isRoot below indexed).mpr clean⟩
    rintro _ ⟨⟩
    exact below

theorem contained_child (indexed : store.idToPath[id]? = some path) (name : OsString) :
    Contained store ⟨some id, some (path.push name), false⟩ ↔ store.Clean id := by
  constructor
  · rintro ⟨root, isRoot, below, _, same, reached⟩
    cases same
    exact (reachedFrom_child forested coherent isRoot (below id rfl) indexed name).mp reached
  · intro clean
    obtain ⟨root, isRoot, below⟩ := root_of_indexed forested indexed
    refine ⟨root, isRoot, ?_, _, rfl, (reachedFrom_child forested coherent isRoot below indexed name).mpr clean⟩
    rintro _ ⟨⟩
    exact below

theorem contained_at (indexed : store.idToPath[id]? = some path) :
    Contained store ⟨some id, some path, false⟩ ↔ store.CleanAbove id := by
  obtain ⟨entry, found⟩ := Option.isSome_iff_exists.mp ((forested.indexed id).mp (by simp [indexed]))
  cases link : entry.parentId with
  | none =>
    have clean := cleanAbove_of_root found link
    refine ⟨fun _ => clean, fun _ => ⟨id, ?_, ?_, path, rfl, reachedFrom_self indexed⟩⟩
    · exact (forested.linked.root_iff id).mpr (StoreSnapshot.parentLink_eq_some.mpr ⟨entry, found, link⟩)
    · rintro _ ⟨⟩
      exact .self
  | some parentId =>
    obtain ⟨parentPath, upper, here⟩ := coherent id entry parentId found link
    rw [Option.some.inj (indexed.symm.trans here), cleanAbove_of_parent found link,
      contained_beside forested found link, contained_child forested coherent upper]

theorem contained_sibling (indexed : store.idToPath[id]? = some path) (above : path.parent = some parentPath)
    (name : OsString) (other : parentPath.push name ≠ path) :
    Contained store ⟨some id, some (parentPath.push name), false⟩ ↔ store.IsInner id ∧ store.CleanAbove id := by
  obtain ⟨entry, found⟩ := Option.isSome_iff_exists.mp ((forested.indexed id).mp (by simp [indexed]))
  cases link : entry.parentId with
  | none =>
    have top := StoreSnapshot.parentLink_eq_some.mpr ⟨entry, found, link⟩
    constructor
    · rintro ⟨root, _, below, _, same, reached⟩
      cases same
      have itself := (below id rfl).root_eq top
      subst itself
      exact absurd reached (not_reachedFrom_sibling indexed above other)
    · rintro ⟨⟨inner, present, linked⟩, _⟩
      cases Option.some.inj (found.symm.trans present)
      exact absurd link linked
  | some parentId =>
    obtain ⟨upperPath, upper, here⟩ := coherent id entry parentId found link
    have joined := Option.some.inj (indexed.symm.trans here)
    rw [joined, Path.parent_push] at above
    cases above
    rw [contained_beside forested found link, contained_child forested coherent upper,
      cleanAbove_of_parent found link]
    exact ⟨fun clean => ⟨⟨entry, found, by simp [link]⟩, clean⟩, And.right⟩

theorem contained_tmpSibling (indexed : store.idToPath[id]? = some path) :
    Contained store ⟨some id, Explorer.tmpSibling path, false⟩ ↔ store.IsInner id ∧ store.CleanAbove id := by
  cases above : path.parent with
  | some base =>
    obtain ⟨name, same, other⟩ := Explorer.tmpSibling_eq above
    rw [same]
    exact contained_sibling forested coherent indexed above name other
  | none =>
    have relative : Explorer.tmpSibling path = none := by
      unfold Explorer.tmpSibling
      rw [above]
      rfl
    rw [relative]
    constructor
    · rintro ⟨_, _, _, _, same, _⟩
      cases same
    · rintro ⟨⟨entry, found, inner⟩, _⟩
      obtain ⟨parentId, link⟩ := Option.ne_none_iff_exists'.mp inner
      obtain ⟨parentPath, _, here⟩ := coherent id entry parentId found link
      rw [Option.some.inj (indexed.symm.trans here), Path.parent_push] at above
      cases above

theorem contained_directory (found : store.inner.entries[id]? = some entry) (inner : entry.parentId ≠ none)
    (indexed : store.idToPath[id]? = some path) (above : path.parent = some parentPath) :
    Contained store ⟨some id, some parentPath, true⟩ ↔ store.CleanAbove id := by
  obtain ⟨parentId, link⟩ := Option.ne_none_iff_exists'.mp inner
  obtain ⟨upperPath, upper, here⟩ := coherent id entry parentId found link
  have joined := Option.some.inj (indexed.symm.trans here)
  rw [joined, Path.parent_push] at above
  cases above
  rw [contained_beside forested found link, contained_entered forested coherent upper,
    cleanAbove_of_parent found link]

end Touches

end Host

namespace DiskView

variable {disk : DiskView} {parent : Path} {desired taken : String} {collision : CollisionPolicy}
variable {dest : DestResolution}

theorem allocateSuffix_path (left suffix : Nat) (found : disk.allocateSuffix parent desired left suffix = .ok dest) :
    ∃ name, dest.path = parent.push (.utf8 name) := by
  induction left generalizing suffix with
  | zero => cases found
  | succ left ih =>
    simp only [allocateSuffix] at found
    split at found
    · split at found
      · cases found
      · exact ih (suffix + 1) found
      · cases found
        exact ⟨_, rfl⟩
    · cases found
    · exact ih (suffix + 1) found

theorem resolveCollision_path (found : disk.resolveCollision parent desired taken collision = .ok dest) :
    ∃ name, dest.path = parent.push (.utf8 name) := by
  cases collision with
  | error => cases found
  | rename => exact allocateSuffix_path 10000 1 found
  | overwrite =>
    cases found
    exact ⟨_, rfl⟩
  | skip =>
    cases found
    exact ⟨_, rfl⟩
  | merge =>
    simp only [resolveCollision] at found
    split at found
    · cases found
    · cases found
      exact ⟨_, rfl⟩

theorem resolveTransferDestination_path
    (found : disk.resolveTransferDestination parent desired collision = .ok dest) :
    ∃ name, dest.path = parent.push (.utf8 name) := by
  unfold resolveTransferDestination at found
  split at found
  · cases found
  · dsimp only at found
    split at found
    · split at found
      · cases found
        exact ⟨_, rfl⟩
      · exact resolveCollision_path found
    · cases found
    · exact resolveCollision_path found

end DiskView

theorem joinUnderRoot_ok {storeParent parentCanon rootCanon path : Path} {name : String}
    (joined : joinUnderRoot storeParent parentCanon name rootCanon = .ok path) :
    path = storeParent.push (.utf8 name) := by
  unfold joinUnderRoot at joined
  split at joined
  · cases joined
  · dsimp only at joined
    split at joined
    · cases joined
    · split at joined
      · split at joined
        · cases joined
          rfl
        · cases joined
      · cases joined

namespace Explorer

variable {explorer : Explorer} {disk : DiskView} {id parentId newParentId : EntryId} {name : String}
variable {newName : Option String} {options : Option TransferOptions} {touches : List Touch} {path : Path}
variable {label suffix : String} {entry : Entry}

theorem resolveEntryPath_ok (resolved : explorer.resolveEntryPath label id = .ok path) :
    explorer.store.idToPath[id]? = some path := by
  unfold resolveEntryPath pathForId at resolved
  split at resolved
  · cases resolved
  · next found =>
    cases resolved
    exact found

theorem requireEntry_ok (required : explorer.requireEntry label suffix id = .ok entry) :
    explorer.store.inner.entries[id]? = some entry := by
  unfold requireEntry getById at required
  split at required
  · cases required
  · next found =>
    cases required
    exact found

theorem takeDestination_ok {parent parentCanon rootCanon : Path} {collision : CollisionPolicy}
    {dest : DestResolution}
    (taken : takeDestination disk parent parentCanon rootCanon name collision = .ok dest) :
    ∃ name, dest.path = parent.push (.utf8 name) := by
  obtain ⟨found, resolved, rest⟩ := bind_eq_ok taken
  obtain ⟨_, _, same⟩ := bind_eq_ok rest
  cases same
  exact DiskView.resolveTransferDestination_path resolved

theorem create_ok {kind : Nat} (created : explorer.create parentId name kind = .ok touches) :
    ∃ parentPath, explorer.store.idToPath[parentId]? = some parentPath ∧
      touches = [⟨some parentId, some (parentPath.push (.utf8 name)), false⟩] := by
  obtain ⟨_, _, rest⟩ := bind_eq_ok created
  obtain ⟨parentPath, resolved, rest⟩ := bind_eq_ok rest
  obtain ⟨_, _, same⟩ := bind_eq_ok rest
  cases same
  exact ⟨parentPath, resolveEntryPath_ok resolved, rfl⟩

theorem rename_ok (renamed : explorer.rename id name = .ok touches) :
    ∃ oldPath parentPath, explorer.store.idToPath[id]? = some oldPath ∧ oldPath.parent = some parentPath ∧
      touches = if parentPath.push (.utf8 name) = oldPath then [] else
        [⟨some id, some oldPath, false⟩, ⟨some id, some (parentPath.push (.utf8 name)), false⟩] := by
  obtain ⟨oldPath, resolved, rest⟩ := bind_eq_ok renamed
  cases above : oldPath.parent with
  | none => simp [above] at rest
  | some parentPath =>
    simp only [above] at rest
    obtain ⟨_, _, same⟩ := bind_eq_ok rest
    refine ⟨oldPath, parentPath, resolveEntryPath_ok resolved, above, ?_⟩
    split at same
    · next unchanged =>
      cases same
      rw [if_pos unchanged]
    · next other =>
      cases same
      rw [if_neg other]

/-- A move works on the entry's path and on names in the new parent. -/
theorem moveEntry_ok (moved : explorer.moveEntry disk id newParentId newName options = .ok touches) :
    ∃ oldPath newParentPath names, explorer.store.idToPath[id]? = some oldPath ∧
      explorer.store.idToPath[newParentId]? = some newParentPath ∧ names ≠ [] ∧
      touches = ⟨some id, some oldPath, false⟩ ::
        names.map (fun name => ⟨some newParentId, some (newParentPath.push (.utf8 name)), false⟩) := by
  obtain ⟨⟨allowCrossRoot, collision⟩, _, rest⟩ := bind_eq_ok moved
  obtain ⟨oldPath, source, rest⟩ := bind_eq_ok rest
  obtain ⟨newParentPath, destination, rest⟩ := bind_eq_ok rest
  obtain ⟨entry, _, rest⟩ := bind_eq_ok rest
  dsimp only at rest
  split at rest
  · cases rest
  obtain ⟨parent, _, rest⟩ := bind_eq_ok rest
  obtain ⟨_, _, rest⟩ := bind_eq_ok rest
  split at rest
  · cases rest
  split at rest
  · cases rest
  obtain ⟨root, _, rest⟩ := bind_eq_ok rest
  obtain ⟨⟨parentCanon, rootCanon⟩, _, rest⟩ := bind_eq_ok rest
  obtain ⟨desired, joined, rest⟩ := bind_eq_ok rest
  obtain ⟨wanted, inFolder⟩ : ∃ wanted, desired = newParentPath.push (.utf8 wanted) := ⟨_, joinUnderRoot_ok joined⟩
  split at rest
  · cases rest
    refine ⟨oldPath, newParentPath, [wanted], resolveEntryPath_ok source, resolveEntryPath_ok destination,
      List.cons_ne_nil _ _, ?_⟩
    rw [inFolder]
    rfl
  · obtain ⟨dest, taken, same⟩ := bind_eq_ok rest
    obtain ⟨name, there⟩ := takeDestination_ok taken
    cases same
    refine ⟨oldPath, newParentPath, [wanted, name], resolveEntryPath_ok source, resolveEntryPath_ok destination,
      List.cons_ne_nil _ _, ?_⟩
    rw [inFolder, there]
    rfl

theorem delete_ok {trash recursive : Option Bool} (deleted : explorer.delete id trash recursive = .ok touches) :
    ∃ path, explorer.store.idToPath[id]? = some path ∧ touches = [⟨some id, some path, false⟩] := by
  obtain ⟨path, resolved, rest⟩ := bind_eq_ok deleted
  obtain ⟨entry, _, rest⟩ := bind_eq_ok rest
  dsimp only at rest
  split at rest
  · cases rest
  split at rest
  · cases rest
  split at rest
  · obtain ⟨_, _, same⟩ := bind_eq_ok rest
    cases same
    exact ⟨path, resolveEntryPath_ok resolved, rfl⟩
  · cases rest
    exact ⟨path, resolveEntryPath_ok resolved, rfl⟩

theorem copy_ok (copied : explorer.copy disk id newParentId newName options = .ok touches) :
    ∃ srcPath newParentPath name, explorer.store.idToPath[id]? = some srcPath ∧
      explorer.store.idToPath[newParentId]? = some newParentPath ∧
      touches = [⟨some id, some srcPath, false⟩,
        ⟨some newParentId, some (newParentPath.push (.utf8 name)), false⟩] := by
  obtain ⟨⟨allowCrossRoot, collision⟩, _, rest⟩ := bind_eq_ok copied
  obtain ⟨srcPath, source, rest⟩ := bind_eq_ok rest
  obtain ⟨newParentPath, destination, rest⟩ := bind_eq_ok rest
  obtain ⟨entry, _, rest⟩ := bind_eq_ok rest
  obtain ⟨parent, _, rest⟩ := bind_eq_ok rest
  obtain ⟨_, _, rest⟩ := bind_eq_ok rest
  dsimp only at rest
  split at rest
  · cases rest
  obtain ⟨root, _, rest⟩ := bind_eq_ok rest
  obtain ⟨⟨parentCanon, rootCanon⟩, _, rest⟩ := bind_eq_ok rest
  obtain ⟨_, _, rest⟩ := bind_eq_ok rest
  obtain ⟨dest, taken, rest⟩ := bind_eq_ok rest
  obtain ⟨name, there⟩ := takeDestination_ok taken
  split at rest
  · cases rest
  split at rest
  · cases rest
  cases rest
  exact ⟨srcPath, newParentPath, name, resolveEntryPath_ok source, resolveEntryPath_ok destination, by rw [there]⟩

theorem copyFromPath_ok {sourcePath : String}
    (copied : explorer.copyFromPath disk sourcePath newParentId newName options = .ok touches) :
    ∃ srcPath newParentPath name, Path.parse sourcePath = some srcPath ∧
      explorer.store.idToPath[newParentId]? = some newParentPath ∧
      touches = [⟨none, some srcPath, false⟩,
        ⟨some newParentId, some (newParentPath.push (.utf8 name)), false⟩] := by
  unfold copyFromPath at copied
  split at copied
  · cases copied
  next srcPath parsed =>
  obtain ⟨⟨_, collision⟩, _, rest⟩ := bind_eq_ok copied
  obtain ⟨newParentPath, destination, rest⟩ := bind_eq_ok rest
  obtain ⟨parent, _, rest⟩ := bind_eq_ok rest
  obtain ⟨_, _, rest⟩ := bind_eq_ok rest
  obtain ⟨root, _, rest⟩ := bind_eq_ok rest
  dsimp only at rest
  split at rest
  · cases rest
  obtain ⟨_, _, rest⟩ := bind_eq_ok rest
  obtain ⟨⟨parentCanon, rootCanon⟩, _, rest⟩ := bind_eq_ok rest
  obtain ⟨_, _, rest⟩ := bind_eq_ok rest
  obtain ⟨dest, taken, rest⟩ := bind_eq_ok rest
  obtain ⟨name, there⟩ := takeDestination_ok taken
  split at rest
  · cases rest
  split at rest
  · cases rest
  cases rest
  exact ⟨srcPath, newParentPath, name, parsed, resolveEntryPath_ok destination, by rw [there]⟩

theorem probeDestination_ok (probed : explorer.probeDestination disk parentId name = .ok touches) :
    ∃ parentPath, explorer.store.idToPath[parentId]? = some parentPath ∧
      touches = [⟨some parentId, some (parentPath.push (.utf8 name)), false⟩] := by
  obtain ⟨parentPath, resolved, rest⟩ := bind_eq_ok probed
  obtain ⟨root, _, rest⟩ := bind_eq_ok rest
  obtain ⟨_, _, rest⟩ := bind_eq_ok rest
  obtain ⟨⟨parentCanon, rootCanon⟩, _, rest⟩ := bind_eq_ok rest
  obtain ⟨desired, joined, same⟩ := bind_eq_ok rest
  cases same
  exact ⟨parentPath, resolveEntryPath_ok resolved, by rw [joinUnderRoot_ok joined]⟩

theorem readFile_ok (read : explorer.readFile id = .ok touches) :
    ∃ path, explorer.store.idToPath[id]? = some path ∧ touches = [⟨some id, some path, false⟩] := by
  obtain ⟨path, resolved, same⟩ := bind_eq_ok read
  cases same
  exact ⟨path, resolveEntryPath_ok resolved, rfl⟩

theorem readText_ok {encoding : Option String} (read : explorer.readText id encoding = .ok touches) :
    ∃ path, explorer.store.idToPath[id]? = some path ∧ touches = [⟨some id, some path, false⟩] := by
  obtain ⟨path, resolved, rest⟩ := bind_eq_ok read
  dsimp only at rest
  split at rest
  · cases rest
  cases rest
  exact ⟨path, resolveEntryPath_ok resolved, rfl⟩

theorem writeFile_ok {isAtomic : Option Bool} (written : explorer.writeFile id isAtomic = .ok touches) :
    ∃ path, explorer.store.idToPath[id]? = some path ∧
      touches = (if isAtomic.getD false then [⟨some id, tmpSibling path, false⟩] else []) ++
        [⟨some id, some path, false⟩] := by
  obtain ⟨path, resolved, rest⟩ := bind_eq_ok written
  obtain ⟨entry, _, rest⟩ := bind_eq_ok rest
  refine ⟨path, resolveEntryPath_ok resolved, ?_⟩
  split at rest
  · next whole =>
    cases rest
    rw [if_pos whole]
    rfl
  · next direct =>
    cases rest
    rw [if_neg direct]
    rfl

theorem resync_ok (listed : explorer.resync id = .ok touches) :
    ∃ entry path, explorer.store.inner.entries[id]? = some entry ∧ explorer.store.idToPath[id]? = some path ∧
      ((entry.isFolder = true ∨ entry.parentId = none) ∧ touches = [⟨some id, some path, true⟩] ∨
        entry.parentId ≠ none ∧ entry.isFolder = false ∧ ∃ parentPath, path.parent = some parentPath ∧
          touches = [⟨some id, some parentPath, true⟩]) := by
  obtain ⟨entry, required, rest⟩ := bind_eq_ok listed
  obtain ⟨path, resolved, rest⟩ := bind_eq_ok rest
  refine ⟨entry, path, requireEntry_ok required, resolveEntryPath_ok resolved, ?_⟩
  split at rest
  · next direct =>
    cases rest
    exact .inl ⟨direct, rfl⟩
  · next beside =>
    rw [not_or] at beside
    cases above : path.parent with
    | none => simp [above] at rest
    | some parentPath =>
      simp only [above] at rest
      cases rest
      exact .inr ⟨beside.2, by simpa using beside.1, parentPath, rfl, rfl⟩

end Explorer

namespace Host

/-- A request of a session, with the time at which it arrives. -/
inductive Request where
  | mutate (operationId : Option String) (mutation : Mutation)
  | call (now : Nat) (call : Call)

/-- The paths an accepted request works on. -/
def accept (host : Host) (disk : DiskView) (session : HostSession) : Request → Except HostError (List Touch)
  | .mutate operationId mutation => host.handleMutate disk session operationId mutation
  | .call now call => host.handleCall disk session now call

/-- When a mutation whose ids have passed the boundary check stays inside. -/
def ClearMutation (store : EntryStore) : Mutation → Prop
  | .create parentId _ _ => ¬ store.inner.IsLink parentId ∧ store.CleanBeyond parentId
  | .rename id newName =>
    (store.idToPath[id]?.bind Path.fileName = some (.utf8 newName)) ∨ store.IsInner id ∧ store.CleanBeyond id
  | .move id newParentId _ _ | .copy id newParentId _ _ =>
    store.CleanBeyond id ∧ ¬ store.inner.IsLink newParentId ∧ store.CleanBeyond newParentId
  | .delete id _ _ | .readFile id | .readText id _ => store.CleanBeyond id
  | .copyFromPath sourcePath newParentId _ _ =>
    (∃ path, Path.parse sourcePath = some path ∧ ∃ root ∈ store.inner.roots, store.ReachedFrom root path false) ∧
      ¬ store.inner.IsLink newParentId ∧ store.CleanBeyond newParentId
  | .writeFile id _ isAtomic => (isAtomic = some true → store.IsInner id) ∧ store.CleanBeyond id

/-- When a call, whose id nobody checks, stays inside. -/
def ClearCall (store : EntryStore) : Call → Prop
  | .probeDestination parentId _ => store.Clean parentId
  | .resync id _ =>
    (store.inner.entries[id]?.any (·.isFolder) = true → ¬ store.inner.IsLink id) ∧ store.CleanAbove id

def Clear (store : EntryStore) : Request → Prop
  | .mutate _ mutation => ClearMutation store mutation
  | .call _ call => ClearCall store call

section Accepted

variable {host : Host} {disk : DiskView} {session : HostSession} {touches : List Touch}
variable (forested : host.explorer.store.Forested) (coherent : host.explorer.store.Coherent)

theorem ofNative_ok {α : Type} {action : Except FxError α} {value : α} (ran : ofNative action = .ok value) :
    action = .ok value := by
  cases action with
  | error error => cases ran
  | ok value =>
    cases ran
    rfl

theorem handleMutate_ok {operationId : Option String} {mutation : Mutation} (restricted : session.policy.access ≠ .admin)
    (accepted : host.handleMutate disk session operationId mutation = .ok touches) :
    (∀ id ∈ mutation.ids, host.explorer.store.inner.crossesSymlink id = false) ∧
      host.dispatchMutation disk session.policy mutation = .ok touches := by
  obtain ⟨_, _, rest⟩ := bind_eq_ok accepted
  obtain ⟨_, checked, rest⟩ := bind_eq_ok rest
  obtain ⟨_, _, dispatched⟩ := bind_eq_ok rest
  refine ⟨fun id member => ?_, dispatched⟩
  unfold assertWithinBoundary at checked
  rw [if_neg restricted] at checked
  split at checked
  · cases checked
  · next clear =>
    rw [Bool.not_eq_true, List.any_eq_false] at clear
    simpa using clear id member

include forested coherent

theorem mutation_inside_iff {mutation : Mutation}
    (checked : ∀ id ∈ mutation.ids, host.explorer.store.inner.crossesSymlink id = false)
    (dispatched : host.dispatchMutation disk session.policy mutation = .ok touches) :
    (∀ touch ∈ touches, Contained host.explorer.store touch) ↔ ClearMutation host.explorer.store mutation := by
  cases mutation with
  | create parentId name kind =>
    obtain ⟨parentPath, indexed, rfl⟩ := Explorer.create_ok (ofNative_ok dispatched)
    rw [List.forall_mem_singleton, contained_child forested coherent indexed, clean_iff,
      cleanAbove_iff_beyond (checked parentId (by simp [Mutation.ids]))]
    rfl
  | rename id newName =>
    obtain ⟨oldPath, parentPath, indexed, above, rfl⟩ := Explorer.rename_ok (ofNative_ok dispatched)
    have beyond := cleanAbove_iff_beyond (checked id (by simp [Mutation.ids]))
    simp only [ClearMutation, indexed, Option.bind_some]
    split
    · next unchanged =>
      have same : oldPath.fileName = some (.utf8 newName) := by rw [← unchanged, Path.fileName_push]
      simp [same]
    · next other =>
      have changed : oldPath.fileName ≠ some (.utf8 newName) := fun last => other (Path.eq_push above last).symm
      rw [List.forall_mem_cons, List.forall_mem_singleton, contained_at forested coherent indexed,
        contained_sibling forested coherent indexed above _ other, beyond]
      simp [changed]
  | move id newParentId newName options =>
    obtain ⟨oldPath, newParentPath, names, source, destination, some, rfl⟩ :=
      Explorer.moveEntry_ok (ofNative_ok dispatched)
    have children : (∀ touch ∈ names.map (fun name => (⟨.some newParentId, .some (newParentPath.push (.utf8 name)), false⟩ :
        Touch)), Contained host.explorer.store touch) ↔ host.explorer.store.Clean newParentId := by
      rw [List.forall_mem_map]
      obtain ⟨first, others, rfl⟩ := List.exists_cons_of_ne_nil some
      exact ⟨fun all => (contained_child forested coherent destination _).mp (all first (by simp)),
        fun clean name _ => (contained_child forested coherent destination _).mpr clean⟩
    rw [List.forall_mem_cons, children, contained_at forested coherent source, clean_iff,
      cleanAbove_iff_beyond (checked id (by simp [Mutation.ids])),
      cleanAbove_iff_beyond (checked newParentId (by simp [Mutation.ids]))]
    rfl
  | delete id trash recursive =>
    obtain ⟨path, indexed, rfl⟩ := Explorer.delete_ok (ofNative_ok dispatched)
    rw [List.forall_mem_singleton, contained_at forested coherent indexed,
      cleanAbove_iff_beyond (checked id (by simp [Mutation.ids]))]
    rfl
  | copy id newParentId newName options =>
    obtain ⟨srcPath, newParentPath, name, source, destination, rfl⟩ := Explorer.copy_ok (ofNative_ok dispatched)
    rw [List.forall_mem_cons, List.forall_mem_singleton, contained_at forested coherent source,
      contained_child forested coherent destination, clean_iff,
      cleanAbove_iff_beyond (checked id (by simp [Mutation.ids])),
      cleanAbove_iff_beyond (checked newParentId (by simp [Mutation.ids]))]
    rfl
  | copyFromPath sourcePath newParentId newName options =>
    simp only [dispatchMutation] at dispatched
    split at dispatched
    · cases dispatched
    obtain ⟨srcPath, newParentPath, name, parsed, destination, rfl⟩ :=
      Explorer.copyFromPath_ok (ofNative_ok dispatched)
    have imported : Contained host.explorer.store ⟨none, some srcPath, false⟩ ↔
        ∃ path, Path.parse sourcePath = some path ∧
          ∃ root ∈ host.explorer.store.inner.roots, host.explorer.store.ReachedFrom root path false := by
      simp [Contained, parsed]
    rw [List.forall_mem_cons, List.forall_mem_singleton, imported, contained_child forested coherent destination,
      clean_iff, cleanAbove_iff_beyond (checked newParentId (by simp [Mutation.ids]))]
    rfl
  | readFile id =>
    obtain ⟨_, _, read⟩ := bind_eq_ok dispatched
    obtain ⟨path, indexed, rfl⟩ := Explorer.readFile_ok (ofNative_ok read)
    rw [List.forall_mem_singleton, contained_at forested coherent indexed,
      cleanAbove_iff_beyond (checked id (by simp [Mutation.ids]))]
    rfl
  | readText id encoding =>
    obtain ⟨_, _, read⟩ := bind_eq_ok dispatched
    obtain ⟨path, indexed, rfl⟩ := Explorer.readText_ok (ofNative_ok read)
    rw [List.forall_mem_singleton, contained_at forested coherent indexed,
      cleanAbove_iff_beyond (checked id (by simp [Mutation.ids]))]
    rfl
  | writeFile id byteLength isAtomic =>
    obtain ⟨_, _, written⟩ := bind_eq_ok dispatched
    obtain ⟨path, indexed, rfl⟩ := Explorer.writeFile_ok (ofNative_ok written)
    have beyond := cleanAbove_iff_beyond (checked id (by simp [Mutation.ids]))
    have inside := contained_at forested coherent indexed
    cases isAtomic with
    | none => simp [ClearMutation, inside, beyond]
    | some whole =>
      cases whole with
      | false => simp [ClearMutation, inside, beyond]
      | true =>
        have beside : Contained host.explorer.store ⟨some id, Explorer.tmpSibling path, false⟩ ↔
            host.explorer.store.IsInner id ∧ host.explorer.store.CleanAbove id :=
          contained_tmpSibling forested coherent indexed
        simp only [Option.getD_some, if_true, List.singleton_append, List.forall_mem_cons, beside, inside, beyond]
        simp [ClearMutation]

theorem call_inside_iff {call : Call} {now : Nat} (accepted : host.handleCall disk session now call = .ok touches) :
    (∀ touch ∈ touches, Contained host.explorer.store touch) ↔ ClearCall host.explorer.store call := by
  cases call with
  | probeDestination parentId name =>
    obtain ⟨_, _, rest⟩ := bind_eq_ok accepted
    split at rest
    · cases rest
    obtain ⟨parentPath, indexed, rfl⟩ := Explorer.probeDestination_ok (ofNative_ok rest)
    rw [List.forall_mem_singleton, contained_child forested coherent indexed]
    rfl
  | resync id recursive =>
    obtain ⟨_, _, rest⟩ := bind_eq_ok accepted
    obtain ⟨_, _, listed⟩ := bind_eq_ok rest
    obtain ⟨entry, path, found, indexed, ⟨direct, rfl⟩ | ⟨inner, file, parentPath, above, rfl⟩⟩ :=
      Explorer.resync_ok (ofNative_ok listed)
    · rw [List.forall_mem_singleton, contained_entered forested coherent indexed, clean_iff]
      simp only [ClearCall, found, Option.any_some]
      refine and_congr_left fun _ => ⟨fun plain _ => plain, fun plain => ?_⟩
      rcases direct with folder | isTop
      · exact plain folder
      · rintro ⟨other, present, inner, _⟩
        cases Option.some.inj (found.symm.trans present)
        exact inner isTop
    · rw [List.forall_mem_singleton, contained_directory forested coherent found inner indexed above]
      simp [ClearCall, found, file]

/-- The paths of an accepted request stay inside the workspace exactly when what the boundary check
does not look at is clean: the folder a request enters, the ancestors past its guard, the ids of calls,
the source of an import and the directory above a workspace root. -/
theorem accepted_inside_iff (restricted : session.policy.access ≠ .admin) (request : Request)
    (accepted : host.accept disk session request = .ok touches) :
    (∀ touch ∈ touches, Contained host.explorer.store touch) ↔ Clear host.explorer.store request := by
  cases request with
  | mutate operationId mutation =>
    obtain ⟨checked, dispatched⟩ := handleMutate_ok restricted accepted
    exact mutation_inside_iff forested coherent checked dispatched
  | call now call => exact call_inside_iff forested coherent accepted

end Accepted

section Sample

/-- A workspace `r` with a folder `d` that holds a file `f`; the folder leads to the given path. -/
def sampleDisk (target : Path) (kind : FileType) : DiskView where
  canonicalize path :=
    if path = Path.ofNames ["r"] then .ok path
    else match path.stripPrefix (Path.ofNames ["r", "d"]) with
      | some [] => .ok target
      | some [last] => if last = .normal (.utf8 "f") then .ok (target ++ [last]) else .error .enoent
      | _ => .error .enoent
  symlinkMetadata path :=
    if path = Path.ofNames ["r"] then .ok .dir
    else if path = Path.ofNames ["r", "d"] then .ok kind
    else if path = Path.ofNames ["r", "d", "f"] then .ok .file
    else .error .enoent
  metadata path :=
    if path = Path.ofNames ["r"] ∨ path = Path.ofNames ["r", "d"] then .ok .dir
    else if path = Path.ofNames ["r", "d", "f"] then .ok .file
    else .error .enoent
  readDir path :=
    if path = Path.ofNames ["r"] then .ok ["d"]
    else if path = Path.ofNames ["r", "d"] then .ok ["f"]
    else .error .enoent

def sampleHost (kind : EntryKind) (symlinkTargetIsDir : Option Bool) : Host :=
  ⟨⟨sampleStore kind symlinkTargetIsDir, [Path.ofNames ["r"]]⟩, []⟩

def sampleWriter : HostSession :=
  ⟨1, ⟨.readWrite, none, fun _ => none, none⟩, [], []⟩

theorem linked_reached : Reaches (fun store op => store.PathAdmissible op ∧ store.MovesWhole op) new
    (sampleStore .symlink (some true)) := by
  refine ((Reaches.start.step _ ⟨PlacedBelow.root rfl, trivial⟩).step _
    ⟨PlacedBelow.child (Path.ofNames ["r"]) rfl ?_ ?_ ?_, trivial⟩).step _
    ⟨PlacedBelow.child (Path.ofNames ["r", "d"]) rfl ?_ ?_ ?_, trivial⟩
  all_goals decide

theorem accepted_inside_iff_create :
    (sampleHost .directory none).accept (sampleDisk (Path.ofNames ["r", "d"]) .dir) sampleWriter
      (.mutate none (.create 1 "x" 0)) = .ok [⟨some 1, some (Path.ofNames ["r", "d", "x"]), false⟩] ∧
    ((∀ touch ∈ [(⟨some 1, some (Path.ofNames ["r", "d", "x"]), false⟩ : Touch)],
      Contained (sampleStore .directory none) touch) ↔
      Clear (sampleStore .directory none) (.mutate none (.create 1 "x" 0))) := by
  have accepted : (sampleHost .directory none).accept (sampleDisk (Path.ofNames ["r", "d"]) .dir) sampleWriter
      (.mutate none (.create 1 "x" 0)) = .ok [⟨some 1, some (Path.ofNames ["r", "d", "x"]), false⟩] := by
    decide
  exact ⟨accepted, accepted_inside_iff sampleStore_reached.coherent.1 sampleStore_reached.coherent.2
    (by decide) _ accepted⟩

/-- A file is created through a symlink that the check never looks at: the folder it is created in. -/
theorem create_passes_link :
    Reaches (fun store op => store.PathAdmissible op ∧ store.MovesWhole op) new (sampleStore .symlink (some true)) ∧
    ∃ touches, (sampleHost .symlink (some true)).accept (sampleDisk (Path.ofNames ["outside"]) .symlink) sampleWriter
      (.mutate none (.create 1 "x" 0)) = .ok touches ∧ sampleWriter.policy.access ≠ .admin ∧
    ∃ touch ∈ touches, ¬ Contained (sampleStore .symlink (some true)) touch := by
  refine ⟨linked_reached, [⟨some 1, some (Path.ofNames ["r", "d", "x"]), false⟩], by decide, by decide, _,
    List.mem_singleton_self _, ?_⟩
  intro inside
  obtain ⟨forested, coherent⟩ := linked_reached.coherent
  have indexed : (sampleStore .symlink (some true)).idToPath[1]? = some (Path.ofNames ["r", "d"]) := by
    decide
  have clean := (contained_child forested coherent indexed (.utf8 "x")).mp inside
  exact clean 0 1 rfl (by decide)

end Sample

end Host

end Mille
