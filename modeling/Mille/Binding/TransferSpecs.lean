import Mille.Binding.Transfer

/-! What each step of a transfer does to the tree on disk, and the weight of a tree that
the count and the progress of a copy agree on. -/

namespace Mille.Transfer

open FileTree

variable {ν κ : Type} [DecidableEq ν] {platform : Platform ν κ}

section Steps

variable {α β : Type} {world after : World ν κ}

omit [DecidableEq ν] in
theorem bind_ok {op : Op ν κ α} {value : α} (runs : op world = .ok value after) (next : α → Op ν κ β) :
    (op >>= next) world = next value after := by
  show EStateM.bind op next world = _
  rw [EStateM.bind, runs]

omit [DecidableEq ν] in
/-- No cancellation was asked for. -/
def Calm (world : World ν κ) : Prop :=
  ∀ progress, world.progress = some progress → progress.cancelled = false

omit [DecidableEq ν] in
/-- The progress moved by that many entries and nothing else of it changed. -/
def Bumped (world after : World ν κ) (count : Nat) : Prop :=
  ∃ paths : List (List ν), paths.length = count ∧
    after.progress = world.progress.map fun progress => paths.foldl Progress.bump progress

omit [DecidableEq ν] in
theorem Bumped.refl (world : World ν κ) : Bumped world world 0 :=
  ⟨[], rfl, by cases world.progress <;> rfl⟩

omit [DecidableEq ν] in
theorem Bumped.trans {last : World ν κ} {first second : Nat} (left : Bumped world after first)
    (right : Bumped after last second) : Bumped world last (first + second) := by
  obtain ⟨paths, length, moved⟩ := left
  obtain ⟨more, length', moved'⟩ := right
  refine ⟨paths ++ more, by simp [length, length'], ?_⟩
  rw [moved', moved]
  cases world.progress <;> simp

omit [DecidableEq ν] in
theorem foldl_bump_cancelled (paths : List (List ν)) (progress : Progress ν) :
    (paths.foldl Progress.bump progress).cancelled = progress.cancelled := by
  induction paths generalizing progress with
  | nil => rfl
  | cons path rest ih => exact ih (progress.bump path)

omit [DecidableEq ν] in
theorem Bumped.calm {count : Nat} (bumped : Bumped world after count) (calm : Calm world) : Calm after := by
  obtain ⟨paths, _, moved⟩ := bumped
  intro progress found
  rw [moved] at found
  obtain ⟨before, was, rfl⟩ := Option.map_eq_some_iff.mp found
  rw [foldl_bump_cancelled]
  exact calm before was

omit [DecidableEq ν] in
theorem check_ok (calm : Calm world) : check world = .ok () world := by
  unfold check
  split
  · next progress found => simp [calm progress found]
  · rfl

omit [DecidableEq ν] in
theorem bump_bumped (path : List ν) :
    Bumped world { world with progress := world.progress.map (·.bump path) } 1 :=
  ⟨[path], rfl, rfl⟩

theorem symlinkMetadata_ok {path : List ν} {node : Node ν κ} (there : world.disk.look path = some node) :
    symlinkMetadata path world = .ok node world := by
  unfold symlinkMetadata
  rw [there]

theorem readDir_ok (platform : Platform ν κ) {path : List ν} (directory : world.disk.look path = some .directory) :
    ∃ names, readDir platform path world = .ok names world ∧ names.Nodup ∧
      names.Perm (world.disk.names path) ∧
      ∀ name, name ∈ names ↔ world.disk.look (path ++ [name]) ≠ none := by
  refine ⟨platform.order world.disk path (world.disk.names path), ?_, ?_, ?_, ?_⟩
  · unfold readDir
    rw [directory]
  · exact (platform.order_perm _ _ _).nodup_iff.mpr (world.disk.nodup_names path)
  · exact platform.order_perm _ _ _
  · intro name
    rw [(platform.order_perm world.disk path _).mem_iff, Disk.mem_names]

end Steps

section Places

variable {view tree : View ν κ} {path : List ν}

omit [DecidableEq ν] in
theorem grounded_child (directory : view path = some .directory) (name : ν) :
    grounded view (path ++ [name]) = true := by
  have under : View.isDir (view.under path) = true := View.isDir_iff.mpr (by simpa using directory)
  simp [grounded, under]

theorem grounded_paste : grounded (view.paste path tree) path = grounded view path := by
  cases split : path.getLast? with
  | none =>
    rw [List.getLast?_eq_none_iff] at split
    subst split
    rfl
  | some last =>
    have parts := List.dropLast_append_getLast? last split
    have above : ¬path <+: path.dropLast := by
      intro inside
      have shorter := inside.length_le
      rw [List.length_dropLast] at shorter
      have nonempty : 0 < path.length := by
        rw [← parts]
        simp
      omega
    have same : View.isDir ((view.paste path tree).under path.dropLast) =
        View.isDir (view.under path.dropLast) := by
      simp only [View.isDir, View.under_apply, List.append_nil]
      rw [View.paste_off _ _ above]
    simp only [grounded, same]

omit [DecidableEq ν] in
theorem grounded_of_closed (closed : view.Closed) (there : view path ≠ none) (inner : path ≠ []) :
    grounded view path = true := by
  have parts := List.dropLast_append_getLast inner
  have directory := closed path.dropLast (path.getLast inner) (by rw [parts]; exact there)
  rw [← parts]
  exact grounded_child directory _

end Places

section Writes

variable {world : World ν κ} {path : List ν}

theorem createDir_ok (ground : grounded world.disk.look path = true)
    (free : world.disk.look.under path = .empty) :
    ∃ after : World ν κ, createDir path world = .ok () after ∧
      after.disk.look = world.disk.look.paste path (View.single .directory) ∧
      after.progress = world.progress ∧ after.visited = world.visited := by
  have gone : world.disk.look path = none := by simpa using congrFun free []
  refine ⟨{ world with disk := world.disk.put path .directory }, ?_, ?_, rfl, rfl⟩
  · unfold createDir
    simp [ground, gone]
  · rw [Disk.look_put, View.update_eq_paste]
    intro name rest
    exact congrFun free (name :: rest)

theorem writeFile_ok (content : κ) (ground : grounded world.disk.look path = true)
    (free : world.disk.look.under path = .empty) :
    ∃ after : World ν κ, writeFile content path world = .ok () after ∧
      after.disk.look = world.disk.look.paste path (View.single (.file content)) ∧
      after.progress = world.progress ∧ after.visited = world.visited := by
  have gone : world.disk.look path = none := by simpa using congrFun free []
  refine ⟨{ world with disk := world.disk.put path (.file content) }, ?_, ?_, rfl, rfl⟩
  · unfold writeFile
    simp [ground, gone]
  · rw [Disk.look_put, View.update_eq_paste]
    intro name rest
    exact congrFun free (name :: rest)

theorem removePathBestEffort_ok (closed : (world.disk.look.under path).Closed) :
    ∃ after : World ν κ, removePathBestEffort path world = .ok () after ∧
      after.disk.look = world.disk.look.paste path .empty ∧
      after.progress = world.progress ∧ after.visited = world.visited := by
  cases found : world.disk.look path with
  | none =>
    refine ⟨world, ?_, ?_, rfl, rfl⟩
    · unfold removePathBestEffort
      rw [found]
    · have gone : world.disk.look.under path = .empty := closed.eq_empty (by simpa using found)
      rw [← gone, View.paste_under]
  | some node =>
    refine ⟨{ world with disk := world.disk.removeTree path }, ?_, Disk.look_removeTree _ _, rfl, rfl⟩
    unfold removePathBestEffort
    rw [found]
    cases node <;> rfl

theorem rename_ok {source target : List ν} (there : world.disk.look source ≠ none)
    (apart : View.Apart source target) (ground : grounded world.disk.look target = true)
    (free : world.disk.look.under target = .empty) :
    ∃ after : World ν κ, rename source target world = .ok () after ∧
      after.disk.look =
        (world.disk.look.paste target (world.disk.look.under source)).paste source .empty ∧
      after.progress = world.progress ∧ after.visited = world.visited := by
  obtain ⟨node, found⟩ := Option.ne_none_iff_exists'.mp there
  have gone : world.disk.look target = none := by simpa using congrFun free []
  refine ⟨{ world with disk := world.disk.moveTree source target }, ?_,
    world.disk.look_moveTree apart free, rfl, rfl⟩
  unfold rename
  simp [found, apart.1, ground, gone]

theorem removeDir_single (bare : world.disk.look.under path = View.single .directory) :
    ∃ after : World ν κ, removeDir path world = .ok () after ∧
      after.disk.look = world.disk.look.paste path .empty ∧
      after.progress = world.progress ∧ after.visited = world.visited := by
  have found : world.disk.look path = some .directory := by simpa [View.single] using congrFun bare []
  have childless : world.disk.names path = [] := by
    rw [List.eq_nil_iff_forall_not_mem]
    intro name member
    exact (world.disk.mem_names.mp member) (by simpa [View.single] using congrFun bare [name])
  refine ⟨{ world with disk := world.disk.removeTree path }, ?_, Disk.look_removeTree _ _, rfl, rfl⟩
  unfold removeDir
  simp [found, childless]

theorem removeDir_missing (gone : world.disk.look path = none) : removeDir path world = .ok () world := by
  unfold removeDir
  rw [gone]

end Writes

/-- The entries of a tree down to a depth, the root included. -/
def weigh (disk : Disk ν κ) : Nat → List ν → Nat
  | 0, _ => 0
  | depth + 1, path =>
    match disk.look path with
    | some .directory => 1 + ((disk.names path).map fun name => weigh disk depth (path ++ [name])).sum
    | some _ => 1
    | none => 0

theorem weigh_congr {disk other : Disk ν κ} (depth : Nat) (path : List ν)
    (same : disk.look.under path = other.look.under path) : weigh disk depth path = weigh other depth path := by
  induction depth generalizing path with
  | zero => rfl
  | succ depth ih =>
    have root : disk.look path = other.look path := by simpa using congrFun same []
    have children : ∀ name, weigh disk depth (path ++ [name]) = weigh other depth (path ++ [name]) := by
      intro name
      apply ih
      rw [← View.under_under, same, View.under_under]
    unfold weigh
    rw [root]
    split
    · rw [List.map_congr_left fun name _ => children name]
      rw [((disk.names_perm same).map _).sum_eq]
    · rfl
    · rfl

/-- Nothing stands deeper than the depth. -/
def Shallow (depth : Nat) (view : View ν κ) : Prop := ∀ path, depth ≤ path.length → view path = none

omit [DecidableEq ν] in
theorem Shallow.child {depth : Nat} {view : View ν κ} (shallow : Shallow (depth + 1) view) (name : ν) :
    Shallow depth (view.under [name]) := by
  intro path deep
  exact shallow ([name] ++ path) (by simpa using deep)

omit [DecidableEq ν] in
theorem Shallow.pos {depth : Nat} {view : View ν κ} (shallow : Shallow depth view)
    (there : view [] ≠ none) : ∃ smaller, depth = smaller + 1 := by
  cases depth with
  | zero => exact absurd (shallow [] (Nat.zero_le _)) there
  | succ smaller => exact ⟨smaller, rfl⟩

/-- Deep enough for every tree of the disk. -/
def enough (disk : Disk ν κ) : Nat := (disk.entries.map (·.1.length)).foldr max 0 + 1

theorem shallow_enough (disk : Disk ν κ) (base : List ν) {depth : Nat} (deep : enough disk ≤ depth) :
    Shallow depth (disk.look.under base) := by
  intro path long
  rw [View.under_apply, Disk.look, List.lookup_eq_none_iff]
  intro entry member
  rw [bne_iff_ne]
  intro same
  have bound : entry.1.length ≤ (disk.entries.map (·.1.length)).foldr max 0 := by
    exact List.le_max_of_le' _ (List.mem_map_of_mem member) (le_refl _)
  rw [← same, List.length_append] at bound
  unfold enough at deep
  omega

omit [DecidableEq ν] in
theorem foldlM_count {world : World ν κ} {count : ν → Op ν κ Nat} {weight : ν → Nat} {names : List ν}
    (each : ∀ name ∈ names, count name world = .ok (weight name) world) (start : Nat) :
    (names.foldlM (fun total name => do
      let more ← count name
      return total + more) start : Op ν κ Nat) world = .ok (start + (names.map weight).sum) world := by
  induction names generalizing start with
  | nil => rfl
  | cons name rest ih =>
    rw [List.foldlM_cons, bind_assoc, bind_ok (each name (by simp)), pure_bind,
      ih (fun other member => each other (List.mem_cons_of_mem _ member)), List.map_cons, List.sum_cons,
      Nat.add_assoc]

omit [DecidableEq ν] in
theorem deeper {src : List ν} {stack : List (List ν)} {name : ν}
    (above : ∀ key ∈ stack, key.length < src.length) :
    ∀ key ∈ stack ++ [src], key.length < (src ++ [name]).length := by
  intro key inside
  rw [List.length_append, List.length_singleton]
  rcases List.mem_append.mp inside with before | last
  · exact Nat.lt_succ_of_lt (above key before)
  · rw [List.mem_singleton.mp last]
    exact Nat.lt_succ_self _

theorem countCopyEntries_ok (platform : Platform ν κ) (depth : Nat) {src : List ν} (stack : List (List ν))
    {world : World ν κ} (calm : Calm world) (there : world.disk.look src ≠ none)
    (shallow : Shallow depth (world.disk.look.under src))
    (above : ∀ key ∈ stack, key.length < src.length) :
    countCopyEntries platform depth src stack world = .ok (weigh world.disk depth src) world := by
  induction depth generalizing src stack with
  | zero => exact absurd (by simpa using shallow [] (Nat.zero_le _)) there
  | succ depth ih =>
    obtain ⟨node, found⟩ := Option.ne_none_iff_exists'.mp there
    rw [countCopyEntries, bind_ok (check_ok calm), bind_ok (symlinkMetadata_ok found), weigh, found]
    cases node with
    | file _ => rfl
    | symlink _ => rfl
    | special => rfl
    | directory =>
      have outside : src ∉ stack := fun member => Nat.lt_irrefl _ (above src member)
      obtain ⟨names, listed, _, perm, present⟩ := readDir_ok platform found
      simp only [if_neg outside]
      rw [bind_ok listed]
      have each : ∀ name ∈ names, countCopyEntries platform depth (src ++ [name]) (stack ++ [src]) world =
          .ok (weigh world.disk depth (src ++ [name])) world := by
        intro name member
        apply ih _ ((present name).mp member) _ (deeper above)
        rw [← View.under_under]
        exact shallow.child name
      rw [foldlM_count each 1, (perm.map _).sum_eq]

end Mille.Transfer
