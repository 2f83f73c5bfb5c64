import Mille.Binding.TransferOverlay

/-! How far a transfer reaches: however it ends, only the trees it was given change, and a
merge that is made once more changes nothing. -/

namespace Mille.Transfer

open FileTree

variable {ν κ α β : Type} [DecidableEq ν] {inside : List ν → Prop} {src dst : List ν}

omit [DecidableEq ν] in
/-- The disk an operation leaves, whether it succeeds or fails. -/
def diskAfter (op : Op ν κ α) (world : World ν κ) : Disk ν κ :=
  match op world with
  | .ok _ after | .error _ after => after.disk

/-- However the operation ends, what is not inside stays as it was. -/
def Confined (inside : List ν → Prop) (op : Op ν κ α) : Prop :=
  ∀ world path, ¬inside path → (diskAfter op world).look path = world.disk.look path

theorem Confined.of_disk {op : Op ν κ α} (same : ∀ world, diskAfter op world = world.disk) : Confined inside op :=
  fun world path _ => by rw [same world]

theorem Confined.bind {op : Op ν κ α} {next : α → Op ν κ β} (first : Confined inside op)
    (later : ∀ value, Confined inside (next value)) : Confined inside (op >>= next) := by
  intro world path outside
  have here := first world path outside
  unfold diskAfter at here ⊢
  show Disk.look (match EStateM.bind op next world with | .ok _ after | .error _ after => after.disk) path = _
  unfold EStateM.bind
  cases ends : op world with
  | ok value after =>
    rw [ends] at here
    exact (later value after path outside).trans here
  | error failure after =>
    rw [ends] at here
    exact here

theorem Confined.forM {names : List ν} {body : ν → Op ν κ Unit} (each : ∀ name, Confined inside (body name)) :
    Confined inside (names.forM body) := by
  induction names with
  | nil => exact .of_disk fun _ => rfl
  | cons name rest ih =>
    show Confined inside (body name >>= fun _ => rest.forM body)
    exact (each name).bind fun _ => ih

/-- What only reads, counts or fails is confined to nothing. -/
structure Reads (inside : List ν → Prop) (platform : Platform ν κ) : Prop where
  check : Confined inside (check (ν := ν) (κ := κ))
  bump : ∀ path, Confined inside (bump (κ := κ) path)
  visit : ∀ path, Confined inside (visit (κ := κ) path)
  lookup : ∀ path, Confined inside (lookup (κ := κ) path)
  symlinkMetadata : ∀ path, Confined inside (symlinkMetadata (κ := κ) path)
  metadata : ∀ path, Confined inside (metadata platform path)
  readDir : ∀ path, Confined inside (readDir platform path)
  throw : ∀ failure, Confined inside (throw failure : Op ν κ Unit)

theorem confined_reads (platform : Platform ν κ) : Reads inside platform where
  check := .of_disk fun world => by
    unfold diskAfter Transfer.check
    cases world.progress with
    | none => rfl
    | some progress => cases cancelled : progress.cancelled <;> simp [cancelled]
  bump _ := .of_disk fun _ => rfl
  visit _ := .of_disk fun _ => rfl
  lookup _ := .of_disk fun _ => rfl
  symlinkMetadata path := .of_disk fun world => by
    unfold diskAfter Transfer.symlinkMetadata
    cases world.disk.look path <;> rfl
  metadata _ := .of_disk fun _ => rfl
  readDir path := .of_disk fun world => by
    unfold diskAfter Transfer.readDir
    rcases world.disk.look path with _ | _ | _ | _ | _ <;> rfl
  throw _ := .of_disk fun _ => rfl

section Changes

variable {path : List ν} (closed : ∀ rest, inside (path ++ rest))

include closed

theorem confined_put {world : World ν κ} {node : Node ν κ} {other : List ν} (outside : ¬inside other) :
    (world.disk.put path node).look other = world.disk.look other := by
  rw [Disk.look_put, Function.update_of_ne]
  rintro rfl
  exact outside (by simpa using closed [])

theorem confined_removeTree {disk : Disk ν κ} {other : List ν} (outside : ¬inside other) :
    (disk.removeTree path).look other = disk.look other := by
  rw [Disk.look_removeTree, View.paste_off]
  rintro ⟨rest, rfl⟩
  exact outside (closed rest)

theorem confined_makes : Confined inside (createDir (κ := κ) path) ∧
    (∀ content : κ, Confined inside (writeFile content path)) ∧
    ∀ target, Confined inside (createSymlink (κ := κ) target path) := by
  refine ⟨fun world other outside => ?_, fun content world other outside => ?_, fun target world other outside => ?_⟩
  · unfold diskAfter createDir
    split_ifs <;> try rfl
    rcases world.disk.look path with _ | _ <;> first | rfl | exact confined_put closed outside
  · unfold diskAfter writeFile
    split_ifs <;> try rfl
    rcases world.disk.look path with _ | _ | _ | _ | _ <;> first | rfl | exact confined_put closed outside
  · unfold diskAfter createSymlink
    split_ifs <;> try rfl
    rcases world.disk.look path with _ | _ <;> first | rfl | exact confined_put closed outside

theorem confined_removes : Confined inside (removeDir (κ := κ) path) ∧
    Confined inside (removePathBestEffort (κ := κ) path) := by
  refine ⟨fun world other outside => ?_, fun world other outside => ?_⟩
  · unfold diskAfter removeDir
    rcases world.disk.look path with _ | _ | _ | _ | _ <;> try rfl
    cases (world.disk.names path).isEmpty
    · rfl
    · exact confined_removeTree closed outside
  · unfold diskAfter removePathBestEffort
    rcases world.disk.look path with _ | _ | _ | _ | _ <;> first | rfl | exact confined_removeTree closed outside

theorem confined_moveTree (below : ∀ rest, inside (src ++ rest)) {disk : Disk ν κ} {other : List ν}
    (outside : ¬inside other) : (disk.moveTree src path).look other = disk.look other := by
  have renamed : (disk.moveTree src path).entries = disk.entries.map fun entry =>
      (if src <+: entry.1 then path ++ entry.1.drop src.length else entry.1, entry.2) := by
    refine List.map_congr_left fun entry _ => ?_
    split_ifs <;> rfl
  rw [Disk.look, renamed]
  refine Disk.lookup_map_key (fun key => if src <+: key then path ++ key.drop src.length else key) fun entry _ => ?_
  split_ifs with moves
  · refine ⟨fun here => absurd (here ▸ closed _) outside, ?_⟩
    rintro rfl
    obtain ⟨rest, same⟩ := moves
    exact absurd (same ▸ below rest) outside
  · rfl

theorem confined_rename (below : ∀ rest, inside (src ++ rest)) : Confined inside (rename (κ := κ) src path) := by
  intro world other outside
  have moves : ∀ disk : Disk ν κ, disk.look other = world.disk.look other →
      (disk.moveTree src path).look other = world.disk.look other := fun disk same =>
    (confined_moveTree closed below outside).trans same
  have replaces := moves _ (confined_removeTree closed outside)
  unfold diskAfter rename
  rcases world.disk.look src with _ | node
  · rfl
  · dsimp only
    split_ifs <;> try rfl
    all_goals
      rcases world.disk.look path with _ | _ | _ | _ | _ <;> rcases node with _ | _ | _ | _ <;>
        first | rfl | exact moves _ rfl | exact replaces

end Changes

section Trees

variable (platform : Platform ν κ)

theorem count_confined (fuel : Nat) (stack : List (List ν)) :
    Confined inside (countCopyEntries platform fuel src stack) := by
  have reads : Reads inside platform := confined_reads platform
  induction fuel generalizing src stack with
  | zero => exact .of_disk fun _ => rfl
  | succ fuel ih =>
    unfold countCopyEntries
    refine reads.check.bind fun _ => (reads.symlinkMetadata src).bind fun node => ?_
    cases node with
    | file | special | symlink => exact .of_disk fun _ => rfl
    | directory =>
      dsimp only
      split
      · exact .of_disk fun _ => rfl
      · refine (reads.readDir src).bind fun names => ?_
        generalize 1 = total
        induction names generalizing total with
        | nil => exact .of_disk fun _ => rfl
        | cons name rest counts =>
          rw [List.foldlM_cons]
          exact (Confined.bind (ih _) fun _ => .of_disk fun _ => rfl).bind fun _ => counts _

theorem copyTree_confined (fuel : Nat) (stack : List (List ν)) (below : ∀ rest, inside (dst ++ rest)) :
    Confined inside (copyTreeOnDisk platform fuel src dst stack) := by
  have reads : Reads inside platform := confined_reads platform
  induction fuel generalizing src dst stack with
  | zero => exact reads.throw _
  | succ fuel ih =>
    obtain ⟨creates, writes, links⟩ := confined_makes (κ := κ) below
    unfold copyTreeOnDisk
    refine reads.check.bind fun _ => (reads.symlinkMetadata src).bind fun node => ?_
    cases node with
    | file content => exact (writes content).bind fun _ => reads.bump dst
    | special => exact reads.throw _
    | directory =>
      dsimp only
      split
      · exact reads.throw _
      · refine creates.bind fun _ => (reads.bump dst).bind fun _ => (reads.readDir src).bind fun names => .forM ?_
        intro name
        exact reads.check.bind fun _ => ih _ fun rest => by simpa using below (name :: rest)
    | symlink target =>
      refine (reads.metadata src).bind fun led => ?_
      rcases led with _ | content | _ | _ | _
      · exact (links target).bind fun _ => reads.bump dst
      · exact (writes content).bind fun _ => reads.bump dst
      all_goals exact reads.throw _

theorem mergeTree_confined (fuel : Nat) (below : ∀ rest, inside (dst ++ rest)) :
    Confined inside (mergeTreeOnDisk platform fuel src dst) := by
  have reads : Reads inside platform := confined_reads platform
  induction fuel generalizing src dst with
  | zero => exact reads.throw _
  | succ fuel ih =>
    have copies := @copyTree_confined _ _ _ _ src _ platform (fuel + 1) [] below
    have replaces := (confined_removes (κ := κ) below).2.bind fun _ => copies
    unfold mergeTreeOnDisk
    refine (reads.symlinkMetadata src).bind fun node => ?_
    cases node with
    | file | special =>
      refine (reads.lookup dst).bind fun met => ?_
      cases met
      exacts [copies, replaces]
    | directory =>
      refine (reads.lookup dst).bind fun met => ?_
      rcases met with _ | _ | _ | _ | _
      · exact copies
      · exact replaces
      · refine (reads.bump dst).bind fun _ => (reads.readDir src).bind fun names => .forM fun name => ?_
        exact reads.check.bind fun _ => ih fun rest => by simpa using below (name :: rest)
      all_goals exact replaces
    | symlink target =>
      refine (reads.metadata src).bind fun led => ?_
      rcases led with _ | _ | _ | _ | _
      -- A link to a directory is refused.
      on_goal 3 => refine (reads.throw _).bind fun _ => ?_
      all_goals
        refine (reads.lookup dst).bind fun met => ?_
        cases met
        exacts [copies, replaces]

theorem mergeMoveTree_confined (fuel : Nat) (upper : ∀ rest, inside (src ++ rest))
    (below : ∀ rest, inside (dst ++ rest)) : Confined inside (mergeMoveTreeOnDisk platform fuel src dst) := by
  have reads : Reads inside platform := confined_reads platform
  induction fuel generalizing src dst with
  | zero => exact reads.throw _
  | succ fuel ih =>
    unfold mergeMoveTreeOnDisk
    refine reads.check.bind fun _ => (reads.bump dst).bind fun _ => (reads.readDir src).bind fun names => ?_
    refine .bind (.forM fun name => ?_) fun _ => (confined_removes upper).1
    have source : ∀ rest, inside (src ++ [name] ++ rest) := fun rest => by simpa using upper (name :: rest)
    have target : ∀ rest, inside (dst ++ [name] ++ rest) := fun rest => by simpa using below (name :: rest)
    have renames := (confined_rename (κ := κ) target source).bind fun _ => reads.bump (dst ++ [name])
    have replaces := (confined_removes target).2.bind fun _ => renames
    unfold mergeMoveChild
    refine reads.check.bind fun _ => (reads.visit _).bind fun _ => (reads.symlinkMetadata _).bind fun node =>
      (reads.lookup _).bind fun met => ?_
    rcases met with _ | _ | _ | _ | _
    · exact renames
    all_goals cases node <;> first | exact replaces | exact (ih source target).bind fun _ => (confined_removes source).1

end Trees

section Again

open View

/-- A merge from the same source made once more succeeds and leaves the disk as the first one left it. -/
theorem merge_again (platform : Platform ν κ) {world : World ν κ} (calm : Calm world) (closed : world.disk.look.Closed)
    (apart : Apart src dst) (there : world.disk.look src ≠ none) (plain : Plain (world.disk.look.under src))
    (target : world.disk.look dst = some .directory) : ∃ bound, ∀ fuel, bound ≤ fuel → ∃ after again,
      mergeTreeOnDisk platform fuel src dst world = .ok () after ∧
      mergeTreeOnDisk platform fuel src dst after = .ok () again ∧ again.disk.look = after.disk.look := by
  refine ⟨enough world.disk, fun fuel deep => ?_⟩
  have shallow := shallow_enough world.disk src deep
  have ground := grounded_target closed apart target
  obtain ⟨after, first⟩ :=
    mergeTree_leaves platform fuel calm there shallow (closed.under src) plain (closed.under dst) apart ground
  have source : after.disk.look.under src = world.disk.look.under src := by
    rw [first.look, under_paste_apart _ _ apart.symm]
  have made : after.disk.look.under dst = overlay (world.disk.look.under src) (world.disk.look.under dst) := by
    rw [first.look, under_paste]
  have still : after.disk.look src ≠ none := by
    have root := congrFun source []
    simp only [under_apply, List.append_nil] at root
    rwa [root]
  obtain ⟨again, second⟩ := mergeTree_leaves platform fuel (first.bumped.calm calm) still (by rwa [source])
    (by rw [source]; exact closed.under src) (by rwa [source])
    (by rw [made]; exact (closed.under src).overlay (closed.under dst)) apart
    (by rw [first.look, grounded_paste]; exact ground)
  refine ⟨after, again, first.runs, second.runs, ?_⟩
  rw [second.look, source, made, overlay_again, first.look, paste_paste]

theorem merge_again_file : ∃ bound, ∀ fuel, bound ≤ fuel → ∃ after again,
    mergeTreeOnDisk ⟨fun _ _ names => names, fun _ _ _ => .refl _, fun _ _ => none⟩ fuel [1] [2]
      ⟨⟨[([], .directory), ([1], .file true), ([2], .directory)]⟩, none, []⟩ = .ok () after ∧
    mergeTreeOnDisk ⟨fun _ _ names => names, fun _ _ _ => .refl _, fun _ _ => none⟩ fuel [1] [2] after = .ok () again ∧
    again.disk.look = after.disk.look := by
  refine merge_again _ (fun _ none_there => by cases none_there) (Disk.closed_of_entries _ (by decide))
    ⟨by decide, by decide⟩ (by decide) ?_ rfl
  intro path node found
  cases path with
  | nil =>
    cases found
    exact .inr ⟨true, rfl⟩
  | cons name rest => simp [Disk.look, List.lookup] at found

end Again

end Mille.Transfer
