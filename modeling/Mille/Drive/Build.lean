import Mille.Lib.FileTree
import Mille.Drive.Manifest

/-! A version laid out as a folder: what is written where on a volume that tells names
apart in its own way. -/

namespace Mille.Drive

open Std Mille.Bincode FileTree

inductive PutMode where
  | link
  | copy
  | linkOrCopy
deriving DecidableEq

/-- What the store and the volume answer while one file is placed. -/
structure Turn where
  held : Bool
  folders : Bool
  link : Bool
  copy : Bool
deriving DecidableEq

inductive BuildError where
  | createDir (path : List String)
  | notHeld (path : String) (digest : Blake3)
  | folders (path : List String)
  | place (target : List String)
deriving DecidableEq

/-- A call of `place`, with what stood at its target. -/
structure Write (ν : Type) where
  file : FileEntry
  target : List String
  found : Option (FileTree.Node ν Blake3)

structure Site (ν : Type) where
  disk : View ν Blake3
  writes : List (Write ν)

/-- `PathBuf::push` of a segment, which has no slash and so is not absolute. -/
def pushSegment (path : List String) (segment : String) : List String :=
  if segment = "" then path else path ++ [segment]

section Materialize

variable {ν : Type} [DecidableEq ν] (key : String → ν)

def set (disk : View ν Blake3) (path : List ν) (node : FileTree.Node ν Blake3) : View ν Blake3 :=
  fun other => if other = path then some node else disk other

/-- `fs::create_dir`: nothing may stand there, and the parent must. -/
def createDir (allowed : Bool) (disk : View ν Blake3) (path : List ν) : Option (View ν Blake3) :=
  match disk path, disk path.dropLast with
  | none, some .directory => if allowed then some (set disk path .directory) else none
  | _, _ => none

/-- `fs::create_dir_all`: fails where something else than a folder is in the way. -/
def createDirAll (allowed : Bool) (disk : View ν Blake3) (path : List ν) : Option (View ν Blake3) :=
  let blocked := path.inits.any fun part => match disk part with
    | none | some .directory => false
    | some _ => true
  if allowed && !blocked then
    some fun part => if part <+: path ∧ (disk part).isNone then some .directory else disk part
  else none

/-- `fs::hard_link`: nothing may stand at the target. -/
def hardLink (allowed : Bool) (disk : View ν Blake3) (digest : Blake3) (target : List ν) :
    Option (View ν Blake3) :=
  match disk target, disk target.dropLast with
  | none, some .directory => if allowed then some (set disk target (.file digest)) else none
  | _, _ => none

/-- `fs::copy`: what stands at the target is overwritten, unless it is a folder. -/
def copyFile (allowed : Bool) (disk : View ν Blake3) (digest : Blake3) (target : List ν) :
    Option (View ν Blake3) :=
  match disk target, disk target.dropLast with
  | some .directory, _ => none
  | _, some .directory => if allowed then some (set disk target (.file digest)) else none
  | _, _ => none

def place (mode : PutMode) (turn : Turn) (disk : View ν Blake3) (digest : Blake3) (target : List ν) :
    Option (View ν Blake3) :=
  match mode with
  | .link => hardLink turn.link disk digest target
  | .copy => copyFile turn.copy disk digest target
  | .linkOrCopy =>
    match hardLink turn.link disk digest target with
    | some linked => some linked
    | none => copyFile turn.copy disk digest target

/-- One file of the loop. -/
def materializeFile (dest : List String) (mode : PutMode) (leftOut : ExtTreeSet String) (site : Site ν)
    (file : FileEntry) (turn : Turn) : Site ν × Except BuildError Unit :=
  if leftOut.contains file.path then (site, .ok ())
  else if !turn.held then (site, .error (.notHeld file.path file.blake3))
  else
    let target := (segments file.path).foldl pushSegment dest
    match createDirAll turn.folders site.disk (target.dropLast.map key) with
    | none => (site, .error (.folders target.dropLast))
    | some disk =>
      let writes := site.writes ++ [⟨file, target, disk (target.map key)⟩]
      match place mode turn disk file.blake3 (target.map key) with
      | none => (⟨disk, writes⟩, .error (.place target))
      | some placed => (⟨placed, writes⟩, .ok ())

def materializeFiles (dest : List String) (mode : PutMode) (leftOut : ExtTreeSet String) :
    Site ν → List (FileEntry × Turn) → Site ν × Except BuildError Unit
  | site, [] => (site, .ok ())
  | site, (file, turn) :: rest =>
    match materializeFile key dest mode leftOut site file turn with
    | (after, .ok ()) => materializeFiles dest mode leftOut after rest
    | (after, .error error) => (after, .error error)

def materialize (disk : View ν Blake3) (dest : List String) (mode : PutMode) (leftOut : ExtTreeSet String)
    (allowed : Bool) (files : List (FileEntry × Turn)) : Site ν × Except BuildError Unit :=
  match createDir allowed disk (dest.map key) with
  | none => (⟨disk, []⟩, .error (.createDir dest))
  | some made => materializeFiles key dest mode leftOut ⟨made, []⟩ files

end Materialize

section Volumes

variable {ν : Type} [DecidableEq ν] {key : String → ν} {dest : List String} {mode : PutMode}
  {leftOut : ExtTreeSet String} {base : View ν Blake3}

/-- Where a file goes below the destination, as the volume names it. -/
def keyed (key : String → ν) (file : FileEntry) : List ν := (segments file.path).map key

theorem foldl_pushSegment {names : List String} (named : ∀ name ∈ names, name ≠ "") (path : List String) :
    names.foldl pushSegment path = path ++ names := by
  induction names generalizing path with
  | nil => exact (List.append_nil path).symm
  | cons name rest ih =>
    obtain ⟨first, others⟩ := List.forall_mem_cons.mp named
    rw [List.foldl_cons, ih others, pushSegment, if_neg first, List.append_assoc]
    rfl

omit [DecidableEq ν] in
theorem within_of_keyed {data : CaseData}
    (coarse : ∀ name other, key name = key other → data.toLowercase name = data.toLowercase other)
    {file other : FileEntry} (below : keyed key file <+: keyed key other) :
    Within (data.toLowercase file.path) (data.toLowercase other.path) := by
  have folded : ∀ names others : List String, names.map key <+: others.map key →
      names.map data.toLowercase <+: others.map data.toLowercase := by
    intro names others before
    induction names generalizing others with
    | nil => exact List.nil_prefix
    | cons name rest ih =>
      cases others with
      | nil => exact absurd (List.prefix_nil.mp before) (by simp)
      | cons second others =>
        obtain ⟨same, later⟩ := List.cons_prefix_cons.mp before
        exact List.cons_prefix_cons.mpr ⟨coarse name second same, ih others later⟩
  obtain ⟨rest, joined⟩ := folded _ _ below
  rw [← segments_toLowercase, ← segments_toLowercase] at joined
  have path := intercalate_segments (data.toLowercase other.path)
  rw [← joined] at path
  cases rest with
  | nil =>
    rw [List.append_nil, intercalate_segments] at path
    exact .inl path.symm
  | cons name rest =>
    rw [String.intercalate_append_of_ne_nil (segments_ne_nil _) (by simp), intercalate_segments] at path
    exact .inr ⟨_, path.symm⟩

omit [DecidableEq ν] in
theorem keyed_apart {data : CaseData} {files : List FileEntry} (valid : Portable data.toLowercase files)
    (coarse : ∀ name other, key name = key other → data.toLowercase name = data.toLowercase other) :
    files.Pairwise fun file other =>
      ¬keyed key file <+: keyed key other ∧ ¬keyed key other <+: keyed key file :=
  valid.clashless.imp fun clear =>
    ⟨fun below => clear.1 (within_of_keyed coarse below), fun above => clear.2 (within_of_keyed coarse above)⟩

/-! ### What stands below the destination -/

/-- A call of `materialize` on its way: below the destination stands only what the files so
far called for, and nothing else has changed. -/
structure Building (key : String → ν) (dest : List String) (base : View ν Blake3) (files : List FileEntry)
    (site : Site ν) : Prop where
  above : ∀ part, part <+: dest.map key → site.disk part = some .directory
  below : ∀ rest, rest ≠ [] → site.disk (dest.map key ++ rest) ≠ none →
    ∃ file ∈ files, rest <+: keyed key file
  outside : ∀ path, ¬dest.map key <+: path → site.disk path = base path
  fresh : ∀ write ∈ site.writes, write.file ∈ files ∧ write.target = dest ++ segments write.file.path ∧
    write.found = none
  apart : site.writes.Pairwise fun write other => write.target.map key ≠ other.target.map key

/-- Every file written so far stands at its target. -/
def Stored (key : String → ν) (site : Site ν) : Prop :=
  ∀ write ∈ site.writes, site.disk (write.target.map key) = some (.file write.file.blake3)

theorem createDirAll_some {allowed : Bool} {disk made : View ν Blake3} {path : List ν}
    (done : createDirAll allowed disk path = some made) (other : List ν) :
    made other = if other <+: path ∧ disk other = none then some .directory else disk other := by
  unfold createDirAll at done
  dsimp only at done
  split_ifs at done
  cases done
  simp only [Option.isNone_iff_eq_none]

theorem place_some {turn : Turn} {disk placed : View ν Blake3} {digest : Blake3} {target : List ν}
    (done : place mode turn disk digest target = some placed) : placed = set disk target (.file digest) := by
  have linked {allowed : Bool} (done : hardLink allowed disk digest target = some placed) :
      placed = set disk target (.file digest) := by
    unfold hardLink at done
    split at done
    · split_ifs at done
      exact (Option.some.inj done).symm
    · cases done
  have copied {allowed : Bool} (done : copyFile allowed disk digest target = some placed) :
      placed = set disk target (.file digest) := by
    unfold copyFile at done
    split at done
    · cases done
    · split_ifs at done
      exact (Option.some.inj done).symm
    · cases done
  unfold place at done
  split at done
  · exact linked done
  · exact copied done
  · split at done
    · rename_i first found
      cases done
      exact linked found
    · exact copied done

section Step

variable {done : List FileEntry} {site : Site ν} {file : FileEntry} {turn : Turn}

omit [DecidableEq ν] in
theorem Building.mono (building : Building key dest base done site) {more : List FileEntry}
    (within : ∀ file ∈ done, file ∈ more) : Building key dest base more site where
  above := building.above
  below := by
    intro rest some_left there
    obtain ⟨file, listed, before⟩ := building.below rest some_left there
    exact ⟨file, within file listed, before⟩
  outside := building.outside
  fresh := fun write listed => ⟨within _ (building.fresh write listed).1, (building.fresh write listed).2⟩
  apart := building.apart

omit [DecidableEq ν] in
theorem keyed_ne_nil (file : FileEntry) : keyed key file ≠ [] := by
  unfold keyed
  simpa using segments_ne_nil file.path

/-- The folders of a file are made below the destination. -/
theorem Building.folders (building : Building key dest base done site) {made : View ν Blake3}
    {allowed : Bool} (ran : createDirAll allowed site.disk (dest.map key ++ (keyed key file).dropLast) = some made) :
    Building key dest base (done ++ [file]) ⟨made, site.writes⟩ where
  above := by
    intro part before
    change made part = _
    rw [createDirAll_some ran, building.above part before, if_neg (by simp)]
  below := by
    intro rest some_left there
    change made _ ≠ none at there
    rw [createDirAll_some ran] at there
    split_ifs at there with added
    · refine ⟨file, List.mem_append_right _ List.mem_cons_self, ?_⟩
      have inside : rest <+: (keyed key file).dropLast := (List.prefix_append_right_inj _).mp added.1
      exact inside.trans (List.dropLast_prefix _)
    · obtain ⟨other, listed, before⟩ := building.below rest some_left there
      exact ⟨other, List.mem_append_left _ listed, before⟩
  outside := by
    intro path apart
    change made path = _
    rw [createDirAll_some ran]
    split_ifs with added
    · -- a folder above the destination already stands
      rcases List.prefix_or_prefix_of_prefix added.1 (List.prefix_append (dest.map key) _) with above | under
      · rw [building.above path above] at added
        cases added.2
      · exact absurd under apart
    · exact building.outside path apart
  fresh := fun write listed =>
    ⟨List.mem_append_left _ (building.fresh write listed).1, (building.fresh write listed).2⟩
  apart := building.apart

theorem Building.vacant (building : Building key dest base done site) {made : View ν Blake3} {allowed : Bool}
    (ran : createDirAll allowed site.disk (dest.map key ++ (keyed key file).dropLast) = some made)
    (clear : ∀ other ∈ done, ¬keyed key file <+: keyed key other) :
    made (dest.map key ++ keyed key file) = none := by
  have before : site.disk (dest.map key ++ keyed key file) = none := by
    by_contra there
    obtain ⟨other, listed, under⟩ := building.below _ (keyed_ne_nil file) there
    exact clear other listed under
  rw [createDirAll_some ran, if_neg _, before]
  rintro ⟨inside, _⟩
  have short := ((List.prefix_append_right_inj _).mp inside).length_le
  have some_left := List.length_pos_iff.mpr (@keyed_ne_nil ν key file)
  rw [List.length_dropLast] at short
  omega

omit [DecidableEq ν] in
theorem Building.noted (building : Building key dest base (done ++ [file]) site)
    (earlier : ∀ write ∈ site.writes, write.file ∈ done)
    (clear : ∀ other ∈ done, ¬keyed key file <+: keyed key other) :
    Building key dest base (done ++ [file])
      ⟨site.disk, site.writes ++ [⟨file, dest ++ segments file.path, none⟩]⟩ where
  above := building.above
  below := building.below
  outside := building.outside
  fresh := by
    rw [List.forall_mem_append]
    exact ⟨building.fresh, List.forall_mem_singleton.mpr ⟨List.mem_append_right _ List.mem_cons_self, rfl, rfl⟩⟩
  apart := by
    refine List.pairwise_append.mpr ⟨building.apart, List.pairwise_singleton _ _, ?_⟩
    intro write listed other last same
    cases List.mem_singleton.mp last
    rw [(building.fresh write listed).2.1, List.map_append, List.map_append] at same
    have equal : keyed key write.file = keyed key file := List.append_cancel_left same
    exact clear write.file (earlier write listed) (equal ▸ List.prefix_rfl)

theorem Building.placed (building : Building key dest base done site) (listed : file ∈ done) (node : FileTree.Node ν Blake3) :
    Building key dest base done ⟨set site.disk (dest.map key ++ keyed key file) node, site.writes⟩ where
  above := by
    intro part before
    have shorter : part ≠ dest.map key ++ keyed key file := by
      rintro rfl
      have short := before.length_le
      have some_left := List.length_pos_iff.mpr (@keyed_ne_nil ν key file)
      rw [List.length_append] at short
      omega
    exact (if_neg shorter).trans (building.above part before)
  below := by
    intro rest some_left there
    by_cases same : rest = keyed key file
    · exact ⟨file, listed, same ▸ List.prefix_rfl⟩
    · have other : dest.map key ++ rest ≠ dest.map key ++ keyed key file :=
        fun equal => same (List.append_cancel_left equal)
      exact building.below rest some_left (by rwa [← show set site.disk _ node _ = _ from if_neg other])
  outside := by
    intro path apart
    have other : path ≠ dest.map key ++ keyed key file := by
      rintro rfl
      exact apart (List.prefix_append _ _)
    exact (if_neg other).trans (building.outside path apart)
  fresh := building.fresh
  apart := building.apart

theorem Building.step (building : Building key dest base done site)
    (named : ∀ segment ∈ segments file.path, segment ≠ "")
    (clear : ∀ other ∈ done, ¬keyed key file <+: keyed key other) :
    Building key dest base (done ++ [file]) (materializeFile key dest mode leftOut site file turn).1 ∧
      ((materializeFile key dest mode leftOut site file turn).2 = .ok () →
        (Stored key site → Stored key (materializeFile key dest mode leftOut site file turn).1) ∧
        (materializeFile key dest mode leftOut site file turn).1.writes.map (·.file) =
          site.writes.map (·.file) ++ if leftOut.contains file.path then [] else [file]) := by
  have kept : Building key dest base (done ++ [file]) site :=
    building.mono fun other listed => List.mem_append_left _ listed
  have target : (segments file.path).foldl pushSegment dest = dest ++ segments file.path :=
    foldl_pushSegment named dest
  have whole : (dest ++ segments file.path).map key = dest.map key ++ keyed key file := List.map_append
  have parent : (dest ++ segments file.path).dropLast.map key = dest.map key ++ (keyed key file).dropLast := by
    rw [List.map_dropLast, whole, List.dropLast_append_of_ne_nil (keyed_ne_nil file)]
  unfold materializeFile
  split_ifs with left missing
  · exact ⟨kept, fun _ => ⟨id, by simp⟩⟩
  · exact ⟨kept, nofun⟩
  · dsimp only
    rw [target, parent, whole]
    cases ran : createDirAll turn.folders site.disk (dest.map key ++ (keyed key file).dropLast) with
    | none => exact ⟨kept, nofun⟩
    | some made =>
      have folders := building.folders ran
      have vacant := building.vacant ran clear
      have noted := folders.noted (fun write listed => (building.fresh write listed).1) clear
      dsimp only
      rw [vacant]
      cases put : place mode turn made file.blake3 (dest.map key ++ keyed key file) with
      | none => exact ⟨noted, nofun⟩
      | some placed =>
        cases place_some put
        refine ⟨noted.placed (List.mem_append_right _ List.mem_cons_self) _, fun _ => ⟨?_, by simp⟩⟩
        intro stored write listed
        rcases List.mem_append.mp listed with early | last
        · have other : write.target.map key ≠ dest.map key ++ keyed key file := by
            have apart := (List.pairwise_append.mp noted.apart).2.2 write early _ List.mem_cons_self
            rwa [whole] at apart
          have made_ : made (write.target.map key) = site.disk (write.target.map key) := by
            rw [createDirAll_some ran, if_neg]
            rintro ⟨_, nothing⟩
            rw [stored write early] at nothing
            cases nothing
          exact (if_neg other).trans (made_.trans (stored write early))
        · cases List.mem_singleton.mp last
          exact if_pos whole

/-- The loop over the files: from what is built so far and files that clash with none of it,
nor with each other. -/
theorem Building.run (building : Building key dest base done site) {files : List (FileEntry × Turn)}
    (named : ∀ pair ∈ files, ∀ segment ∈ segments pair.1.path, segment ≠ "")
    (apart : (files.map (·.1)).Pairwise fun file other =>
      ¬keyed key file <+: keyed key other ∧ ¬keyed key other <+: keyed key file)
    (clear : ∀ pair ∈ files, ∀ other ∈ done, ¬keyed key pair.1 <+: keyed key other) :
    Building key dest base (done ++ files.map (·.1)) (materializeFiles key dest mode leftOut site files).1 ∧
      ((materializeFiles key dest mode leftOut site files).2 = .ok () →
        (Stored key site → Stored key (materializeFiles key dest mode leftOut site files).1) ∧
        (materializeFiles key dest mode leftOut site files).1.writes.map (·.file) = site.writes.map (·.file) ++
          (files.map (·.1)).filter fun file => !leftOut.contains file.path) := by
  induction files generalizing done site with
  | nil =>
    rw [materializeFiles, List.map_nil, List.append_nil]
    exact ⟨building, fun _ => ⟨id, by simp⟩⟩
  | cons pair rest ih =>
    obtain ⟨file, turn⟩ := pair
    obtain ⟨first, others⟩ := List.forall_mem_cons.mp named
    obtain ⟨free, later⟩ := List.forall_mem_cons.mp clear
    obtain ⟨here, behind⟩ := List.pairwise_cons.mp apart
    obtain ⟨stepped, completes⟩ := @Building.step ν _ key dest mode leftOut base done site file turn building
      first free
    rw [materializeFiles]
    cases ran : materializeFile key dest mode leftOut site file turn with
    | mk after result =>
      rw [ran] at stepped completes
      cases result with
      | error error =>
        refine ⟨?_, nofun⟩
        apply stepped.mono
        intro other listed
        rcases List.mem_append.mp listed with early | last
        · exact List.mem_append_left _ early
        · exact List.mem_append_right _ (List.mem_singleton.mp last ▸ List.mem_cons_self)
      | ok =>
        obtain ⟨stored, written⟩ := completes rfl
        have rest_clear : ∀ pair ∈ rest, ∀ other ∈ done ++ [file], ¬keyed key pair.1 <+: keyed key other := by
          intro pair listed other member
          rcases List.mem_append.mp member with early | last
          · exact later pair listed other early
          · rw [List.mem_singleton.mp last]
            exact (here pair.1 (List.mem_map_of_mem listed)).2
        obtain ⟨built, finishes⟩ := ih stepped others behind rest_clear
        rw [List.append_assoc, List.singleton_append] at built
        refine ⟨built, fun done => ?_⟩
        obtain ⟨kept, all⟩ := finishes done
        refine ⟨fun before => kept (stored before), ?_⟩
        rw [all, written, List.append_assoc, List.map_cons]
        congr 1
        by_cases left : leftOut.contains file.path = true
        · rw [if_pos left, List.filter_cons_of_neg (by simpa using left)]
          rfl
        · rw [if_neg left, List.filter_cons_of_pos (by rw [Bool.eq_false_iff.mpr left]; rfl)]
          rfl

end Step

theorem createDir_some {allowed : Bool} {made : View ν Blake3} {path : List ν}
    (done : createDir allowed base path = some made) :
    base path = none ∧ base path.dropLast = some .directory ∧ made = set base path .directory := by
  unfold createDir at done
  split at done
  · split_ifs at done
    exact ⟨‹_›, ‹_›, (Option.some.inj done).symm⟩
  · cases done

/-- A folder that was just made has folders above it and nothing in it. -/
theorem Building.start (closed : base.Closed) {allowed : Bool} {made : View ν Blake3}
    (done : createDir allowed base (dest.map key) = some made) : Building key dest base [] ⟨made, []⟩ := by
  obtain ⟨vacant, parent, rfl⟩ := createDir_some done
  refine ⟨?_, ?_, ?_, fun _ nothing => absurd nothing List.not_mem_nil, List.Pairwise.nil⟩
  · intro part before
    by_cases whole : part = dest.map key
    · exact if_pos whole
    · refine (if_neg whole).trans ?_
      have some_left : dest.map key ≠ [] := by
        intro empty
        rw [empty] at vacant parent
        rw [List.dropLast_nil, vacant] at parent
        cases parent
      obtain ⟨rest, joined⟩ := before
      have more : rest ≠ [] := by
        rintro rfl
        exact whole (by rw [← joined, List.append_nil])
      rw [← joined, List.dropLast_append_of_ne_nil more] at parent
      cases last : rest.dropLast with
      | nil =>
        rw [last, List.append_nil] at parent
        exact parent
      | cons name others =>
        rw [last] at parent
        exact closed.root (by rw [parent]; simp)
  · intro rest more there
    exfalso
    have other : dest.map key ++ rest ≠ dest.map key := by simpa using more
    have under : base (dest.map key ++ rest) ≠ none := by
      intro nothing
      exact there ((if_neg other).trans nothing)
    cases rest with
    | nil => exact more rfl
    | cons name others =>
      have directory := closed.root under
      rw [vacant] at directory
      cases directory
  · intro path apart
    have other : path ≠ dest.map key := by
      rintro rfl
      exact apart List.prefix_rfl
    exact if_neg other

/-- A valid manifest laid out: each file at its own place below the destination, where
nothing stood, and nothing outside the destination is touched. When the call succeeds
every file that is not left out has been written, and stands there. -/
theorem materialize_places {data : CaseData}
    (coarse : ∀ name other, key name = key other → data.toLowercase name = data.toLowercase other)
    (closed : base.Closed) {files : List (FileEntry × Turn)}
    (valid : Portable data.toLowercase (files.map (·.1))) (allowed : Bool) :
    (∀ write ∈ (materialize key base dest mode leftOut allowed files).1.writes,
        write.file ∈ files.map (·.1) ∧ write.target = dest ++ segments write.file.path ∧ write.found = none) ∧
      ((materialize key base dest mode leftOut allowed files).1.writes.Pairwise fun write other =>
        write.target.map key ≠ other.target.map key) ∧
      (∀ path, ¬dest.map key <+: path →
        (materialize key base dest mode leftOut allowed files).1.disk path = base path) ∧
      ((materialize key base dest mode leftOut allowed files).2 = .ok () →
        (materialize key base dest mode leftOut allowed files).1.writes.map (·.file) =
            (files.map (·.1)).filter (fun file => !leftOut.contains file.path) ∧
          Stored key (materialize key base dest mode leftOut allowed files).1) := by
  unfold materialize
  cases made : createDir allowed base (dest.map key) with
  | none => exact ⟨by simp, List.Pairwise.nil, fun _ _ => rfl, nofun⟩
  | some disk =>
    have named : ∀ pair ∈ files, ∀ segment ∈ segments pair.1.path, segment ≠ "" :=
      fun pair listed segment => segment_ne_empty (valid.portable pair.1 (List.mem_map_of_mem listed))
    obtain ⟨built, finishes⟩ := @Building.run ν _ key dest mode leftOut base [] ⟨disk, []⟩
      (.start closed made) files named
      (keyed_apart valid coarse) (fun _ _ _ nothing => absurd nothing List.not_mem_nil)
    refine ⟨built.fresh, built.apart, built.outside, fun done => ?_⟩
    obtain ⟨stored, written⟩ := finishes done
    exact ⟨written, stored fun _ nothing => absurd nothing List.not_mem_nil⟩

end Volumes

/-- The byte strings a document's version ids are hashes of. -/
def DocState.encodings (state : DocState) : Set Bytes :=
  {bytes | ∃ files ∈ state.manifests, bytes = canonicalManifest files}

theorem files_of_id {toLowercase : String → String} {hash : Bytes → Blake3} {first second : DocState}
    (apart : Set.InjOn hash (first.encodings ∪ second.encodings)) {left right : VersionView}
    (one : first.Views toLowercase hash left) (two : second.Views toLowercase hash right)
    (sound : left.quarantined = false) (also : right.quarantined = false) (same : left.id = right.id) :
    left.files.Perm right.files := by
  obtain ⟨recorded, valid, named⟩ := attested_of_views one sound
  obtain ⟨stored, fine, titled⟩ := attested_of_views two also
  have digests : hash (canonicalManifest left.files) = hash (canonicalManifest right.files) := by
    apply toHex_injective
    exact named.trans (same.trans titled.symm)
  have encodings := apart (.inl ⟨_, recorded, rfl⟩) (.inr ⟨_, stored, rfl⟩) digests
  exact (canonicalManifest_eq_iff (.of_valid valid) (.of_valid fine)).mp encodings

/-- Lower-casing of text that is lower-case already. -/
private def lowered : CaseData where
  lower char := [char]
  cased := Char.isAlpha
  caseIgnorable char := char = '.'
  lower_ne_nil _ := List.cons_ne_nil _ _
  lower_slash := rfl
  slash_of_lower _ listed := (List.mem_singleton.mp listed).symm
  slash_cased := by decide
  slash_ignorable := by decide

end Mille.Drive
