import Mille.Host.BoundaryChecks
import Mille.Lib.Encoding

/-! The names a new entry may take: what `create` and `rename` refuse, and where a
transfer lands, over every listing of the folder. -/

namespace Mille

namespace DiskView

variable (disk : DiskView)

/-- The collision checks `create` and `rename` make before they touch the folder. -/
def refuseExisting (parent : Path) (name : String) : Except FxError Unit :=
  let newPath := parent.push (.utf8 name)
  match disk.symlinkMetadata newPath with
  | .ok _ => .error (.io .eexist newPath)
  | .error .enoent =>
    match disk.findCaseConflict parent name with
    | .error error => .error error
    | .ok (some _) => .error (.io .eexist newPath)
    | .ok none => .ok ()
  | .error code => .error (.io code newPath)

/-- `create` up to the write that makes the entry. -/
def createChecks (parent : Path) (name : String) : Except FxError Unit := do
  validateEntryName name
  disk.refuseExisting parent name

/-- `rename` up to the rename on disk; the name an entry has already is no change. -/
def renameChecks (parent oldPath : Path) (newName : String) : Except FxError Unit := do
  validateEntryName newName
  if parent.push (.utf8 newName) = oldPath then return ()
  disk.refuseExisting parent newName

end DiskView

/-- A character that a name may hold. -/
def PlainChar (char : Char) : Prop :=
  char ≠ '/' ∧ char ≠ '\\' ∧ char ≠ '\x00' ∧ char ≠ ':'

theorem validateEntryName_iff {name : String} :
    validateEntryName name = .ok () ↔
      (name ≠ "" ∧ name ≠ "." ∧ name ≠ "..") ∧
        ∀ char ∈ name.toList, PlainChar char := by
  unfold validateEntryName
  split
  · next dots => simp; tauto
  · next plain =>
    split
    · next split =>
      simp only [reduceCtorEq, false_iff, not_and]
      intro _ clean
      rcases split with slash | backslash | zero
      · exact (clean _ slash).1 rfl
      · exact (clean _ backslash).2.1 rfl
      · exact (clean _ zero).2.2.1 rfl
    · next single =>
      split
      · next colon =>
        simp only [reduceCtorEq, false_iff, not_and]
        intro _ clean
        exact (clean _ colon).2.2.2 rfl
      · next uncolon =>
        simp only [true_iff]
        refine ⟨by tauto, fun char inside => ⟨?_, ?_, ?_, ?_⟩⟩
        all_goals
          rintro rfl
          tauto

namespace DiskView

theorem stemAndExtension_chars {name : String} {char : Char}
    (inside : char ∈ (stemAndExtension name).1.toList ∨
      ∃ extension, (stemAndExtension name).2 = some extension ∧ char ∈ extension.toList) :
    char ∈ name.toList := by
  have parts : name.toList.reverse.span (· ≠ '.') =
      (name.toList.reverse.takeWhile (· ≠ '.'), name.toList.reverse.dropWhile (· ≠ '.')) :=
    List.span_eq_takeWhile_dropWhile ..
  have whole := List.takeWhile_append_dropWhile (p := (· ≠ '.')) (l := name.toList.reverse)
  simp only [stemAndExtension, parts] at inside
  cases rest : name.toList.reverse.dropWhile (· ≠ '.') with
  | nil => simpa only [rest, reduceCtorEq, false_and, exists_false, or_false] using inside
  | cons dot front =>
    cases front with
    | nil => simpa only [rest, reduceCtorEq, false_and, exists_false, or_false] using inside
    | cons last front =>
      simp only [rest, String.toList_ofList, List.mem_reverse, Option.some.injEq, exists_eq_left'] at inside
      rw [← List.mem_reverse, ← whole, rest]
      rcases inside with stem | extension
      · exact List.mem_append_right _ (List.mem_cons_of_mem _ stem)
      · exact List.mem_append_left _ extension

private theorem copySuffix_plain {suffix : Nat} {char : Char}
    (inside : char ∈ (if suffix = 1 then " copy" else " copy " ++ toString suffix).toList) :
    PlainChar char := by
  have copy : " copy".toList = [' ', 'c', 'o', 'p', 'y'] := rfl
  have copies : " copy ".toList = [' ', 'c', 'o', 'p', 'y', ' '] := rfl
  split at inside
  · rw [copy] at inside
    fin_cases inside <;> simp [PlainChar]
  · rw [String.toList_append, List.mem_append] at inside
    rcases inside with word | digit
    · rw [copies] at word
      fin_cases word <;> simp [PlainChar]
    · have numeral : char.isDigit = true := by
        refine Nat.isDigit_of_mem_toDigits (b := 10) (n := suffix) (by decide) (by decide) ?_
        simpa using digit
      refine ⟨?_, ?_, ?_, ?_⟩
      all_goals
        rintro rfl
        simp [Char.isDigit] at numeral

/-- A candidate is a single entry of the folder, as the name it is made from is. -/
theorem validateEntryName_candidate {name : String} (valid : validateEntryName name = .ok ())
    (suffix : Nat) : validateEntryName (candidateName name suffix) = .ok () := by
  obtain ⟨_, clean⟩ := validateEntryName_iff.mp valid
  have stem : ∀ char ∈ (stemAndExtension name).1.toList, PlainChar char :=
    fun char inside => clean char (stemAndExtension_chars (.inl inside))
  have spaced : ' ' ∈ (if suffix = 1 then " copy" else " copy " ++ toString suffix).toList := by
    split
    · decide
    · rw [String.toList_append]
      exact List.mem_append_left _ (by decide)
  have parts : (∀ char ∈ (candidateName name suffix).toList, PlainChar char) ∧
      ' ' ∈ (candidateName name suffix).toList := by
    cases split : stemAndExtension name with
    | mk front extension =>
      rw [split] at stem
      cases extension with
      | none =>
        simp only [candidateName, split, String.toList_append, List.mem_append]
        refine ⟨?_, .inr spaced⟩
        rintro char (early | late)
        · exact stem char early
        · exact copySuffix_plain late
      | some extension =>
        simp only [candidateName, split, String.toList_append, List.mem_append]
        refine ⟨?_, .inl (.inl (.inr spaced))⟩
        rintro char (((early | late) | dot) | last)
        · exact stem char early
        · exact copySuffix_plain late
        · have same : char = '.' := by simpa using dot
          simp [same, PlainChar]
        · exact clean char (stemAndExtension_chars (.inr ⟨extension, by rw [split], last⟩))
  refine validateEntryName_iff.mpr ⟨⟨?_, ?_, ?_⟩, parts.1⟩
  all_goals
    intro same
    have inside := parts.2
    rw [same] at inside
    revert inside
    decide

end DiskView

/-- An entry of a directory; `target` is what a link leads to. -/
structure Sibling where
  name : OsString
  fileType : FileType
  target : Option FileType
deriving DecidableEq

namespace Sibling

/-- The sibling has the name, up to ASCII case. -/
def Named (sibling : Sibling) (name : String) : Prop :=
  ∃ text, sibling.name = .utf8 text ∧ DiskView.eqIgnoreAsciiCase text name = true

/-- The listing shows the sibling as another spelling of the name. -/
def variant (sibling : Sibling) (name : String) : Bool :=
  sibling.name.toStringLossy ≠ name && DiskView.eqIgnoreAsciiCase sibling.name.toStringLossy name

end Sibling

/-- A directory in the order it is listed, on a volume with names of its own notion of sameness:
equality, or any folding of case. -/
structure Folder where
  siblings : List Sibling
  same : OsString → OsString → Bool
  same_self : ∀ name, same name name = true
  /-- The volume keeps no two entries under one name. -/
  apart : siblings.Pairwise fun left right => same left.name right.name = false

namespace Folder

variable (folder : Folder)

/-- The entry the volume opens under a name. -/
def lookup (name : OsString) : Option Sibling :=
  folder.siblings.find? fun sibling => folder.same sibling.name name

def open? (parent path : Path) : Except ErrorCode Sibling :=
  match path.fileName with
  | none => .error .enoent
  | some name =>
    if path.parent = some parent then
      match folder.lookup name with
      | none => .error .enoent
      | some sibling => .ok sibling
    else .error .enoent

/-- The disk with the folder at `parent`. -/
def disk (parent : Path) : DiskView where
  canonicalize := .ok
  symlinkMetadata path := (folder.open? parent path).map (·.fileType)
  metadata path := do
    let sibling ← folder.open? parent path
    if sibling.fileType = .symlink then
      match sibling.target with
      | none => .error .enoent
      | some target => .ok target
    else .ok sibling.fileType
  readDir path :=
    if path = parent then .ok (folder.siblings.map (·.name.toStringLossy)) else .error .enoent

/-- The volume opens an entry under the name. -/
def Finds (name : String) : Prop :=
  ∃ sibling ∈ folder.siblings, folder.same sibling.name (.utf8 name) = true

/-- An entry is spelled exactly so. -/
def Spells (name : String) : Prop :=
  ∃ sibling ∈ folder.siblings, sibling.name = .utf8 name

/-- Another spelling of the name is listed. -/
def Shows (name : String) : Prop :=
  ∃ sibling ∈ folder.siblings, sibling.variant name = true

instance (name : String) : Decidable (folder.Finds name) :=
  inferInstanceAs (Decidable (∃ sibling ∈ folder.siblings, folder.same sibling.name (.utf8 name) = true))

instance (name : String) : Decidable (folder.Shows name) :=
  inferInstanceAs (Decidable (∃ sibling ∈ folder.siblings, sibling.variant name = true))

/-- A new entry cannot take the name. -/
def Taken (name : String) : Prop :=
  folder.Finds name ∨ folder.Shows name

instance (name : String) : Decidable (folder.Taken name) :=
  inferInstanceAs (Decidable (folder.Finds name ∨ folder.Shows name))

/-- A destination as a transfer wants it. -/
structure Exact (parent : Path) (desired : String) (collision : CollisionPolicy)
    (resolved : Except FxError DestResolution) : Prop where
  create : ∀ dest, resolved = .ok dest → dest.action = .create →
    validateEntryName dest.name = .ok () ∧ dest.path = parent.push (.utf8 dest.name) ∧
      ∀ sibling ∈ folder.siblings, ¬ sibling.Named dest.name
  existing : ∀ dest, resolved = .ok dest → dest.action ≠ .create →
    ∃ sibling ∈ folder.siblings, dest.path = parent.push sibling.name ∧ sibling.Named desired ∧
      (folder.Spells desired → sibling.name = .utf8 desired)
  suffixed : ∀ error, resolved = .error error → collision = .rename →
    ∀ suffix, 1 ≤ suffix → suffix ≤ 10000 → folder.Taken (DiskView.candidateName desired suffix)

/-- The spelling a collision of the desired name is taken to have. -/
def Collides (desired taken : String) : Prop :=
  if folder.Finds desired then taken = desired
  else ∃ sibling, folder.siblings.find? (·.variant desired) = some sibling ∧
    taken = sibling.name.toStringLossy

/-- Whether a policy that works on the entry in the way is given the entry's own spelling. -/
def OwnSpelling (desired : String) : CollisionPolicy → Prop
  | .error | .rename => True
  | .skip | .overwrite => ∀ taken, folder.Collides desired taken → folder.Spells taken
  | .merge => ∀ taken, folder.Collides desired taken → folder.Finds taken → folder.Spells taken

section Disk

variable {folder} {parent : Path} {name desired taken : String} {sibling : Sibling}

theorem lookup_none_iff : folder.lookup (.utf8 name) = none ↔ ¬ folder.Finds name := by
  simp [lookup, Finds]

theorem Spells.finds (spelled : folder.Spells name) : folder.Finds name := by
  obtain ⟨sibling, listed, same⟩ := spelled
  exact ⟨sibling, listed, by rw [same]; exact folder.same_self _⟩

theorem open?_push (name : String) :
    folder.open? parent (parent.push (.utf8 name)) =
      match folder.lookup (.utf8 name) with
      | none => .error .enoent
      | some sibling => .ok sibling := by
  have last : Path.fileName (parent.push (.utf8 name)) = some (.utf8 name) := by
    simp [Path.fileName, Path.push]
  have above : Path.parent (parent.push (.utf8 name)) = some parent := by
    simp [Path.parent, Path.push]
  simp only [open?, last, above, if_true]
  all_goals rfl

theorem symlinkMetadata_missing (missing : ¬ folder.Finds name) :
    (folder.disk parent).symlinkMetadata (parent.push (.utf8 name)) = .error .enoent := by
  have absent := lookup_none_iff.mpr missing
  simp only [disk, open?_push, absent]
  rfl

theorem symlinkMetadata_found (parent : Path) (found : folder.Finds name) :
    ∃ fileType, (folder.disk parent).symlinkMetadata (parent.push (.utf8 name)) = .ok fileType := by
  cases looked : folder.lookup (.utf8 name) with
  | none => exact absurd found (lookup_none_iff.mp looked)
  | some sibling =>
    refine ⟨sibling.fileType, ?_⟩
    simp only [disk, open?_push, looked]
    rfl

theorem findCaseConflict_disk (name : String) :
    (folder.disk parent).findCaseConflict parent name =
      .ok ((folder.siblings.find? (·.variant name)).map (·.name.toStringLossy)) := by
  simp only [DiskView.findCaseConflict, disk, if_true, List.find?_map]
  rfl

theorem shows_of_variant (found : folder.siblings.find? (·.variant name) = some sibling) :
    folder.Shows name :=
  ⟨sibling, List.mem_of_find?_eq_some found, by simpa using List.find?_some found⟩

theorem variant_of_shows (shown : folder.Shows name) :
    ∃ sibling, folder.siblings.find? (·.variant name) = some sibling := by
  obtain ⟨sibling, listed, varies⟩ := shown
  exact Option.isSome_iff_exists.mp (List.find?_isSome.mpr ⟨sibling, listed, varies⟩)

theorem variant_none_iff : folder.siblings.find? (·.variant name) = none ↔ ¬ folder.Shows name := by
  simp [Shows]

theorem taken_of_named (listed : sibling ∈ folder.siblings) (named : sibling.Named name) :
    folder.Taken name := by
  obtain ⟨text, spelled, same⟩ := named
  by_cases exactly : text = name
  · exact .inl (Spells.finds ⟨sibling, listed, exactly ▸ spelled⟩)
  · refine .inr ⟨sibling, listed, ?_⟩
    simp [Sibling.variant, spelled, OsString.toStringLossy, exactly, same]

theorem refuseExisting_free (free : ¬ folder.Taken name) :
    (folder.disk parent).refuseExisting parent name = .ok () := by
  obtain ⟨missing, unshown⟩ := not_or.mp free
  simp only [DiskView.refuseExisting, symlinkMetadata_missing missing, findCaseConflict_disk,
    variant_none_iff.mpr unshown]
  all_goals rfl

theorem refuseExisting_taken (taken : folder.Taken name) :
    (folder.disk parent).refuseExisting parent name = .error (.io .eexist (parent.push (.utf8 name))) := by
  by_cases found : folder.Finds name
  · obtain ⟨fileType, answered⟩ := symlinkMetadata_found parent found
    simp only [DiskView.refuseExisting, answered]
    all_goals rfl
  · obtain ⟨sibling, shown⟩ := variant_of_shows (taken.resolve_left found)
    simp only [DiskView.refuseExisting, symlinkMetadata_missing found, findCaseConflict_disk, shown]
    all_goals rfl

/-- The first free candidate is taken; without one, every candidate is in the way. -/
theorem allocateSuffix_disk (folder : Folder) (parent : Path) (desired : String) (left suffix : Nat) :
    (∃ chosen, suffix ≤ chosen ∧ ¬ folder.Taken (DiskView.candidateName desired chosen) ∧
      (folder.disk parent).allocateSuffix parent desired left suffix =
        .ok ⟨DiskView.candidateName desired chosen,
          parent.push (.utf8 (DiskView.candidateName desired chosen)), .create⟩) ∨
    (∃ error, (folder.disk parent).allocateSuffix parent desired left suffix = .error error) ∧
      ∀ tried, suffix ≤ tried → tried < suffix + left →
        folder.Taken (DiskView.candidateName desired tried) := by
  induction left generalizing suffix with
  | zero => exact .inr ⟨⟨_, rfl⟩, fun tried low high => absurd low (by omega)⟩
  | succ left ih =>
    by_cases taken : folder.Taken (DiskView.candidateName desired suffix)
    · have next : (folder.disk parent).allocateSuffix parent desired (left + 1) suffix =
          (folder.disk parent).allocateSuffix parent desired left (suffix + 1) := by
        by_cases found : folder.Finds (DiskView.candidateName desired suffix)
        · obtain ⟨fileType, answered⟩ := symlinkMetadata_found parent found
          simp only [DiskView.allocateSuffix, answered]
          all_goals rfl
        · obtain ⟨sibling, shown⟩ := variant_of_shows (taken.resolve_left found)
          simp only [DiskView.allocateSuffix, symlinkMetadata_missing found, findCaseConflict_disk, shown]
          all_goals rfl
      rw [next]
      rcases ih (suffix + 1) with ⟨chosen, later, free, resolved⟩ | ⟨failed, rest⟩
      · exact .inl ⟨chosen, by omega, free, resolved⟩
      · refine .inr ⟨failed, fun tried low high => ?_⟩
        rcases Nat.eq_or_lt_of_le low with same | above
        · exact same ▸ taken
        · exact rest tried above (by omega)
    · obtain ⟨missing, unshown⟩ := not_or.mp taken
      refine .inl ⟨suffix, le_rfl, taken, ?_⟩
      simp only [DiskView.allocateSuffix, symlinkMetadata_missing missing, findCaseConflict_disk,
        variant_none_iff.mpr unshown]
      all_goals rfl

theorem resolve_free {collision : CollisionPolicy} (free : ¬ folder.Taken desired) :
    (folder.disk parent).resolveTransferDestination parent desired collision =
      .ok ⟨desired, parent.push (.utf8 desired), .create⟩ := by
  obtain ⟨missing, unshown⟩ := not_or.mp free
  simp only [DiskView.resolveTransferDestination, findCaseConflict_disk, symlinkMetadata_missing missing,
    variant_none_iff.mpr unshown]
  all_goals rfl

theorem resolve_taken (parent : Path) (collision : CollisionPolicy) (taken : folder.Taken desired) :
    ∃ spelling, folder.Collides desired spelling ∧
      (∀ other, folder.Collides desired other → other = spelling) ∧
      (folder.disk parent).resolveTransferDestination parent desired collision =
        (folder.disk parent).resolveCollision parent desired spelling collision := by
  by_cases found : folder.Finds desired
  · obtain ⟨fileType, answered⟩ := symlinkMetadata_found parent found
    refine ⟨desired, by simp [Collides, found], fun other collides => by simpa [Collides, found] using collides, ?_⟩
    simp only [DiskView.resolveTransferDestination, findCaseConflict_disk, answered]
    all_goals rfl
  · obtain ⟨sibling, shown⟩ := variant_of_shows (taken.resolve_left found)
    refine ⟨sibling.name.toStringLossy, ?_, ?_, ?_⟩
    · simp only [Collides, found, if_false]
      exact ⟨sibling, shown, rfl⟩
    · intro other collides
      simp only [Collides, found, if_false] at collides
      obtain ⟨first, same, rfl⟩ := collides
      rw [shown] at same
      rw [Option.some.inj same]
    · simp only [DiskView.resolveTransferDestination, findCaseConflict_disk, symlinkMetadata_missing found, shown]
      all_goals rfl

theorem free_unnamed (free : ¬ folder.Taken name) : ∀ sibling ∈ folder.siblings, ¬ sibling.Named name :=
  fun _ listed named => free (taken_of_named listed named)

theorem Collides.same_case (collides : folder.Collides desired taken) :
    DiskView.eqIgnoreAsciiCase taken desired = true := by
  unfold Collides at collides
  split at collides
  · rw [collides]
    simp [DiskView.eqIgnoreAsciiCase]
  · obtain ⟨sibling, shown, rfl⟩ := collides
    have varies := List.find?_some shown
    simp only [Sibling.variant, Bool.and_eq_true] at varies
    exact varies.2

theorem Collides.prefers (collides : folder.Collides desired taken) (spelled : folder.Spells desired) :
    taken = desired := by
  simpa [Collides, spelled.finds] using collides

variable {collision : CollisionPolicy}

theorem exact_create {chosen : String} (valid : validateEntryName chosen = .ok ()) (free : ¬ folder.Taken chosen) :
    folder.Exact parent desired collision (.ok ⟨chosen, parent.push (.utf8 chosen), .create⟩) where
  create := by
    intro dest same _
    cases same
    exact ⟨valid, rfl, free_unnamed free⟩
  existing := by
    intro dest same other
    cases same
    exact absurd rfl other
  suffixed := by
    intro error same
    cases same

theorem exact_action {action : DestAction} (other : action ≠ .create)
    (collides : folder.Collides desired taken) :
    folder.Exact parent desired collision (.ok ⟨taken, parent.push (.utf8 taken), action⟩) ↔
      folder.Spells taken := by
  constructor
  · intro exactly
    obtain ⟨sibling, listed, same, _⟩ := exactly.existing _ rfl other
    have spelled := List.append_cancel_left same
    simp only [List.cons.injEq, Component.normal.injEq, and_true] at spelled
    exact ⟨sibling, listed, spelled.symm⟩
  · rintro ⟨sibling, listed, spelled⟩
    refine ⟨?_, ?_, ?_⟩
    · intro dest same created
      cases same
      exact absurd created other
    · intro dest same _
      cases same
      refine ⟨sibling, listed, by rw [spelled], ⟨taken, spelled, collides.same_case⟩, fun own => ?_⟩
      rw [spelled, collides.prefers own]
    · intro error same
      cases same

theorem exact_error {error : FxError} (unlike : collision ≠ .rename) :
    folder.Exact parent desired collision (.error error) where
  create := by
    intro dest same
    cases same
  existing := by
    intro dest same
    cases same
  suffixed := fun _ _ same => absurd same unlike

theorem resolveCollision_rename (valid : validateEntryName desired = .ok ()) (spelling : String) :
    folder.Exact parent desired .rename
      ((folder.disk parent).resolveCollision parent desired spelling .rename) := by
  simp only [DiskView.resolveCollision]
  rcases allocateSuffix_disk folder parent desired 10000 1 with
    ⟨chosen, _, free, resolved⟩ | ⟨⟨error, failed⟩, all⟩
  · rw [resolved]
    exact exact_create (DiskView.validateEntryName_candidate valid chosen) free
  · rw [failed]
    refine ⟨?_, ?_, ?_⟩
    · intro dest same
      cases same
    · intro dest same
      cases same
    · intro _ _ _ suffix low high
      exact all suffix low (by omega)

theorem resolveCollision_merge (collides : folder.Collides desired taken) :
    folder.Exact parent desired .merge ((folder.disk parent).resolveCollision parent desired taken .merge) ↔
      (folder.Finds taken → folder.Spells taken) := by
  by_cases found : folder.Finds taken
  · obtain ⟨fileType, answered⟩ := symlinkMetadata_found parent found
    simp only [DiskView.resolveCollision, answered]
    rw [exact_action _ collides]
    · exact ⟨fun spelled _ => spelled, fun spelled => spelled found⟩
    · split <;> decide
  · simp only [DiskView.resolveCollision, symlinkMetadata_missing found]
    exact ⟨fun _ yes => absurd yes found, fun _ => exact_error (by decide)⟩

/-- Where a transfer lands is exact for the policies that make a new entry, and for the
others when the spelling they work under is an entry's own. -/
theorem resolve_exact_iff (valid : validateEntryName desired = .ok ()) :
    folder.Exact parent desired collision
      ((folder.disk parent).resolveTransferDestination parent desired collision) ↔
        folder.OwnSpelling desired collision := by
  by_cases taken : folder.Taken desired
  · obtain ⟨spelling, collides, unique, resolved⟩ := resolve_taken parent collision taken
    rw [resolved]
    have one (property : String → Prop) :
        (∀ other, folder.Collides desired other → property other) ↔ property spelling :=
      ⟨fun every => every spelling collides, fun own other same => unique other same ▸ own⟩
    cases collision with
    | error => exact iff_of_true (exact_error (by decide)) trivial
    | rename => exact iff_of_true (resolveCollision_rename valid spelling) trivial
    | overwrite => exact (exact_action (by decide) collides).trans (one _).symm
    | skip => exact (exact_action (by decide) collides).trans (one _).symm
    | merge =>
      exact (resolveCollision_merge collides).trans
        (one fun other => folder.Finds other → folder.Spells other).symm
  · rw [resolve_free taken]
    refine iff_of_true (exact_create valid taken) ?_
    have clear : ∀ other, ¬ folder.Collides desired other := by
      intro other collides
      obtain ⟨missing, unshown⟩ := not_or.mp taken
      simp only [Collides, missing, if_false] at collides
      obtain ⟨sibling, shown, _⟩ := collides
      exact unshown (shows_of_variant shown)
    cases collision with
    | error | rename => trivial
    | overwrite | skip => exact fun other collides => absurd collides (clear other)
    | merge => exact fun other collides => absurd collides (clear other)

theorem createChecks_refuses_iff (valid : validateEntryName name = .ok ()) :
    (∃ error, (folder.disk parent).createChecks parent name = .error error) ↔ folder.Taken name := by
  have checks : (folder.disk parent).createChecks parent name =
      (folder.disk parent).refuseExisting parent name := by
    simp only [DiskView.createChecks, valid]
    rfl
  rw [checks]
  by_cases taken : folder.Taken name
  · exact iff_of_true ⟨_, refuseExisting_taken taken⟩ taken
  · rw [refuseExisting_free taken]
    exact iff_of_false (by simp) taken

theorem renameChecks_refuses_iff (valid : validateEntryName name = .ok ()) (old : OsString) :
    (∃ error, (folder.disk parent).renameChecks parent (parent.push old) name = .error error) ↔
      OsString.utf8 name ≠ old ∧ folder.Taken name := by
  have same_path : parent.push (.utf8 name) = parent.push old ↔ OsString.utf8 name = old := by
    simp [Path.push]
  by_cases unchanged : OsString.utf8 name = old
  · have checks : (folder.disk parent).renameChecks parent (parent.push old) name = .ok () := by
      simp only [DiskView.renameChecks, valid, same_path.mpr unchanged, if_true]
      rfl
    rw [checks]
    exact iff_of_false (by simp) (by simp [unchanged])
  · have checks : (folder.disk parent).renameChecks parent (parent.push old) name =
        (folder.disk parent).refuseExisting parent name := by
      simp only [DiskView.renameChecks, valid, mt same_path.mp unchanged, if_false]
      rfl
    rw [checks]
    by_cases taken : folder.Taken name
    · exact iff_of_true ⟨_, refuseExisting_taken taken⟩ ⟨unchanged, taken⟩
    · rw [refuseExisting_free taken]
      exact iff_of_false (by simp) (by simp [taken])

/-- A folder of a case-sensitive volume that holds `Foo` alone. -/
def loneFoo : Folder where
  siblings := [⟨.utf8 "Foo", .file, none⟩]
  same := fun left right => left = right
  same_self := by simp
  apart := by simp

end Disk

end Folder

end Mille
