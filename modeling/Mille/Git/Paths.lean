import Mille.Lib.Path

/-! The spellings of a path: as the caller gives it, its realpath, and git's own
relative form. -/

namespace Mille.Git

/-- A segment of a relative path that names a file. -/
structure Segment (text : String) : Prop where
  present : text ≠ ""
  notDot : text ≠ "."
  notDots : text ≠ ".."
  slashless : '/' ∉ text.toList

/-- The names of a path are those `Path::components` can yield. -/
def Parsed (path : Path) : Prop :=
  ∀ text, Component.normal (.utf8 text) ∈ path → Segment text

/-- A path by its components; `..` may be among them. -/
structure OsPath where
  components : Path
  parsed : Parsed components

/-- What `std::fs::canonicalize` answers: a path without `..`. -/
structure Realpath where
  canonicalize : Path → Option Path
  parsed : ∀ {path real}, canonicalize path = some real → Parsed real
  resolved : ∀ {path real}, canonicalize path = some real → Component.parentDir ∉ real

/-- One component of a path, folded. -/
def foldComponent (out : Path) : Component → Path
  -- `pop` does not remove the root.
  | .parentDir => out.dropLast
  | .normal name => out.push name

def normalizeLexical (path : Path) : Path :=
  path.foldl foldComponent []

namespace Realpath

variable (disk : Realpath)

/-- The deepest ancestor that exists, with the names below it; the components
above come nearest first. -/
def survivor : List Component → Path → Option Path
  | [], _ => none
  | component :: above, tail =>
    match disk.canonicalize above.reverse with
    | some real => some (real ++ component :: tail)
    | none => survivor above (component :: tail)

def canonicalizeLenient (path : Path) : Path :=
  let path := normalizeLexical path
  match disk.canonicalize path with
  | some real => real
  | none => (disk.survivor path.reverse []).getD path

end Realpath

/-- `Component::as_os_str`, lossily. -/
def componentText : Component → String
  | .parentDir => ".."
  | .normal name => name.toStringLossy

def relativePosix (path base : Path) : Option String :=
  if path.startsWith base then
    let parts := (path.drop base.length).map componentText
    if parts = [] then none else some ("/".intercalate parts)
  else none

/-- `PathBuf::push` of a segment. -/
def pushSegment (path : Path) (segment : String) : Path :=
  if segment = "" ∨ segment = "." then path
  else if segment = ".." then path ++ [.parentDir]
  else path.push (.utf8 segment)

def joinPosix (base : Path) (relative : String) : Path :=
  ((relative.toList.splitOn '/').map String.ofList).foldl pushSegment base

section Spellings

theorem foldComponent_parsed {out : Path} (parsed : Parsed out) {component : Component}
    (plain : Parsed [component]) : Parsed (foldComponent out component) := by
  cases component with
  | parentDir => exact fun text member => parsed text (List.mem_of_mem_dropLast member)
  | normal name =>
    intro text member
    rcases List.mem_append.mp member with earlier | last
    · exact parsed text earlier
    · exact plain text last

theorem foldComponent_folded {out : Path} (folded : Component.parentDir ∉ out) (component : Component) :
    Component.parentDir ∉ foldComponent out component := by
  cases component with
  | parentDir => exact fun member => folded (List.mem_of_mem_dropLast member)
  | normal name =>
    intro member
    rcases List.mem_append.mp member with earlier | last
    · exact folded earlier
    · cases List.mem_singleton.mp last

theorem normalizeLexical_names {path : Path} (parsed : Parsed path) :
    Parsed (normalizeLexical path) ∧ Component.parentDir ∉ normalizeLexical path := by
  have run : ∀ out : Path, Parsed out → Component.parentDir ∉ out →
      Parsed (path.foldl foldComponent out) ∧ Component.parentDir ∉ path.foldl foldComponent out := by
    induction path with
    | nil => exact fun out names folded => ⟨names, folded⟩
    | cons component rest ih =>
      intro out names folded
      have first : Parsed [component] := fun text member =>
        parsed text (List.mem_singleton.mp member ▸ List.mem_cons_self)
      exact ih (fun text member => parsed text (List.mem_cons_of_mem _ member)) _
        (foldComponent_parsed names first) (foldComponent_folded folded component)
  exact run [] (fun _ member => absurd member List.not_mem_nil) List.not_mem_nil

namespace Realpath

variable {disk : Realpath}

theorem survivor_names {above : List Component} {tail real : Path}
    (names : ∀ component ∈ above ++ tail, component ≠ .parentDir ∧ Parsed [component])
    (found : disk.survivor above tail = some real) : Parsed real ∧ Component.parentDir ∉ real := by
  induction above generalizing tail with
  | nil => cases found
  | cons component above ih =>
    rw [survivor] at found
    split at found
    · rename_i base resolved
      cases found
      have below : ∀ other ∈ component :: tail, other ≠ .parentDir ∧ Parsed [other] := by
        intro other member
        rcases List.mem_cons.mp member with rfl | member
        · exact names other List.mem_cons_self
        · exact names other (List.mem_append_right _ member)
      constructor
      · intro text member
        rcases List.mem_append.mp member with above | under
        · exact disk.parsed resolved text above
        · exact (below _ under).2 text (List.mem_singleton_self _)
      · intro member
        rcases List.mem_append.mp member with above | under
        · exact disk.resolved resolved above
        · exact (below _ under).1 rfl
    · apply ih _ found
      intro other member
      apply names other
      simp only [List.mem_append, List.mem_cons] at member ⊢
      tauto

theorem canonicalizeLenient_names (disk : Realpath) {path : Path} (parsed : Parsed path) :
    Parsed (disk.canonicalizeLenient path) ∧
      Component.parentDir ∉ disk.canonicalizeLenient path := by
  have names := normalizeLexical_names parsed
  rw [canonicalizeLenient]
  cases exact : disk.canonicalize (normalizeLexical path) with
  | some real => exact ⟨disk.parsed exact, disk.resolved exact⟩
  | none =>
    cases found : disk.survivor (normalizeLexical path).reverse [] with
    | none => exact names
    | some real =>
      apply survivor_names _ found
      intro component member
      rw [List.append_nil, List.mem_reverse] at member
      refine ⟨fun dots => names.2 (dots ▸ member), ?_⟩
      intro text same
      exact names.1 text (List.mem_singleton.mp same ▸ member)

end Realpath

theorem relativePosix_append (base : Path) {below : Path} (more : below ≠ []) :
    relativePosix (base ++ below) base = some ("/".intercalate (below.map componentText)) := by
  simp [relativePosix, more]

theorem foldl_pushSegment {names : List String} (segments : ∀ name ∈ names, Segment name) (base : Path) :
    names.foldl pushSegment base = base ++ names.map fun name => .normal (.utf8 name) := by
  induction names generalizing base with
  | nil => exact (List.append_nil base).symm
  | cons name rest ih =>
    obtain ⟨first, others⟩ := List.forall_mem_cons.mp segments
    have pushed : pushSegment base name = base.push (.utf8 name) := by
      rw [pushSegment, if_neg (by simp [first.present, first.notDot]), if_neg first.notDots]
    rw [List.foldl_cons, pushed, ih others, Path.push, List.append_assoc]
    rfl

theorem joinPosix_intercalate {names : List String} (segments : ∀ name ∈ names, Segment name)
    (more : names ≠ []) (base : Path) : joinPosix base ("/".intercalate names) =
      base ++ names.map fun name => .normal (.utf8 name) := by
  have split : ("/".intercalate names).toList.splitOn '/' = names.map String.toList := by
    rw [String.toList_intercalate]
    apply List.splitOn_intercalate
    · intro part member
      obtain ⟨name, inside, rfl⟩ := List.mem_map.mp member
      exact (segments name inside).slashless
    · simpa using more
  have texts : (names.map String.toList).map String.ofList = names := by
    simp [List.map_map, Function.comp_def]
  rw [joinPosix, split, texts, foldl_pushSegment segments]

theorem joinPosix_relativePosix {base below : Path} (parsed : Parsed below)
    (texts : ∀ component ∈ below, ∃ text, component = .normal (.utf8 text)) (more : below ≠ []) :
    joinPosix base ("/".intercalate (below.map componentText)) = base ++ below := by
  have spelled : (below.map componentText).map (fun name => Component.normal (.utf8 name)) = below := by
    rw [List.map_map]
    conv_rhs => rw [← List.map_id below]
    apply List.map_congr_left
    intro component member
    obtain ⟨text, rfl⟩ := texts component member
    rfl
  have segments : ∀ name ∈ below.map componentText, Segment name := by
    intro name member
    obtain ⟨component, inside, rfl⟩ := List.mem_map.mp member
    obtain ⟨text, rfl⟩ := texts component inside
    exact parsed text inside
  rw [joinPosix_intercalate segments (by simpa using more), spelled]

end Spellings

end Mille.Git
