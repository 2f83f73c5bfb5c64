import Mille.Lib.Encoding

/-! Absolute Unix paths by their components, as `std::path` compares them: the
root directory is implicit, repeated separators and `.` leave no component. -/

namespace Mille

/-- A file name as the OS spells it: text, or the bytes that are not UTF-8. -/
inductive OsString where
  | utf8 (text : String)
  | raw (bytes : List UInt8)
  deriving DecidableEq

namespace OsString

/-- `OsStr::to_str`. -/
def toStr : OsString → Option String
  | utf8 text => some text
  | raw _ => none

/-- `OsStr::to_string_lossy`. -/
def toStringLossy : OsString → String
  | utf8 text => text
  | raw bytes => fromUtf8Lossy bytes

/-- The bytes in order, closed by a tag below every byte, so that the
lexicographic order of keys is the byte order of names. -/
def key : OsString → List Nat
  | utf8 text => text.toByteArray.data.toList.map (·.toNat + 2) ++ [0]
  | raw bytes => bytes.map (·.toNat + 2) ++ [1]

private theorem shifted_injective : Function.Injective (fun byte : UInt8 => byte.toNat + 2) := by
  intro left right same
  exact UInt8.toNat_inj.mp (by simpa using same)

theorem key_injective : Function.Injective key := by
  intro left right same
  cases left with
  | utf8 text =>
    cases right with
    | utf8 other =>
      have bytes := shifted_injective.list_map (List.append_inj_left' same rfl)
      have data : text.toByteArray = other.toByteArray := by
        cases first : text.toByteArray
        cases second : other.toByteArray
        simp_all [Array.toList_inj]
      exact congrArg utf8 (String.toByteArray_inj.mp data)
    | raw bytes => simpa [key] using (List.append_inj' same rfl).2
  | raw bytes =>
    cases right with
    | utf8 text => simpa [key] using (List.append_inj' same rfl).2
    | raw other => exact congrArg raw (shifted_injective.list_map (List.append_inj_left' same rfl))

end OsString

/-- `std::path::Component` of an absolute path, below its root directory. -/
inductive Component where
  | parentDir
  | normal (name : OsString)
  deriving DecidableEq

namespace Component

def key : Component → List Nat
  | parentDir => [0]
  | normal name => 1 :: name.key

theorem key_injective : Function.Injective key := by
  intro left right same
  cases left <;> cases right <;> simp [key] at same
  · rfl
  · exact congrArg normal (OsString.key_injective same)

instance : Ord Component := ⟨compareOn key⟩

instance : Std.TransOrd Component := inferInstanceAs (Std.TransCmp (compareOn key))

instance : Std.LawfulEqOrd Component where
  eq_of_compare same := key_injective (Std.LawfulEqOrd.eq_of_compare same)

end Component

instance lawfulBEqPath : LawfulBEq (List Component) := inferInstance

abbrev Path := List Component

namespace Path

/-- A path spelled by plain file names. -/
def ofNames (names : List String) : Path :=
  names.map (fun name => .normal (.utf8 name))

/-- `Path::parent`. -/
def parent (path : Path) : Option Path :=
  if path = [] then none else some path.dropLast

/-- `Path::file_name`: the last component, unless it is `..`. -/
def fileName (path : Path) : Option OsString :=
  match path.getLast? with
  | some (.normal name) => some name
  | _ => none

/-- `Path::join` with one file name. -/
def push (path : Path) (name : OsString) : Path :=
  path ++ [.normal name]

/-- `Path::starts_with`. -/
def startsWith (path base : Path) : Bool :=
  base.isPrefixOf path

/-- `Path::strip_prefix`. -/
def stripPrefix (path base : Path) : Option Path :=
  if path.startsWith base then some (path.drop base.length) else none

theorem startsWith_iff {path base : Path} : path.startsWith base = true ↔ base <+: path := by
  simp [startsWith]

theorem startsWith_exists {path base : Path} :
    path.startsWith base = true ↔ ∃ rest, path = base ++ rest := by
  rw [startsWith_iff]
  constructor
  · rintro ⟨rest, same⟩
    exact ⟨rest, same.symm⟩
  · rintro ⟨rest, same⟩
    exact ⟨rest, same.symm⟩

@[simp] theorem startsWith_self (path : Path) : path.startsWith path = true := by
  simp [startsWith_iff]

@[simp] theorem startsWith_append (base rest : Path) :
    Path.startsWith (base ++ rest) base = true := by
  simp [startsWith_iff]

theorem startsWith_trans {first second third : Path} (near : first.startsWith second = true)
    (far : second.startsWith third = true) : first.startsWith third = true :=
  startsWith_iff.mpr ((startsWith_iff.mp far).trans (startsWith_iff.mp near))

@[simp] theorem stripPrefix_append (base rest : Path) :
    Path.stripPrefix (base ++ rest) base = some rest := by
  simp [stripPrefix]

theorem parent_length {path above : Path} (up : path.parent = some above) :
    above.length < path.length := by
  unfold parent at up
  split at up
  · cases up
  · rename_i nonempty
    cases up
    have positive := List.length_pos_iff.mpr nonempty
    rw [List.length_dropLast]
    omega

@[simp] theorem parent_push (path : Path) (name : OsString) :
    (path.push name).parent = some path := by
  simp [parent, push]

@[simp] theorem fileName_push (path : Path) (name : OsString) :
    (path.push name).fileName = some name := by
  simp [fileName, push]

theorem eq_push {path base : Path} {name : OsString} (above : path.parent = some base)
    (last : path.fileName = some name) : path = base.push name := by
  rcases List.eq_nil_or_concat path with empty | ⟨front, component, same⟩
  · simp [empty, parent] at above
  · subst same
    have front : front = base := by simpa [parent] using above
    subst front
    cases component with
    | parentDir => simp [fileName] at last
    | normal found =>
      have same : found = name := by simpa [fileName] using last
      simp [push, same]

theorem push_startsWith_iff {base root : Path} {name : OsString} :
    (base.push name).startsWith root = true ↔ root = base.push name ∨ base.startsWith root = true := by
  simp only [startsWith_iff, push, List.prefix_concat_iff]

theorem push_injective {first second : Path} {left right : OsString}
    (same : first.push left = second.push right) : first = second ∧ left = right := by
  simpa [push] using same

end Path

end Mille
