import Mille.Lib.Maps
import Mille.Lib.Lowercase
import Mille.Lib.TextLines
import Mille.Drive.Catalog

/-! What a manifest is checked for, and its canonical encoding as the address of its files. -/

namespace Mille.Drive

open Std Mille.Bincode

/-! ### Segments -/

theorem segments_eq (path : String) :
    segments path = (path.toList.splitOn '/').map String.ofList := by
  rw [segments, List.splitOn_eq_splitOnP]
  congr 1

theorem intercalate_segments (path : String) : "/".intercalate (segments path) = path := by
  apply String.toList_inj.mp
  have chars : ((path.toList.splitOn '/').map String.ofList).map String.toList = path.toList.splitOn '/' := by
    rw [List.map_map]
    exact List.map_id'' (fun _ => String.toList_ofList) _
  rw [String.toList_intercalate, segments_eq, chars]
  exact List.intercalate_splitOn '/'

theorem segments_ne_nil (path : String) : segments path ≠ [] := by
  rw [segments_eq]
  simp [List.splitOn_ne_nil]

theorem segments_toLowercase (data : CaseData) (path : String) :
    segments (data.toLowercase path) = (segments path).map data.toLowercase := by
  rw [segments_eq, segments_eq, CaseData.toLowercase, String.toList_ofList, CaseData.splitOn_lowerChars,
    List.map_map, List.map_map]
  apply List.map_congr_left
  intro segment _
  rw [Function.comp_apply, Function.comp_apply, CaseData.toLowercase, String.toList_ofList]

theorem segment_ne_empty {path segment : String} (portable : isPortableRelativePath path = true)
    (listed : segment ∈ segments path) : segment ≠ "" := by
  simp only [isPortableRelativePath, Bool.and_eq_true, List.all_eq_true] at portable
  have legal := portable.2 segment listed
  simp only [isPortableSegment, Bool.and_eq_true] at legal
  rintro rfl
  simp at legal

/-! ### The check of a manifest -/

/-- What is wrong with a manifest: the path an error names is the first that fails, the
folded clash the least one. -/
inductive ManifestError where
  | noFiles
  | tooManyFiles
  | notPortable (path : String)
  | twice (path : String)
  | fileAndFolder (clash : String)
deriving DecidableEq

section Validate

/-- The folder one segment further down, and the folders so far. -/
def addFolder (state : String × ExtTreeSet String) (segment : String) : String × ExtTreeSet String :=
  let folder := if state.1.isEmpty then segment else state.1 ++ "/" ++ segment
  (folder, state.2.insert folder)

def addFolders (folded : String) (folders : ExtTreeSet String) : ExtTreeSet String :=
  ((segments folded).dropLast.foldl addFolder ("", folders)).2

/-- The folded paths seen so far, and the folders they need. -/
structure Seen where
  paths : ExtTreeSet String
  folders : ExtTreeSet String

variable (toLowercase : String → String)

def checkFile (seen : Seen) (file : FileEntry) : Except ManifestError Seen :=
  if !isPortableRelativePath file.path then .error (.notPortable file.path)
  else
    let folded := toLowercase file.path
    if seen.paths.contains folded then .error (.twice file.path)
    else .ok ⟨seen.paths.insert folded, addFolders folded seen.folders⟩

def validateManifest (files : List FileEntry) : Except ManifestError Unit :=
  if files = [] then .error .noFiles
  else if files.length > maxFiles then .error .tooManyFiles
  else
    match files.foldlM (checkFile toLowercase) ⟨{}, {}⟩ with
    | .error error => .error error
    | .ok seen =>
      match seen.paths.toList.find? seen.folders.contains with
      | some clash => .error (.fileAndFolder clash)
      | none => .ok ()

end Validate

theorem intercalate_isEmpty {segments : List String} (named : ∀ segment ∈ segments, segment ≠ "") :
    ("/".intercalate segments).isEmpty = decide (segments = []) := by
  cases segments with
  | nil => rfl
  | cons segment rest =>
    have first : segment ≠ "" := named segment List.mem_cons_self
    cases rest with
    | nil => simpa using first
    | cons second rest =>
      rw [String.intercalate_cons_cons]
      simp

theorem mem_addFolder {rest done : List String} (named : ∀ segment ∈ done ++ rest, segment ≠ "")
    (folders : ExtTreeSet String) (folder : String) :
    folder ∈ (rest.foldl addFolder ("/".intercalate done, folders)).2 ↔
      folder ∈ folders ∨ ∃ more ∈ rest.inits.tail, folder = "/".intercalate (done ++ more) := by
  induction rest generalizing done folders with
  | nil => simp
  | cons segment rest ih =>
    have folded : addFolder ("/".intercalate done, folders) segment =
        ("/".intercalate (done ++ [segment]), folders.insert ("/".intercalate (done ++ [segment]))) := by
      have joined : (if ("/".intercalate done).isEmpty then segment else "/".intercalate done ++ "/" ++ segment) =
          "/".intercalate (done ++ [segment]) := by
        rw [intercalate_isEmpty fun other listed => named other (List.mem_append_left _ listed)]
        by_cases first : done = []
        · rw [first]
          rfl
        · rw [if_neg (by simpa using first), String.intercalate_append_of_ne_nil first (by simp),
            String.intercalate_singleton]
      rw [addFolder, joined]
    have same : (done ++ [segment]) ++ rest = done ++ (segment :: rest) := by rw [List.append_assoc]; rfl
    rw [List.foldl_cons, folded, ih (by rw [same]; exact named), ExtTreeSet.mem_insert,
      LawfulEqOrd.compare_eq_iff_eq, List.inits_cons, List.tail_cons]
    have starts : rest.inits = [] :: rest.inits.tail := by cases rest <;> rfl
    rw [starts, List.map_cons]
    simp only [List.mem_cons, List.mem_map, exists_eq_or_imp, exists_exists_and_eq_and, List.append_assoc,
      List.singleton_append]
    rw [or_assoc, or_left_comm, eq_comm]
    exact Iff.rfl

theorem mem_addFolders {folded : String} (named : ∀ segment ∈ segments folded, segment ≠ "")
    (folders : ExtTreeSet String) (folder : String) :
    folder ∈ addFolders folded folders ↔ folder ∈ folders ∨ folder ∈ foldersOf folded := by
  have added := @mem_addFolder (segments folded).dropLast []
    (fun segment listed => named segment (List.mem_of_mem_dropLast listed)) folders folder
  rw [String.intercalate_nil] at added
  rw [addFolders, added, foldersOf, List.mem_map]
  simp only [List.nil_append, eq_comm]

section Checked

variable {toLowercase : String → String}

/-- Folding keeps a portable path's segments from becoming empty. -/
def Keeps (toLowercase : String → String) : Prop :=
  ∀ path, isPortableRelativePath path = true → ∀ segment ∈ segments (toLowercase path), segment ≠ ""

theorem keeps_toLowercase (data : CaseData) : Keeps data.toLowercase := by
  intro path portable segment listed empty
  rw [segments_toLowercase] at listed
  obtain ⟨original, member, rfl⟩ := List.mem_map.mp listed
  have more : original.toList ≠ [] := by
    intro none_left
    exact segment_ne_empty portable member (String.toList_eq_nil_iff.mp none_left)
  have lowered := @CaseData.lowerChars_ne_nil data [] original.toList more
  exact lowered (by
    have chars := congrArg String.toList empty
    rwa [CaseData.toLowercase, String.toList_ofList] at chars)

theorem checkFile_iff {seen next : Seen} {file : FileEntry} : checkFile toLowercase seen file = .ok next ↔
    isPortableRelativePath file.path = true ∧ toLowercase file.path ∉ seen.paths ∧
      next = ⟨seen.paths.insert (toLowercase file.path), addFolders (toLowercase file.path) seen.folders⟩ := by
  unfold checkFile
  by_cases portable : isPortableRelativePath file.path = true
  · by_cases twice : toLowercase file.path ∈ seen.paths
    · simp [portable, twice]
    · simp [portable, twice]
      exact eq_comm
  · simp [portable]

theorem checkFiles_cons {file : FileEntry} {rest : List FileEntry} {seen last : Seen} :
    (file :: rest).foldlM (checkFile toLowercase) seen = .ok last ↔
      ∃ next, checkFile toLowercase seen file = .ok next ∧ rest.foldlM (checkFile toLowercase) next = .ok last := by
  rw [List.foldlM_cons]
  cases checked : checkFile toLowercase seen file with
  | error error => simp [bind, Except.bind]
  | ok next => simp [bind, Except.bind]

theorem checkFiles_ok (keeps : Keeps toLowercase) {files : List FileEntry} {seen last : Seen}
    (done : files.foldlM (checkFile toLowercase) seen = .ok last) :
    (∀ path, path ∈ last.paths ↔ path ∈ seen.paths ∨ path ∈ files.map fun file => toLowercase file.path) ∧
      ∀ folder, folder ∈ last.folders ↔ folder ∈ seen.folders ∨
        folder ∈ (files.map fun file => toLowercase file.path).flatMap foldersOf := by
  induction files generalizing seen with
  | nil =>
    cases done
    simp
  | cons file rest ih =>
    obtain ⟨next, first, others⟩ := checkFiles_cons.mp done
    obtain ⟨portable, _, rfl⟩ := checkFile_iff.mp first
    obtain ⟨paths, folders⟩ := ih others
    refine ⟨?_, ?_⟩
    · intro path
      rw [paths, ExtTreeSet.mem_insert, LawfulEqOrd.compare_eq_iff_eq, List.map_cons, List.mem_cons]
      tauto
    · intro folder
      rw [folders, mem_addFolders (keeps file.path portable), List.map_cons, List.flatMap_cons, List.mem_append,
        or_assoc]

theorem checkFiles_iff (files : List FileEntry) (seen : Seen) :
    (∃ last, files.foldlM (checkFile toLowercase) seen = .ok last) ↔
      (∀ file ∈ files, isPortableRelativePath file.path = true) ∧
        (files.map fun file => toLowercase file.path).Nodup ∧
        ∀ file ∈ files, toLowercase file.path ∉ seen.paths := by
  induction files generalizing seen with
  | nil => simp [pure, Except.pure]
  | cons file rest ih =>
    have split : (∃ last, (file :: rest).foldlM (checkFile toLowercase) seen = .ok last) ↔
        isPortableRelativePath file.path = true ∧ toLowercase file.path ∉ seen.paths ∧
          ∃ last, rest.foldlM (checkFile toLowercase)
            ⟨seen.paths.insert (toLowercase file.path), addFolders (toLowercase file.path) seen.folders⟩ =
              .ok last := by
      simp only [checkFiles_cons, checkFile_iff]
      constructor
      · rintro ⟨last, _, ⟨portable, fresh, rfl⟩, others⟩
        exact ⟨portable, fresh, last, others⟩
      · rintro ⟨portable, fresh, last, others⟩
        exact ⟨last, _, ⟨portable, fresh, rfl⟩, others⟩
    rw [split, ih]
    simp only [ExtTreeSet.mem_insert, LawfulEqOrd.compare_eq_iff_eq, not_or, List.forall_mem_cons,
      List.map_cons, List.nodup_cons, List.mem_map, not_exists, not_and]
    constructor
    · rintro ⟨portable, fresh, others, distinct, apart⟩
      exact ⟨⟨portable, others⟩, ⟨fun other listed same => (apart other listed).1 same.symm, distinct⟩, fresh,
        fun other listed => (apart other listed).2⟩
    · rintro ⟨⟨portable, others⟩, ⟨apart, distinct⟩, fresh, unseen⟩
      exact ⟨portable, fresh, others, distinct, fun other listed =>
        ⟨fun same => apart other listed same.symm, unseen other listed⟩⟩

/-- The check passes exactly for the manifests that a version's view accepts. -/
theorem validateManifest_ok_iff (keeps : Keeps toLowercase) (files : List FileEntry) :
    validateManifest toLowercase files = .ok () ↔ validManifest toLowercase files = true := by
  have valid : validManifest toLowercase files = true ↔ files ≠ [] ∧ files.length ≤ maxFiles ∧
      (∀ file ∈ files, isPortableRelativePath file.path = true) ∧
      (files.map fun file => toLowercase file.path).Nodup ∧
      ∀ path ∈ files.map fun file => toLowercase file.path,
        path ∉ (files.map fun file => toLowercase file.path).flatMap foldersOf := by
    simp [validManifest, and_assoc]
  have looped := @checkFiles_iff toLowercase files ⟨{}, {}⟩
  rw [valid]
  unfold validateManifest
  by_cases none_listed : files = []
  · simp [none_listed]
  · rw [if_neg none_listed]
    by_cases many : files.length > maxFiles
    · rw [if_pos many]
      constructor
      · exact nofun
      · rintro ⟨_, few, _⟩
        omega
    · rw [if_neg many]
      cases ran : files.foldlM (checkFile toLowercase) ⟨{}, {}⟩ with
      | error error =>
        constructor
        · exact nofun
        · rintro ⟨_, _, portable, distinct, _⟩
          obtain ⟨last, done⟩ := looped.mpr ⟨portable, distinct, by simp⟩
          rw [ran] at done
          cases done
      | ok seen =>
        obtain ⟨portable, distinct, _⟩ := looped.mp ⟨seen, ran⟩
        obtain ⟨paths, folders⟩ := checkFiles_ok keeps ran
        simp only [ExtTreeSet.not_mem_empty, false_or] at paths folders
        dsimp only
        cases found : seen.paths.toList.find? seen.folders.contains with
        | some clash =>
          have seenPath := ExtTreeSet.mem_toList.mp (List.mem_of_find?_eq_some found)
          have needed : clash ∈ seen.folders := List.find?_some found
          constructor
          · exact nofun
          · rintro ⟨_, _, _, _, apart⟩
            exact absurd ((folders clash).mp needed) (apart clash ((paths clash).mp seenPath))
        | none =>
          have apart := List.find?_eq_none.mp found
          refine ⟨fun _ => ⟨none_listed, Nat.not_lt.mp many, portable, distinct, ?_⟩, fun _ => rfl⟩
          intro path listed needed
          exact apart path (ExtTreeSet.mem_toList.mpr ((paths path).mpr listed)) ((folders path).mpr needed)

end Checked

/-! ### The canonical encoding -/

section Lines

private theorem cut_unique {separator : Char} {front other back more : List Char} (absent : separator ∉ front)
    (also : separator ∉ other) (same : front ++ separator :: back = other ++ separator :: more) :
    front = other ∧ back = more := by
  have cut := congrArg (Mille.splitOnce separator) same
  rw [Mille.splitOnce_append absent, Mille.splitOnce_append also, Option.some.injEq, Prod.mk.injEq] at cut
  exact cut

/-- What a portable path is made of. -/
theorem portable_char {path : String} (portable : isPortableRelativePath path = true) {char : Char}
    (listed : char ∈ path.toList) :
    char = '/' ∨ isControl char = false ∧ char ∉ "<>:\"|?*\\".toList := by
  simp only [isPortableRelativePath, Bool.and_eq_true, List.all_eq_true] at portable
  have legal : ∀ segment ∈ path.toList.splitOn '/', ∀ char ∈ segment,
      isControl char = false ∧ char ∉ "<>:\"|?*\\".toList := by
    intro segment member char inside
    have portable := portable.2 (String.ofList segment) (by
      rw [segments_eq]
      exact List.mem_map_of_mem member)
    simp only [isPortableSegment, Bool.and_eq_true, Bool.not_eq_true', List.any_eq_false, Bool.or_eq_true, not_or,
      String.toList_ofList] at portable
    obtain ⟨plain, allowed⟩ := portable.1.1.1.2 char inside
    exact ⟨Bool.eq_false_iff.mpr plain, by simpa using allowed⟩
  have joined : ∀ pieces : List (List Char),
      (∀ segment ∈ pieces, ∀ char ∈ segment, isControl char = false ∧ char ∉ "<>:\"|?*\\".toList) →
      ∀ char ∈ ['/'].intercalate pieces, char = '/' ∨ isControl char = false ∧ char ∉ "<>:\"|?*\\".toList := by
    intro pieces each char inside
    induction pieces with
    | nil => cases inside
    | cons segment rest ih =>
      obtain ⟨first, others⟩ := List.forall_mem_cons.mp each
      cases rest with
      | nil =>
        rw [List.intercalate_singleton] at inside
        exact .inr (first char inside)
      | cons second rest =>
        rw [List.intercalate_cons_cons, List.mem_append, List.mem_append] at inside
        rcases inside with (here | slash) | later
        · exact .inr (first char here)
        · exact .inl (List.mem_singleton.mp slash)
        · exact ih others later
  exact joined _ legal char (by rwa [List.intercalate_splitOn])

theorem portable_uncontrolled {path : String} (portable : isPortableRelativePath path = true) {char : Char}
    (listed : char ∈ path.toList) : isControl char = false := by
  rcases portable_char portable listed with rfl | ⟨plain, _⟩
  · decide
  · exact plain

private theorem hexDigit_inj : ∀ one < 16, ∀ two < 16, hexDigit one = hexDigit two → one = two := by
  decide

theorem toHex_injective : Function.Injective Blake3.toHex := by
  intro left right same
  have chars := String.ofList_injective same
  have bytes : left.asBytes = right.asBytes := by
    generalize left.asBytes = one at chars ⊢
    generalize right.asBytes = two at chars ⊢
    induction one generalizing two with
    | nil =>
      cases two with
      | nil => rfl
      | cons byte rest => cases chars
    | cons byte rest ih =>
      cases two with
      | nil => cases chars
      | cons other others =>
        simp only [List.flatMap_cons, List.cons_append, List.nil_append, List.cons.injEq] at chars
        obtain ⟨high, low, later⟩ := chars
        have small := byte.toNat_lt
        have smaller := other.toNat_lt
        have highs := hexDigit_inj _ (by omega) _ (by omega) high
        have lows := hexDigit_inj _ (by omega) _ (by omega) low
        rw [ih _ later, UInt8.toNat_inj.mp (show byte.toNat = other.toNat by omega)]
  rw [← Blake3.fromBytes_asBytes left, bytes, Blake3.fromBytes_asBytes]

theorem nul_not_mem_toHex (digest : Blake3) : '\x00' ∉ digest.toHex.toList := by
  have digits : ∀ nibble < 16, '\x00' ≠ hexDigit nibble := by decide
  intro nul
  rw [Blake3.toHex, String.toList_ofList] at nul
  obtain ⟨byte, _, found⟩ := List.mem_flatMap.mp nul
  have small := byte.toNat_lt
  rcases List.mem_cons.mp found with high | low
  · exact digits _ (by omega) high
  · exact digits _ (by omega) (List.mem_singleton.mp low)

theorem newline_not_mem_toDigits (value : Nat) : '\n' ∉ Nat.toDigits 10 value := by
  intro newline
  exact absurd (Nat.isDigit_of_mem_toDigits (by decide) (by decide) newline) (by decide)

/-- The line of a file. -/
def manifestLine (file : FileEntry) : String :=
  file.path ++ "\x00" ++ file.blake3.toHex ++ "\x00" ++ toString file.bytes.toNat ++ "\n"

theorem manifestLine_cancel {left right : FileEntry} {rest more : List Char}
    (one : isPortableRelativePath left.path = true) (two : isPortableRelativePath right.path = true)
    (same : (manifestLine left).toList ++ rest = (manifestLine right).toList ++ more) :
    left = right ∧ rest = more := by
  have nul {path : String} (portable : isPortableRelativePath path = true) : '\x00' ∉ path.toList := by
    intro listed
    exact absurd (portable_uncontrolled portable listed) (by decide)
  have line (file : FileEntry) (rest : List Char) : (manifestLine file).toList ++ rest =
      file.path.toList ++ '\x00' :: (file.blake3.toHex.toList ++ '\x00' ::
        (Nat.toDigits 10 file.bytes.toNat ++ '\n' :: rest)) := by
    have digits : (toString file.bytes.toNat).toList = Nat.toDigits 10 file.bytes.toNat := by
      rw [Nat.toString_eq_repr, Nat.toList_repr]
    have nul : "\x00".toList = ['\x00'] := by decide
    have newline : "\n".toList = ['\n'] := by decide
    simp only [manifestLine, String.toList_append, digits, nul, newline, List.append_assoc, List.cons_append,
      List.nil_append]
  rw [line, line] at same
  obtain ⟨paths, behind⟩ := cut_unique (nul one) (nul two) same
  obtain ⟨digests, sizes⟩ := cut_unique (nul_not_mem_toHex _) (nul_not_mem_toHex _) behind
  obtain ⟨numbers, rests⟩ := cut_unique (newline_not_mem_toDigits _) (newline_not_mem_toDigits _) sizes
  have bytes : left.bytes = right.bytes := by
    have read := congrArg digitsValue numbers
    rw [digitsValue_toDigits, digitsValue_toDigits] at read
    exact UInt64.toNat_inj.mp (Option.some.inj read)
  cases left
  cases right
  simp_all [String.toList_inj, toHex_injective.eq_iff]

theorem manifestLines_injective {left right : List FileEntry}
    (one : ∀ file ∈ left, isPortableRelativePath file.path = true)
    (two : ∀ file ∈ right, isPortableRelativePath file.path = true)
    (same : (left.map manifestLine).flatMap String.toList = (right.map manifestLine).flatMap String.toList) :
    left = right := by
  have more (file : FileEntry) (rest : List Char) : (manifestLine file).toList ++ rest ≠ [] := by
    simp [manifestLine]
  induction left generalizing right with
  | nil =>
    cases right with
    | nil => rfl
    | cons file rest => exact absurd same.symm (more file _)
  | cons file rest ih =>
    cases right with
    | nil => exact absurd same (more file _)
    | cons other others =>
      obtain ⟨first, later⟩ := List.forall_mem_cons.mp one
      obtain ⟨second, behind⟩ := List.forall_mem_cons.mp two
      obtain ⟨rfl, rests⟩ := manifestLine_cancel first second same
      rw [ih later behind rests]

end Lines

theorem toList_byteArray (bytes : ByteArray) : bytes.toList = bytes.data.toList := by
  have looped : ∀ index taken,
      ByteArray.toList.loop bytes index taken = taken.reverse ++ bytes.data.toList.drop index := by
    intro index taken
    fun_induction ByteArray.toList.loop bytes index taken with
    | case1 index taken inside ih =>
      have bound : index < bytes.data.toList.length := by simpa using inside
      have read : bytes.get! index = bytes.data.toList[index] := by
        cases bytes with
        | mk data =>
          simp only [ByteArray.get!, Array.getElem_toList]
          exact getElem!_pos data index (by simpa using bound)
      rw [ih, List.reverse_cons, List.append_assoc, List.drop_eq_getElem_cons bound, read]
      rfl
    | case2 index taken outside =>
      have past : bytes.data.toList.length ≤ index := by simpa using outside
      rw [List.drop_of_length_le past, List.append_nil]
  exact looped 0 []

theorem toUTF8_toList_injective : Function.Injective fun text : String => text.toUTF8.toList := by
  intro left right same
  have data : left.toByteArray = right.toByteArray := by
    have lists : left.toByteArray.toList = right.toByteArray.toList := same
    rw [toList_byteArray, toList_byteArray] at lists
    cases first : left.toByteArray
    cases second : right.toByteArray
    simp_all [Array.toList_inj]
  exact String.toByteArray_inj.mp data

/-- The files of a manifest in the order of their paths. -/
def sortedFiles (files : List FileEntry) : List FileEntry :=
  files.insertionSort fun left right => left.path ≤ right.path

theorem canonicalManifest_inj {files others : List FileEntry}
    (one : ∀ file ∈ files, isPortableRelativePath file.path = true)
    (two : ∀ file ∈ others, isPortableRelativePath file.path = true) :
    canonicalManifest files = canonicalManifest others ↔ sortedFiles files = sortedFiles others := by
  have encoded (files : List FileEntry) : canonicalManifest files =
      ("mille-drive manifest v1\n" ++ String.join ((sortedFiles files).map manifestLine)).toUTF8.toList := rfl
  constructor
  · intro same
    rw [encoded, encoded] at same
    have texts := congrArg String.toList (toUTF8_toList_injective same)
    rw [String.toList_append, String.toList_append, String.toList_join, String.toList_join] at texts
    apply manifestLines_injective _ _ (List.append_cancel_left texts)
    · exact fun file listed => one file ((List.mem_insertionSort _).mp listed)
    · exact fun file listed => two file ((List.mem_insertionSort _).mp listed)
  · intro same
    rw [encoded, encoded, same]

theorem sortedFiles_eq_iff {files others : List FileEntry} (distinct : (files.map (·.path)).Nodup) :
    sortedFiles files = sortedFiles others ↔ files.Perm others := by
  constructor
  · intro same
    have sorted := List.perm_insertionSort (fun left right : FileEntry => left.path ≤ right.path) files
    have also := List.perm_insertionSort (fun left right : FileEntry => left.path ≤ right.path) others
    exact sorted.symm.trans ((List.Perm.of_eq same).trans also)
  · intro perm
    have total : Std.Total fun left right : FileEntry => left.path ≤ right.path :=
      ⟨fun left right => le_total left.path right.path⟩
    have transitive : IsTrans FileEntry fun left right => left.path ≤ right.path :=
      ⟨fun _ _ _ one two => one.trans two⟩
    refine @List.Perm.eq_of_pairwise _ (fun left right : FileEntry => left.path ≤ right.path) _ _ ?_
      (List.pairwise_insertionSort _ files) (List.pairwise_insertionSort _ others)
      ((List.perm_insertionSort _ files).trans (perm.trans (List.perm_insertionSort _ others).symm))
    intro left right one two below above
    have member := (List.mem_insertionSort _).mp one
    have other := perm.mem_iff.mpr ((List.mem_insertionSort _).mp two)
    exact List.inj_on_of_nodup_map distinct member other (below.antisymm above)

section Addresses

variable {toLowercase : String → String} {hash : Bytes → Blake3}

/-- What the check promises of a manifest. -/
structure Portable (toLowercase : String → String) (files : List FileEntry) : Prop where
  portable : ∀ file ∈ files, isPortableRelativePath file.path = true
  distinct : (files.map fun file => toLowercase file.path).Nodup
  apart : ∀ file ∈ files, ∀ other ∈ files, toLowercase file.path ∉ foldersOf (toLowercase other.path)

theorem Portable.of_valid {files : List FileEntry} (valid : validManifest toLowercase files = true) :
    Portable toLowercase files := by
  simp only [validManifest, Bool.and_eq_true, decide_eq_true_eq, List.all_eq_true, Bool.not_eq_true',
    List.contains_eq_mem, decide_eq_false_iff_not] at valid
  obtain ⟨⟨⟨_, portable⟩, distinct⟩, apart⟩ := valid
  refine ⟨portable, distinct, ?_⟩
  intro file listed other member needed
  apply apart (toLowercase file.path) (List.mem_map_of_mem listed)
  exact List.mem_flatMap.mpr ⟨_, List.mem_map_of_mem member, needed⟩

theorem Portable.paths_nodup {files : List FileEntry} (valid : Portable toLowercase files) :
    (files.map (·.path)).Nodup := by
  have mapped : ((files.map (·.path)).map toLowercase).Nodup := by
    rw [List.map_map]
    exact valid.distinct
  exact mapped.of_map

theorem canonicalManifest_eq_iff {files others : List FileEntry} (valid : Portable toLowercase files)
    (also : Portable toLowercase others) :
    canonicalManifest files = canonicalManifest others ↔ files.Perm others := by
  rw [canonicalManifest_inj valid.portable also.portable, sortedFiles_eq_iff valid.paths_nodup]

/-- The path stays below the folder it is joined to, on every desktop. -/
structure SafeRelative (path : String) : Prop where
  filled : path ≠ ""
  named : ∀ segment ∈ segments path, segment ≠ "" ∧ segment ≠ "." ∧ segment ≠ ".."
  relative : path.toList.head? ≠ some '/' ∧ path.toList.head? ≠ some '~'
  plain : ∀ char ∈ path.toList, isControl char = false ∧ char ≠ '\\' ∧ char ≠ ':'

/-- The path is the folder or lies below it. -/
def Within (folder path : String) : Prop :=
  path = folder ∨ ∃ rest, path = folder ++ "/" ++ rest

theorem mem_foldersOf {folder rest : String} : folder ∈ foldersOf (folder ++ "/" ++ rest) := by
  have cut : segments (folder ++ "/" ++ rest) = segments folder ++ segments rest := by
    have chars : (folder ++ "/" ++ rest).toList = folder.toList ++ '/' :: rest.toList := by
      simp [String.toList_append]
    rw [segments_eq, chars, List.splitOn_append_cons_self, List.map_append, ← segments_eq, ← segments_eq]
  rw [foldersOf, cut, List.dropLast_append_of_ne_nil (segments_ne_nil rest)]
  refine List.mem_map.mpr ⟨segments folder, ?_, intercalate_segments folder⟩
  have begins : segments folder ∈ (segments folder ++ (segments rest).dropLast).inits :=
    (List.mem_inits _ _).mpr (List.prefix_append _ _)
  have starts (list : List String) : list.inits = [] :: list.inits.tail := by cases list <;> rfl
  rw [starts] at begins
  exact (List.mem_cons.mp begins).resolve_left (segments_ne_nil folder)

theorem Portable.clashless {files : List FileEntry} (valid : Portable toLowercase files) :
    files.Pairwise fun file other =>
      ¬Within (toLowercase file.path) (toLowercase other.path) ∧
        ¬Within (toLowercase other.path) (toLowercase file.path) := by
  have distinct := List.pairwise_map.mp valid.distinct
  apply List.Pairwise.imp_of_mem _ distinct
  intro file other listed member differ
  constructor
  · rintro (same | ⟨rest, below⟩)
    · exact differ same.symm
    · exact valid.apart file listed other member (below ▸ mem_foldersOf)
  · rintro (same | ⟨rest, below⟩)
    · exact differ same
    · exact valid.apart other member file listed (below ▸ mem_foldersOf)

theorem portable_safe {path : String} (portable : isPortableRelativePath path = true) : SafeRelative path := by
  refine ⟨?_, ?_, ?_, ?_⟩
  · rintro rfl
    exact absurd portable (by decide)
  · intro segment listed
    refine ⟨segment_ne_empty portable listed, ?_⟩
    simp only [isPortableRelativePath, Bool.and_eq_true, List.all_eq_true] at portable
    have legal := portable.2 segment listed
    simp only [isPortableSegment, Bool.and_eq_true, decide_eq_true_eq] at legal
    exact ⟨legal.1.1.1.1.1.2, legal.1.1.1.1.2⟩
  · simp only [isPortableRelativePath, Bool.and_eq_true, decide_eq_true_eq] at portable
    exact ⟨portable.1.1.2, portable.1.2⟩
  · intro char listed
    refine ⟨portable_uncontrolled portable listed, ?_⟩
    rcases portable_char portable listed with rfl | ⟨_, allowed⟩
    · exact ⟨by decide, by decide⟩
    · constructor
      · rintro rfl
        exact allowed (by decide)
      · rintro rfl
        exact allowed (by decide)

end Addresses

/-! ### The views of a document -/

section Views

variable (toLowercase : String → String) (hash : Bytes → Blake3)

/-- The manifests a document records. -/
def DocState.manifests (state : DocState) : Set (List FileEntry) :=
  {files | ∃ (key : String) (record : VersionRecord), state.versions[key]? = some (some record) ∧ record.files = files}

/-- A version as a drive reads it from the document. -/
def DocState.Views (state : DocState) (view : VersionView) : Prop :=
  ∃ (item : String) (entry : ItemView), (catalog toLowercase hash state)[item]? = some entry ∧ view ∈ entry.versions

/-- What is not quarantined is recorded, valid and under its own id. -/
def Attested (state : DocState) (view : VersionView) : Prop :=
  view.quarantined = false → view.files ∈ state.manifests ∧ validManifest toLowercase view.files = true ∧
    versionId hash view.files = view.id

variable {toLowercase hash} {state : DocState}

/-- All versions of all items are attested. -/
def AllAttested (toLowercase : String → String) (hash : Bytes → Blake3) (state : DocState) (items : Items) : Prop :=
  ∀ (item : String) (entry : ItemView), items[item]? = some entry →
    ∀ view ∈ entry.versions, Attested toLowercase hash state view

theorem AllAttested.onItem {items : Items} (all : AllAttested toLowercase hash state items) {item : String}
    {change : ItemView → ItemView}
    (kept : ∀ entry, (∀ view ∈ entry.versions, Attested toLowercase hash state view) →
      ∀ view ∈ (change entry).versions, Attested toLowercase hash state view) :
    AllAttested toLowercase hash state (onItem items item change) := by
  intro other entry found
  rw [Mille.Drive.onItem, Maps.lookup_insert] at found
  split_ifs at found with same
  · cases found
    apply kept
    cases stored : items[item]? with
    | none => exact fun _ nothing => absurd nothing List.not_mem_nil
    | some entry => exact all item entry stored
  · exact all other entry found

theorem attested_versionView {key id : String} {value : Option VersionRecord}
    (stored : state.versions[key]? = some value) :
    Attested toLowercase hash state (versionView toLowercase hash id value) := by
  intro sound
  cases value with
  | none => cases sound
  | some record =>
    simp only [versionView, Bool.not_eq_false', Bool.and_eq_true, decide_eq_true_eq] at sound ⊢
    exact ⟨⟨key, record, stored, rfl⟩, sound.1, sound.2⟩

theorem attested_attach {version name : String} {object : ObjectRef} {views : List VersionView}
    (all : ∀ view ∈ views, Attested toLowercase hash state view) :
    ∀ view ∈ attach version name object views, Attested toLowercase hash state view := by
  induction views with
  | nil => exact all
  | cons view rest ih =>
    obtain ⟨first, others⟩ := List.forall_mem_cons.mp all
    rw [attach]
    split_ifs
    · exact List.forall_mem_cons.mpr ⟨first, others⟩
    · exact List.forall_mem_cons.mpr ⟨first, ih others⟩

/-- The catalog of a document holds only attested versions. -/
theorem attested_of_views {view : VersionView} (listed : state.Views toLowercase hash view) :
    Attested toLowercase hash state view := by
  have unchanged {items : Items} (all : AllAttested toLowercase hash state items) {item : String}
      {change : ItemView → ItemView} (same : ∀ entry, (change entry).versions = entry.versions) :
      AllAttested toLowercase hash state (onItem items item change) :=
    all.onItem fun entry attested => by rw [same]; exact attested
  have versions : AllAttested toLowercase hash state
      (state.versions.toList.foldl (addVersionView toLowercase hash) {}) := by
    apply List.foldlRecOn
    · intro item entry found
      simp at found
    · intro items all binding stored
      unfold addVersionView
      split
      · exact all
      · split_ifs
        · apply all.onItem
          intro entry attested
          change ∀ view ∈ entry.versions ++ [_], _
          rw [List.forall_mem_append]
          refine ⟨attested, List.forall_mem_singleton.mpr ?_⟩
          exact attested_versionView (ExtTreeMap.mem_toList_iff_getElem?_eq_some.mp stored)
        · exact all
  have current : AllAttested toLowercase hash state (state.current.toList.foldl addCurrent
      (state.versions.toList.foldl (addVersionView toLowercase hash) {})) := by
    apply List.foldlRecOn _ _ versions
    intro items all binding _
    unfold addCurrent
    split_ifs
    · exact unchanged all fun _ => rfl
    · exact all
  have kept : AllAttested toLowercase hash state (state.kept.toList.foldl addKept (state.current.toList.foldl
      addCurrent (state.versions.toList.foldl (addVersionView toLowercase hash) {}))) := by
    apply List.foldlRecOn _ _ current
    intro items all binding _
    unfold addKept
    split_ifs
    · exact unchanged all fun _ => rfl
    · exact all
  have attached : AllAttested toLowercase hash state (state.attachments.toList.foldl addAttachment
      (state.kept.toList.foldl addKept (state.current.toList.foldl addCurrent
        (state.versions.toList.foldl (addVersionView toLowercase hash) {})))) := by
    apply List.foldlRecOn _ _ kept
    intro items all binding _
    unfold addAttachment
    split
    · split_ifs
      · split
        · exact all
        · rename_i entry stored
          intro other found bound
          rw [Maps.lookup_insert] at bound
          split_ifs at bound
          · cases bound
            exact attested_attach (all _ entry stored)
          · exact all other found bound
      · exact all
    · exact all
  obtain ⟨item, entry, found, member⟩ := listed
  unfold catalog at found
  dsimp only at found
  rw [ExtTreeMap.getElem?_map] at found
  obtain ⟨stored, there, rfl⟩ := Option.map_eq_some_iff.mp found
  exact attached item stored there view ((List.mem_insertionSort _).mp member)

end Views

end Mille.Drive
