import Mille.Lib.TextLines

/-! A page of history as git prints it, and the commits read from it. -/

namespace Mille.Git.LogLines

/-- One commit of a page. -/
structure LogCommit where
  id : String
  shortId : String
  author : Option String
  message : Option String
  timestampMs : Int64
  parents : List String
deriving DecidableEq

/-- A text, unless it is empty. -/
def nonempty (text : List Char) : Option String :=
  if text = [] then none else some (String.ofList text)

/-- The commit of a line, of which the first five fields must be there and the
first two not empty. -/
def parseLogLine (line : List Char) : Option LogCommit :=
  match splitN '\t' 6 line with
  | id :: shortId :: time :: author :: parents :: rest =>
    if id = [] ∨ shortId = [] then none
    else
      some
        { id := String.ofList id
          shortId := String.ofList shortId
          author := nonempty author
          message := nonempty (rest.headD [])
          -- A product out of range wraps.
          timestampMs := ((parseI64 time).map (· * 1000)).getD 0
          parents := (splitWhitespace parents).map String.ofList }
  | _ => none

def parseLogLines (stdout : List Char) : List LogCommit :=
  (lines stdout).filterMap parseLogLine

def hexDigits : List Char :=
  ['0', '1', '2', '3', '4', '5', '6', '7', '8', '9', 'a', 'b', 'c', 'd', 'e', 'f']

/-- An object id, in full or shortened. -/
structure HexId where
  digits : List Char
  present : digits ≠ []
  hex : ∀ digit ∈ digits, digit ∈ hexDigits

/-- A text of one line. -/
structure SingleLine where
  chars : List Char
  unbroken : '\n' ∉ chars
  whole : '\x00' ∉ chars

/-- A commit as git knows it. -/
structure Commit where
  id : HexId
  shortId : HexId
  time : Int64
  author : SingleLine
  parents : List HexId
  subject : SingleLine

namespace Commit

/-- The fields before the subject. -/
def fields (commit : Commit) : List (List Char) :=
  [commit.id.digits, commit.shortId.digits, showI64 commit.time, commit.author.chars,
    [' '].intercalate (commit.parents.map (·.digits))]

/-- The format `%H%x09%h%x09%at%x09%an%x09%P%x09%s`. -/
def line (commit : Commit) : List Char :=
  terminated '\t' commit.fields ++ commit.subject.chars

end Commit

/-- What git prints of a page. -/
def render (commits : List Commit) : List Char :=
  terminated '\n' (commits.map (·.line))

/-- The commit that was read is the one git printed. -/
structure Decodes (commit : Commit) (decoded : LogCommit) : Prop where
  id : decoded.id = String.ofList commit.id.digits
  shortId : decoded.shortId = String.ofList commit.shortId.digits
  author : decoded.author = nonempty commit.author.chars
  message : decoded.message = nonempty commit.subject.chars
  time : decoded.timestampMs.toInt = commit.time.toInt * 1000
  parents : decoded.parents = commit.parents.map fun parent => String.ofList parent.digits

/-- No tab in the name, no carriage return behind the subject, and a time whose
milliseconds fit. -/
structure Printable (commit : Commit) : Prop where
  author : '\t' ∉ commit.author.chars
  subject : commit.subject.chars.getLast? ≠ some '\r'
  time : -2 ^ 63 ≤ commit.time.toInt * 1000 ∧ commit.time.toInt * 1000 < 2 ^ 63

theorem nonempty_injective : Function.Injective nonempty := by
  intro text other same
  simp only [nonempty] at same
  split_ifs at same with empty others
  · rw [empty, others]
  · exact String.ofList_injective (Option.some.inj same)

section Fields

theorem HexId.tabless (id : HexId) : '\t' ∉ id.digits :=
  fun member => absurd (id.hex _ member) (by decide)

theorem HexId.unbroken (id : HexId) : '\n' ∉ id.digits :=
  fun member => absurd (id.hex _ member) (by decide)

theorem HexId.not_whitespace (id : HexId) : ∀ digit ∈ id.digits, isWhitespace digit = false := by
  have plain : ∀ digit ∈ hexDigits, isWhitespace digit = false := by
    intro digit member
    fin_cases member <;> rfl
  exact fun digit member => plain digit (id.hex digit member)

theorem showI64_plain {char : Char} (other : char.isDigit = false) (apart : char ≠ '-') (value : Int64) :
    char ∉ showI64 value := by
  have digits : ∀ number, char ∉ Nat.toDigits 10 number := by
    intro number member
    exact absurd (Nat.isDigit_of_mem_toDigits (by decide) (by decide) member) (by simp [other])
  unfold showI64
  split_ifs
  · rw [List.mem_cons, not_or]
    exact ⟨apart, digits _⟩
  · exact digits _

theorem splitWhitespace_parents (parents : List HexId) :
    splitWhitespace ([' '].intercalate (parents.map (·.digits))) = parents.map (·.digits) := by
  induction parents with
  | nil => rfl
  | cons parent rest ih =>
    cases rest with
    | nil =>
      have one := List.splitOnP_eq_singleton parent.not_whitespace
      simp [splitWhitespace, one, parent.present]
    | cons next others =>
      have cut := List.splitOnP_append_cons_of_forall_mem parent.not_whitespace ' ' (by decide)
        ([' '].intercalate ((next :: others).map (·.digits)))
      rw [splitWhitespace] at ih ⊢
      rw [List.map_cons, List.map_cons, List.intercalate_cons_cons, ← List.map_cons, List.append_assoc,
        List.singleton_append, cut, List.filter_cons_of_pos (by simp [parent.present]), ih]

theorem parents_plain {char : Char} (other : char ∉ hexDigits) (apart : char ≠ ' ') (parents : List HexId) :
    char ∉ [' '].intercalate (parents.map (·.digits)) := by
  induction parents with
  | nil => exact List.not_mem_nil
  | cons parent rest ih =>
    have digits : char ∉ parent.digits := fun member => other (parent.hex _ member)
    cases rest with
    | nil => simpa using digits
    | cons next others =>
      rw [List.map_cons, List.map_cons, List.intercalate_cons_cons, ← List.map_cons]
      simp only [List.mem_append, List.mem_singleton, not_or]
      exact ⟨⟨digits, apart⟩, ih⟩

theorem Commit.line_unbroken (commit : Commit) : '\n' ∉ commit.line := by
  simp only [Commit.line, terminated, Commit.fields, List.flatMap_cons, List.flatMap_nil, List.mem_append,
    List.mem_singleton, List.not_mem_nil, not_or]
  have time : '\n' ∉ showI64 commit.time := showI64_plain rfl (by decide) commit.time
  have parents : '\n' ∉ [' '].intercalate (commit.parents.map (·.digits)) :=
    parents_plain (by decide) (by decide) commit.parents
  simp [commit.id.unbroken, commit.shortId.unbroken, time, commit.author.unbroken, parents,
    commit.subject.unbroken]

end Fields

section Reading

theorem splitN_front {separator : Char} {count : Nat} {text head next : List Char} {rest : List (List Char)}
    (split : splitN separator count text = head :: next :: rest) :
    separator ∉ head ∧ ∃ fewer back, splitN separator fewer back = next :: rest := by
  match count, split with
  | count + 2, split =>
    rw [splitN, splitOnce] at split
    split_ifs at split with member
    · obtain ⟨rfl, others⟩ := List.cons.inj split
      refine ⟨?_, count + 1, _, others⟩
      intro inside
      exact absurd (List.mem_takeWhile_imp inside) (by simp)
    · cases split
  | 1, split => cases split
  | 0, split => cases split

theorem parseLogLine_author {line : List Char} {decoded : LogCommit} {name : List Char}
    (parsed : parseLogLine line = some decoded) (author : decoded.author = nonempty name) : '\t' ∉ name := by
  rw [parseLogLine] at parsed
  split at parsed
  · rename_i id shortId time written parents rest split
    obtain ⟨-, _, _, split⟩ := splitN_front split
    obtain ⟨-, _, _, split⟩ := splitN_front split
    obtain ⟨-, _, _, split⟩ := splitN_front split
    obtain ⟨plain, -⟩ := splitN_front split
    split_ifs at parsed
    cases parsed
    exact nonempty_injective author ▸ plain
  · cases parsed

theorem parseLogLine_fields (id shortId : HexId) (time : Int64) {author parents : List Char}
    (named : '\t' ∉ author) (listed : '\t' ∉ parents) (subject : List Char) :
    parseLogLine
        (terminated '\t' [id.digits, shortId.digits, showI64 time, author, parents] ++ subject) =
      some
        { id := String.ofList id.digits
          shortId := String.ofList shortId.digits
          author := nonempty author
          message := nonempty subject
          timestampMs := time * 1000
          parents := (splitWhitespace parents).map String.ofList } := by
  have timed : '\t' ∉ showI64 time := showI64_plain rfl (by decide) time
  have shape : terminated '\t' [id.digits, shortId.digits, showI64 time, author, parents] ++ subject =
      id.digits ++ '\t' :: (shortId.digits ++ '\t' :: (showI64 time ++ '\t' ::
        (author ++ '\t' :: (parents ++ '\t' :: subject)))) := by
    simp [terminated]
  have split : splitN '\t' 6
      (terminated '\t' [id.digits, shortId.digits, showI64 time, author, parents] ++ subject) =
        [id.digits, shortId.digits, showI64 time, author, parents, subject] := by
    rw [shape, splitN_append id.tabless, splitN_append shortId.tabless, splitN_append timed,
      splitN_append named, splitN_append listed]
    rfl
  simp [parseLogLine, split, id.present, shortId.present, parseI64_showI64]

theorem toInt_milliseconds (time : Int64) :
    (time * 1000).toInt = time.toInt * 1000 ↔
      -2 ^ 63 ≤ time.toInt * 1000 ∧ time.toInt * 1000 < 2 ^ 63 := by
  have product : (time * 1000).toInt = (time.toInt * 1000).bmod (2 ^ 64) := Int64.toInt_mul time 1000
  constructor
  · intro same
    rw [← same]
    exact ⟨Int64.le_toInt _, Int64.toInt_lt _⟩
  · rintro ⟨low, high⟩
    rw [product, Int.bmod_eq_iff (by decide)]
    exact ⟨by omega, by omega, by simp⟩

theorem stripCarriage_eq_self {line : List Char} :
    stripCarriage line = line ↔ line.getLast? ≠ some '\r' := by
  constructor
  · intro same last
    obtain ⟨front, rfl⟩ := List.getLast?_eq_some_iff.mp last
    have shorter := congrArg List.length same
    rw [stripCarriage, if_pos last, List.dropLast_concat, List.length_append, List.length_singleton] at shorter
    omega
  · intro other
    exact if_neg other

/-- A printed line is read as some commit, and as the right one exactly when it is printable. -/
theorem parseLogLine_line (commit : Commit) :
    ∃ decoded, parseLogLine (stripCarriage commit.line) = some decoded ∧
      (Decodes commit decoded ↔ Printable commit) := by
  have listed : '\t' ∉ [' '].intercalate (commit.parents.map (·.digits)) :=
    parents_plain (by decide) (by decide) commit.parents
  have stripped : stripCarriage commit.line =
      terminated '\t' commit.fields ++ stripCarriage commit.subject.chars := by
    have other : '\t' ≠ '\r' := by decide
    have tab := stripCarriage_append (terminated '\t' (commit.fields.take 4) ++
      [' '].intercalate (commit.parents.map (·.digits))) other commit.subject.chars
    simpa [Commit.line, Commit.fields, terminated] using tab
  rw [stripped]
  by_cases named : '\t' ∈ commit.author.chars
  · obtain ⟨front, more, cut, plain⟩ := exists_cut named
    have again : '\t' ∈ more ++ '\t' :: ([' '].intercalate (commit.parents.map (·.digits)) ++
        '\t' :: stripCarriage commit.subject.chars) := by
      simp
    obtain ⟨next, rest, split, free⟩ := exists_cut again
    have shape : terminated '\t' commit.fields ++ stripCarriage commit.subject.chars =
        terminated '\t' [commit.id.digits, commit.shortId.digits, showI64 commit.time, front, next] ++
          rest := by
      simp [Commit.fields, terminated, cut, split]
    have parsed := parseLogLine_fields commit.id commit.shortId commit.time plain free rest
    rw [← shape] at parsed
    refine ⟨_, parsed, ?_⟩
    constructor
    · intro decodes
      exact absurd named (parseLogLine_author parsed decodes.author)
    · intro printable
      exact absurd named printable.author
  · refine ⟨_, parseLogLine_fields commit.id commit.shortId commit.time named listed _, ?_⟩
    rw [splitWhitespace_parents]
    constructor
    · intro decodes
      have subject : stripCarriage commit.subject.chars = commit.subject.chars :=
        nonempty_injective decodes.message
      exact ⟨named, stripCarriage_eq_self.mp subject, (toInt_milliseconds commit.time).mp decodes.time⟩
    · intro printable
      exact
        { id := rfl
          shortId := rfl
          author := rfl
          message := congrArg nonempty (stripCarriage_eq_self.mpr printable.subject)
          time := (toInt_milliseconds commit.time).mpr printable.time
          parents := by simp }

end Reading

/-- A page is read as git printed it exactly when every commit is printable. -/
theorem parseLogLines_render_iff (commits : List Commit) :
    List.Forall₂ Decodes commits (parseLogLines (render commits)) ↔
      ∀ commit ∈ commits, Printable commit := by
  have unbroken : ∀ line ∈ commits.map (·.line), '\n' ∉ line := by
    intro line member
    obtain ⟨commit, -, rfl⟩ := List.mem_map.mp member
    exact commit.line_unbroken
  rw [parseLogLines, render, lines_terminated unbroken, List.map_map]
  clear unbroken
  induction commits with
  | nil => simp
  | cons commit rest ih =>
    obtain ⟨decoded, parsed, exactly⟩ := parseLogLine_line commit
    rw [List.map_cons, Function.comp_apply, List.filterMap_cons_some parsed, List.forall₂_cons, exactly,
      List.forall_mem_cons]
    exact and_congr_right fun _ => ih

def commitId : HexId := ⟨['c'], by decide, by simp [hexDigits]⟩

/-- A commit whose author's name has a tab in it. -/
def tabbedCommit : Commit where
  id := commitId
  shortId := commitId
  time := 0
  author := ⟨['A', '\t', 'B'], by decide, by decide⟩
  parents := [commitId]
  subject := ⟨['s'], by decide, by decide⟩

/-- The rest of the name is taken for the parents, and the parents go into the subject. -/
theorem tab_in_author_misread :
    ¬List.Forall₂ Decodes [tabbedCommit] (parseLogLines (render [tabbedCommit])) := by
  have read : parseLogLines (render [tabbedCommit]) =
      [{ id := "c", shortId := "c", author := some "A", message := some "c\ts", timestampMs := 0
         parents := ["B"] }] := by
    decide
  rw [read]
  intro decoded
  obtain ⟨first, -⟩ := List.forall₂_cons.mp decoded
  have parents : ["B"] = ["c"] := first.parents
  exact absurd parents (by decide)

end Mille.Git.LogLines
