import Mille.Git.Porcelain

/-! Where the two porcelain parsers agree. They differ on a rename whose head or
second chunk is malformed, on a record without the separator after its tag, and
on characters outside ASCII in the places one of them counts in bytes. -/

namespace Mille.Git

open Porcelain ShellClient

/-- What the shell client would store for a row of the engine. -/
def StatusEntry.collapse (row : StatusEntry) : GitStatusEntry :=
  ⟨utf16.text row.path.toList, row.collapsedLetter,
    if row.conflicted || row.untracked then none else some row.xy.index.isSome⟩

/-- The map of a list of rows; a later row for a path overrides an earlier one. -/
def collapseRows (resolve : JsString → JsString) (map : StatusMap) (rows : List StatusEntry) :
    StatusMap :=
  rows.foldl (fun map row => record resolve map (some row.collapse)) map

/-- The record has its fixed fields and a path after them. -/
def hasPath (fields : Nat) (token : List Char) : Bool :=
  match afterFields ' ' fields token with
  | some (_ :: _) => true
  | _ => false

/-- A space follows the tag, and the first letter is an ASCII character. -/
def plainHead : List Char → Bool
  | _ :: space :: x :: _ => decide (space = ' ') && decide (x.toNat < 128)
  | _ => false

/-- Read as a record of its own, the chunk would be one that can be stored. -/
def startsRecord : List Char → Bool
  | tag :: _ => decide (tag ∈ ['1', '2', 'u', '?'])
  | [] => false

/-- The records on which the two parsers do the same. -/
def readsAlike : List (List Char) → Bool
  | [] => true
  | [] :: rest => readsAlike rest
  | (tag :: fields) :: rest =>
    let token := tag :: fields
    if tag = '1' then (!hasPath ordinaryFields token || plainHead token) && readsAlike rest
    else if tag = '2' then
      match rest with
      | [] => !hasPath renameFields token
      | orig :: rest =>
        (if hasPath renameFields token then plainHead token && !orig.isEmpty
          else !startsRecord orig) && readsAlike rest
    else if tag = 'u' then (!hasPath unmergedFields token || plainHead token) && readsAlike rest
    else if tag = '?' then fields.head?.all (·.toNat < 128) && readsAlike rest
    else readsAlike rest

/-- The letter a character of a status column stands for. -/
def letterOf (char : Char) : Option StatusLetter :=
  if char = 'M' ∨ char = 'T' then some .modified
  else if char = 'A' then some .added
  else if char = 'D' then some .deleted
  else if char = 'R' then some .renamed
  else if char = 'C' then some .copied
  else if char = 'U' then some .unmerged
  else none

/-- A code unit that tells ASCII characters apart as the character does. -/
def Shows {α : Type} (encoding : TextEncoding α) (head : α) (char : Char) : Prop :=
  ∀ ascii, ascii.toNat < 128 → (head = encoding.unit ascii ↔ char = ascii)

theorem fromPorcelain_shows {byte : UInt8} {char : Char} (shows : Shows utf8 byte char) :
    StatusLetter.fromPorcelain byte = letterOf char := by
  have letter : ∀ ascii : Char, ascii.toNat < 128 →
      (byte = ascii.toUInt8 ↔ char = ascii) := fun ascii bound => shows ascii bound
  unfold StatusLetter.fromPorcelain letterOf
  simp only [letter 'M' (by decide), letter 'T' (by decide), letter 'A' (by decide),
    letter 'D' (by decide), letter 'R' (by decide), letter 'C' (by decide), letter 'U' (by decide)]

theorem parseLetter_shows {unit : UInt16} {char : Char} (shows : Shows utf16 unit char) :
    parseLetter unit = letterOf char := by
  unfold parseLetter letterOf
  simp only [shows 'M' (by decide), shows 'T' (by decide), shows 'A' (by decide),
    shows 'D' (by decide), shows 'R' (by decide), shows 'C' (by decide), shows 'U' (by decide)]
  grind

private theorem text_record {α : Type} (encoding : TextEncoding α) {tag x : Char}
    (tagAscii : tag.toNat < 128) (xAscii : x.toNat < 128) (y z : Char) (tail : List Char) :
    ∃ head more rest, encoding.text (tag :: ' ' :: x :: y :: z :: tail) =
      encoding.unit tag :: encoding.unit ' ' :: encoding.unit x :: head :: more :: rest ∧
      Shows encoding head y := by
  obtain ⟨head, rest, units, shows⟩ := encoding.text_cons_head y (z :: tail)
  have long := encoding.length_le_text (y :: z :: tail)
  rw [units] at long
  cases rest with
  | nil => simp at long
  | cons more rest =>
    refine ⟨head, more, rest, ?_, shows⟩
    rw [encoding.text_cons_ascii tagAscii, encoding.text_cons_ascii (by decide),
      encoding.text_cons_ascii xAscii, units]

private theorem record_shape {fields : Nat} {token : List Char} (many : 5 ≤ fields)
    (path : hasPath fields token = true) (plain : plainHead token = true) :
    ∃ tag x y z tail char rest, token = tag :: ' ' :: x :: y :: z :: tail ∧ x.toNat < 128 ∧
      afterFields ' ' fields token = some (char :: rest) := by
  unfold hasPath at path
  split at path
  · rename_i char rest found
    have long := afterFields_length found
    match token, plain with
    | tag :: space :: x :: y :: z :: tail, plain =>
      simp only [plainHead, Bool.and_eq_true, decide_eq_true_eq] at plain
      obtain ⟨rfl, ascii⟩ := plain
      exact ⟨tag, x, y, z, tail, char, rest, rfl, ascii, found⟩
    | [_, _, _, _], _ | [_, _, _], _ | [_, _], _ | [_], _ | [], _ =>
      simp only [List.length_cons, List.length_nil] at long
      omega
  · simp at path

/-- Both parsers read the same letters and the same path from a plain record. -/
theorem record_read {fields : Nat} {tag : Char} {rest : List Char} (many : 5 ≤ fields)
    (tagAscii : tag.toNat < 128) (path : hasPath fields (tag :: rest) = true)
    (plain : plainHead (tag :: rest) = true) :
    ∃ x8 y8 x16 y16 x y chars,
      splitRecord (utf8.text (tag :: rest)) fields = some (x8, y8, String.ofList chars) ∧
      parseRecord (utf16.text (tag :: rest)) fields = some (x16, y16, utf16.text chars) ∧
      StatusLetter.fromPorcelain x8 = letterOf x ∧ StatusLetter.fromPorcelain y8 = letterOf y ∧
      parseLetter x16 = letterOf x ∧ parseLetter y16 = letterOf y := by
  obtain ⟨_, x, y, z, tail, char, chars, shape, ascii, found⟩ := record_shape many path plain
  cases shape
  obtain ⟨head8, more8, rest8, text8, shows8⟩ := text_record utf8 tagAscii ascii y z tail
  obtain ⟨head16, more16, rest16, text16, shows16⟩ := text_record utf16 tagAscii ascii y z tail
  have after8 := utf8.afterFields_text (show ' '.toNat < 128 by decide) fields
    (tag :: ' ' :: x :: y :: z :: tail)
  have after16 := utf16.afterFields_text (show ' '.toNat < 128 by decide) fields
    (tag :: ' ' :: x :: y :: z :: tail)
  rw [found, Option.map_some, text8] at after8
  rw [found, Option.map_some, text16] at after16
  obtain ⟨first8, others8, units8, -⟩ := utf8.text_cons_head char chars
  obtain ⟨first16, others16, units16, -⟩ := utf16.text_cons_head char chars
  rw [units8] at after8
  rw [units16] at after16
  have plain8 : Shows utf8 (utf8.unit x) x := fun ascii' bound =>
    ⟨utf8.unit_injective x ascii' ascii bound, fun same => by rw [same]⟩
  have plain16 : Shows utf16 (utf16.unit x) x := fun ascii' bound =>
    ⟨utf16.unit_injective x ascii' ascii bound, fun same => by rw [same]⟩
  refine ⟨utf8.unit x, head8, utf16.unit x, head16, x, y, char :: chars, ?_, ?_,
    fromPorcelain_shows plain8, fromPorcelain_shows shows8, parseLetter_shows plain16,
    parseLetter_shows shows16⟩
  · rw [text8]
    simp only [splitRecord, ne_eq, not_true_eq_false, ↓reduceIte]
    rw [after8]
    dsimp only
    rw [← units8, fromUtf8Lossy_text]
  · rw [text16]
    simp only [parseRecord]
    rw [after16]
    dsimp only
    rw [← units16]

theorem record_unread {fields : Nat} {token : List Char} (path : hasPath fields token = false) :
    splitRecord (utf8.text token) fields = none ∧ parseRecord (utf16.text token) fields = none := by
  have after8 := utf8.afterFields_text (show ' '.toNat < 128 by decide) fields token
  have after16 := utf16.afterFields_text (show ' '.toNat < 128 by decide) fields token
  unfold hasPath at path
  constructor
  · unfold splitRecord
    split
    · split
      · rfl
      · rw [after8]
        cases found : afterFields ' ' fields token with
        | none => rfl
        | some rest =>
          cases rest with
          | nil => rfl
          | cons => simp [found] at path
    · rfl
  · unfold parseRecord
    split
    · rw [after16]
      cases found : afterFields ' ' fields token with
      | none => rfl
      | some rest =>
        cases rest with
        | nil => rfl
        | cons => simp [found] at path
    · rfl

theorem xyToEntry_eq_collapse {x8 y8 : UInt8} {x16 y16 : UInt16} {x y : Char}
    (left8 : StatusLetter.fromPorcelain x8 = letterOf x)
    (right8 : StatusLetter.fromPorcelain y8 = letterOf y)
    (left16 : parseLetter x16 = letterOf x) (right16 : parseLetter y16 = letterOf y)
    (chars : List Char) (origPath : Option String) :
    xyToEntry x16 y16 (utf16.text chars) =
      (xyEntry x8 y8 (String.ofList chars) origPath).map StatusEntry.collapse := by
  unfold xyToEntry xyEntry
  rw [left8, right8, left16, right16]
  cases letterOf x with
  | some first => simp [StatusEntry.collapse, StatusEntry.ofTracked, StatusEntry.collapsedLetter]
  | none =>
    cases letterOf y with
    | some second => simp [StatusEntry.collapse, StatusEntry.ofTracked, StatusEntry.collapsedLetter]
    | none => simp

theorem collapseRows_emit (resolve : JsString → JsString) (map : StatusMap)
    (entry : Option StatusEntry) (rest : Parsed) :
    collapseRows resolve map (rest.emit entry).entries =
      collapseRows resolve (record resolve map (entry.map StatusEntry.collapse)) rest.entries := by
  cases entry <;> rfl

@[simp] theorem collapseRows_warn (resolve : JsString → JsString) (map : StatusMap)
    (warning : Warning) (rest : Parsed) :
    collapseRows resolve map (rest.warn warning).entries = collapseRows resolve map rest.entries :=
  rfl

private theorem text_tag {α : Type} [DecidableEq α] (encoding : TextEncoding α) (tag : Char)
    (fields : List Char) : ∃ head rest, encoding.text (tag :: fields) = head :: rest ∧
      Shows encoding head tag :=
  encoding.text_cons_head tag fields

variable {resolve : JsString → JsString}

theorem parseLines_skips {chunk : List Char} (noRecord : startsRecord chunk = false)
    (map : StatusMap) (rest : List JsString) :
    parseLines resolve map (utf16.text chunk :: rest) = parseLines resolve map rest := by
  cases chunk with
  | nil => rfl
  | cons tag fields =>
    simp only [startsRecord, List.mem_cons, List.not_mem_nil, or_false,
      decide_eq_false_iff_not, not_or] at noRecord
    obtain ⟨head, tailUnits, units, shows⟩ := text_tag utf16 tag fields
    rw [units, parseLines]
    simp only [shows '1' (by decide), shows '2' (by decide), shows '?' (by decide),
      shows 'u' (by decide), noRecord, ↓reduceIte, ite_self]

private theorem tag_ne8 {first second : Char} (firstAscii : first.toNat < 128)
    (secondAscii : second.toNat < 128) : utf8.unit first = utf8.unit second ↔ first = second :=
  ⟨utf8.unit_injective first second firstAscii secondAscii, fun same => by rw [same]⟩

private theorem tag_ne16 {first second : Char} (firstAscii : first.toNat < 128)
    (secondAscii : second.toNat < 128) : utf16.unit first = utf16.unit second ↔ first = second :=
  ⟨utf16.unit_injective first second firstAscii secondAscii, fun same => by rw [same]⟩

/-- On records that read alike the two parsers build the same map. -/
theorem parseLines_eq_collapse (tokens : List (List Char)) (map : StatusMap)
    (alike : readsAlike tokens = true) :
    parseLines resolve map (tokens.map utf16.text) =
      collapseRows resolve map (parseTokens (tokens.map utf8.text)).entries := by
  induction tokens using readsAlike.induct generalizing map with
  | case1 => rfl
  | case2 rest ih => exact ih map alike
  | case3 fields rest ih =>
    rw [readsAlike.eq_def] at alike
    simp only [↓reduceIte, Bool.and_eq_true, Bool.or_eq_true, Bool.not_eq_true'] at alike
    obtain ⟨head, alike⟩ := alike
    have ascii : '1'.toNat < 128 := by decide
    have text8 := utf8.text_cons_ascii ascii fields
    have text16 := utf16.text_cons_ascii ascii fields
    rw [List.map_cons, List.map_cons, text8, text16, parseLines.eq_def, parseTokens.eq_def]
    simp only [↓reduceIte]
    rw [← text8, ← text16]
    by_cases path : hasPath ordinaryFields ('1' :: fields) = true
    · obtain ⟨x8, y8, x16, y16, x, y, chars, read8, read16, left8, right8, left16, right16⟩ :=
        record_read (by decide) ascii path (by simpa [path] using head)
      rw [read8, show (8 : Nat) = ordinaryFields from rfl, read16]
      dsimp only
      rw [collapseRows_emit, ← xyToEntry_eq_collapse left8 right8 left16 right16, ih _ alike]
    · obtain ⟨read8, read16⟩ := record_unread (Bool.eq_false_of_not_eq_true path)
      rw [read8, show (8 : Nat) = ordinaryFields from rfl, read16]
      dsimp only
      rw [collapseRows_warn, ih _ alike]
  | case4 fields _ =>
    rw [readsAlike.eq_def] at alike
    simp only [Char.reduceEq, ↓reduceIte, Bool.not_eq_true'] at alike
    have ascii : '2'.toNat < 128 := by decide
    have text8 := utf8.text_cons_ascii ascii fields
    have text16 := utf16.text_cons_ascii ascii fields
    obtain ⟨read8, read16⟩ := record_unread alike
    rw [List.map_singleton, List.map_singleton, text8, text16, parseLines.eq_def, parseTokens.eq_def]
    simp (disch := decide) only [tag_ne16, tag_ne8, Char.reduceEq, ↓reduceIte]
    rw [← text16, show (9 : Nat) = renameFields from rfl, read16]
    rfl
  | case5 fields orig rest _ ih =>
    rw [readsAlike.eq_def] at alike
    simp only [Char.reduceEq, ↓reduceIte, Bool.and_eq_true] at alike
    obtain ⟨head, alike⟩ := alike
    have ascii : '2'.toNat < 128 := by decide
    have text8 := utf8.text_cons_ascii ascii fields
    have text16 := utf16.text_cons_ascii ascii fields
    rw [List.map_cons, List.map_cons, List.map_cons, List.map_cons, text8, text16,
      parseLines.eq_def, parseTokens.eq_def]
    simp (disch := decide) only [tag_ne16, tag_ne8, Char.reduceEq, ↓reduceIte]
    rw [← text8, ← text16, show (9 : Nat) = renameFields from rfl]
    by_cases path : hasPath renameFields ('2' :: fields) = true
    · simp only [path, ↓reduceIte, Bool.and_eq_true, Bool.not_eq_true'] at head
      obtain ⟨x8, y8, x16, y16, x, y, chars, read8, read16, left8, right8, left16, right16⟩ :=
        record_read (by decide) ascii path head.1
      rw [read8, read16]
      cases origUnits : utf8.text orig with
      | nil =>
        rw [TextEncoding.text_eq_nil] at origUnits
        simp [origUnits] at head
      | cons first others =>
        dsimp only
        rw [collapseRows_emit, ← xyToEntry_eq_collapse left8 right8 left16 right16, ih _ alike]
    · simp only [path, Bool.false_eq_true, ↓reduceIte, Bool.not_eq_true'] at head
      obtain ⟨read8, read16⟩ := record_unread (Bool.eq_false_of_not_eq_true path)
      rw [read8, read16]
      dsimp only
      rw [collapseRows_warn, parseLines_skips head, ih _ alike]
  | case6 fields rest _ _ ih =>
    rw [readsAlike.eq_def] at alike
    simp only [Char.reduceEq, ↓reduceIte, Bool.and_eq_true, Bool.or_eq_true,
      Bool.not_eq_true'] at alike
    obtain ⟨head, alike⟩ := alike
    have ascii : 'u'.toNat < 128 := by decide
    have text8 := utf8.text_cons_ascii ascii fields
    have text16 := utf16.text_cons_ascii ascii fields
    rw [List.map_cons, List.map_cons, text8, text16, parseLines.eq_def, parseTokens.eq_def]
    simp (disch := decide) only [tag_ne16, tag_ne8, Char.reduceEq, ↓reduceIte]
    rw [← text8, ← text16]
    by_cases path : hasPath unmergedFields ('u' :: fields) = true
    · obtain ⟨x8, y8, x16, y16, x, y, chars, read8, read16, -⟩ :=
        record_read (by decide) ascii path (by simpa [path] using head)
      rw [read8, show (10 : Nat) = unmergedFields from rfl, read16]
      dsimp only
      rw [collapseRows_emit, ih _ alike]
      simp [StatusEntry.collapse, StatusEntry.ofConflicted, StatusEntry.collapsedLetter]
    · obtain ⟨read8, read16⟩ := record_unread (Bool.eq_false_of_not_eq_true path)
      rw [read8, show (10 : Nat) = unmergedFields from rfl, read16]
      dsimp only
      rw [collapseRows_warn, ih _ alike]
  | case7 fields rest _ _ _ ih =>
    rw [readsAlike.eq_def] at alike
    simp only [Char.reduceEq, ↓reduceIte, Bool.and_eq_true] at alike
    obtain ⟨head, alike⟩ := alike
    have ascii : '?'.toNat < 128 := by decide
    have text8 := utf8.text_cons_ascii ascii fields
    have text16 := utf16.text_cons_ascii ascii fields
    rw [List.map_cons, List.map_cons, text8, text16, parseLines.eq_def, parseTokens.eq_def]
    simp (disch := decide) only [tag_ne16, tag_ne8, Char.reduceEq, ↓reduceIte]
    cases fields with
    | nil => exact ih map alike
    | cons space chars =>
      have plain : space.toNat < 128 := by simpa using head
      rw [utf8.text_cons_ascii plain, utf16.text_cons_ascii plain]
      simp only [List.drop_succ_cons, List.drop_zero]
      cases chars with
      | nil => exact ih map alike
      | cons char chars =>
        obtain ⟨first8, others8, units8, -⟩ := utf8.text_cons_head char chars
        obtain ⟨first16, others16, units16, -⟩ := utf16.text_cons_head char chars
        rw [units8, units16]
        dsimp only
        rw [← units8, ← units16, collapseRows_emit, ih _ alike]
        simp [StatusEntry.collapse, StatusEntry.ofUntracked, StatusEntry.collapsedLetter]
  | case8 tag fields rest notOne notTwo notU notQuestion ih =>
    rw [readsAlike.eq_def] at alike
    simp only [notOne, notTwo, notU, notQuestion, ↓reduceIte] at alike
    obtain ⟨head8, rest8, units8, shows8⟩ := text_tag utf8 tag fields
    obtain ⟨head16, rest16, units16, shows16⟩ := text_tag utf16 tag fields
    rw [List.map_cons, List.map_cons, units8, units16, parseLines.eq_def, parseTokens.eq_def]
    simp only [shows8 '1' (by decide), shows8 '2' (by decide), shows8 'u' (by decide),
      shows8 '?' (by decide), shows16 '1' (by decide), shows16 '2' (by decide),
      shows16 'u' (by decide), shows16 '?' (by decide), notOne, notTwo, notU, notQuestion,
      ↓reduceIte, ite_self]
    split
    · exact ih map alike
    · exact ih map alike

theorem parseLines_trailing : (tokens : List JsString) → (map : StatusMap) →
    parseLines resolve map (tokens ++ [[]]) = parseLines resolve map tokens
  | [], _ => rfl
  | [] :: rest, map => parseLines_trailing rest map
  | (tag :: fields) :: rest, map => by
    rw [List.cons_append, parseLines.eq_def, parseLines.eq_def resolve map ((tag :: fields) :: rest)]
    dsimp only
    split
    · split
      · exact parseLines_trailing rest _
      · exact parseLines_trailing rest map
    split
    · split
      · cases rest with
        | nil => rfl
        | cons _ rest => exact parseLines_trailing rest _
      · exact parseLines_trailing rest map
    split
    · split
      · exact parseLines_trailing rest map
      · exact parseLines_trailing rest _
    split
    · exact parseLines_trailing rest map
    split
    · split
      · exact parseLines_trailing rest _
      · exact parseLines_trailing rest map
    · exact parseLines_trailing rest map

theorem parseLines_lines (buffer : JsString) (map : StatusMap) :
    parseLines resolve map (lines buffer) =
      parseLines resolve map (buffer.splitOn (utf16.unit '\x00')) := by
  unfold lines
  dsimp only
  split
  · rename_i trailing
    obtain ⟨tokens, same⟩ := List.getLast?_eq_some_iff.mp trailing
    rw [same, parseLines_trailing, List.dropLast_concat]
  · rfl

/-- The two parsers build the same map from every buffer whose records they read
alike: every record with its fields has a space after its tag and an ASCII first
letter, every rename has its second chunk or is followed by one that is no record,
and an untracked row has an ASCII character after its tag. -/
theorem porcelain_parsers_agree (resolve : JsString → JsString) (buffer : List Char)
    (alike : readsAlike (buffer.splitOn '\x00') = true) :
    parsePorcelainV2 resolve (utf16.text buffer) =
      collapseRows resolve [] (parse (utf8.text buffer)).entries := by
  have ascii : '\x00'.toNat < 128 := by decide
  rw [parsePorcelainV2, parseLines_lines, utf16.text_splitOn ascii,
    parseLines_eq_collapse _ _ alike, parse, utf8.text_splitOn ascii]

/-- `path.resolve` against the root `/r`, for a plain relative path. -/
def underRoot (rel : JsString) : JsString :=
  utf16.text "/r/".toList ++ rel

/-- A staged change, a rename with its origin and an untracked file. -/
def sampleRows : List Char :=
  "1 M. N 1 1 1 a b c.ts\x002 R. N 1 1 1 a b R9 d\x00e\x00? f g\x00".toList

/-- A rename cut off after its first chunk. -/
private def truncatedRename : List Char :=
  "2 R. N 1 1 1 a b R9 d\x00".toList

private theorem samples_read : readsAlike (sampleRows.splitOn '\x00') = true ∧
    parsePorcelainV2 underRoot (utf16.text truncatedRename) ≠
      collapseRows underRoot [] (parse (utf8.text truncatedRename)).entries := by
  decide +kernel

theorem porcelain_parsers_agree_on_sample :
    parsePorcelainV2 underRoot (utf16.text sampleRows) =
      collapseRows underRoot [] (parse (utf8.text sampleRows)).entries :=
  porcelain_parsers_agree underRoot sampleRows samples_read.1

/-- The cut rename is stored by the shell client and refused by the engine. -/
theorem truncated_rename_parsed_differently :
    ¬ ∀ (resolve : JsString → JsString) (buffer : List Char),
      parsePorcelainV2 resolve (utf16.text buffer) =
        collapseRows resolve [] (parse (utf8.text buffer)).entries := by
  intro always
  exact samples_read.2 (always underRoot truncatedRename)

end Mille.Git
