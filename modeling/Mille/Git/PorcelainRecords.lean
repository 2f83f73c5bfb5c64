import Mille.Lib.Separators
import Mille.Git.Porcelain

/-! What the engine's parser makes of the records git writes, and of a stream in which
some record cannot be read. -/

namespace Mille.Git.Porcelain

/-- A status column as git writes it. -/
inductive Glyph where
  | dot
  | modified
  | typeChanged
  | added
  | deleted
  | renamed
  | copied
  | unmerged
deriving DecidableEq

namespace Glyph

def char : Glyph → Char
  | dot => '.'
  | modified => 'M'
  | typeChanged => 'T'
  | added => 'A'
  | deleted => 'D'
  | renamed => 'R'
  | copied => 'C'
  | unmerged => 'U'

def byte (glyph : Glyph) : UInt8 := utf8.unit glyph.char

/-- A type change reads as a modification. -/
def letter : Glyph → Option StatusLetter
  | dot => none
  | modified => some .modified
  | typeChanged => some .modified
  | added => some .added
  | deleted => some .deleted
  | renamed => some .renamed
  | copied => some .copied
  | unmerged => some .unmerged

theorem fromPorcelain_byte (glyph : Glyph) : StatusLetter.fromPorcelain glyph.byte = glyph.letter := by
  cases glyph <;> rfl

theorem byte_ne_nul (glyph : Glyph) : utf8.unit '\x00' ≠ glyph.byte := by
  cases glyph <;> decide

theorem byte_ne_space (glyph : Glyph) : utf8.unit ' ' ≠ glyph.byte := by
  cases glyph <;> decide

end Glyph

/-- The seven pairs git writes for an unmerged path. -/
inductive Conflict where
  | bothDeleted
  | addedByUs
  | deletedByThem
  | addedByThem
  | deletedByUs
  | bothAdded
  | bothModified

def Conflict.columns : Conflict → Glyph × Glyph
  | bothDeleted => (.deleted, .deleted)
  | addedByUs => (.added, .unmerged)
  | deletedByThem => (.unmerged, .deleted)
  | addedByThem => (.unmerged, .added)
  | deletedByUs => (.deleted, .unmerged)
  | bothAdded => (.added, .added)
  | bothModified => (.unmerged, .unmerged)

/-- A fixed field: neither a space nor a NUL within. -/
structure Field where
  bytes : List UInt8
  spaceless : utf8.unit ' ' ∉ bytes
  unbroken : utf8.unit '\x00' ∉ bytes

/-- Any path: spaces may stand anywhere in it. -/
structure RecordPath where
  chars : List Char
  present : chars ≠ []
  unbroken : '\x00' ∉ chars

namespace RecordPath

def bytes (path : RecordPath) : List UInt8 := utf8.text path.chars

def text (path : RecordPath) : String := String.ofList path.chars

end RecordPath

/-- The records of porcelain v2. -/
inductive Record where
  | ordinary (x y : Glyph) (fields : List.Vector Field 6) (path : RecordPath)
  | renamed (x y : Glyph) (fields : List.Vector Field 7) (path orig : RecordPath)
  | unmerged (conflict : Conflict) (fields : List.Vector Field 8) (path : RecordPath)
  | untracked (path : RecordPath)
  | ignored (path : RecordPath)
  | header (text : Field)

/-- The fixed fields, a space behind each, and the path. -/
def recordBytes (tag : Char) (x y : Glyph) (fields : List Field) (path : RecordPath) : List UInt8 :=
  terminated (utf8.unit ' ') ([utf8.unit tag] :: [x.byte, y.byte] :: fields.map (·.bytes)) ++ path.bytes

namespace Record

/-- The chunks of a record; a rename has two. -/
def chunks : Record → List (List UInt8)
  | ordinary x y fields path => [recordBytes '1' x y fields.toList path]
  | renamed x y fields path orig => [recordBytes '2' x y fields.toList path, orig.bytes]
  | unmerged conflict fields path =>
    [recordBytes 'u' conflict.columns.1 conflict.columns.2 fields.toList path]
  | untracked path => [utf8.unit '?' :: utf8.unit ' ' :: path.bytes]
  | ignored path => [utf8.unit '!' :: utf8.unit ' ' :: path.bytes]
  | header text => [utf8.unit '#' :: utf8.unit ' ' :: text.bytes]

/-- A changed path, unless both columns are dots. -/
def tracked (x y : Glyph) (path : RecordPath) (orig : Option RecordPath) : Option StatusEntry :=
  if x = .dot ∧ y = .dot then none
  else some (.ofTracked path.text (orig.map (·.text)) ⟨x.letter, y.letter⟩)

/-- The row a record stands for. -/
def row : Record → Option StatusEntry
  | ordinary x y _ path => tracked x y path none
  | renamed x y _ path orig => tracked x y path (some orig)
  | unmerged conflict _ path =>
    some (.ofConflicted path.text ⟨conflict.columns.1.letter, conflict.columns.2.letter⟩)
  | untracked path => some (.ofUntracked path.text)
  | ignored _ => none
  | header _ => none

end Record

/-- What is framed as one record: a chunk, or a rename's head with the chunk behind it. -/
inductive Framed : List (List UInt8) → Prop where
  | single (chunk : List UInt8) (other : chunk.head? ≠ some (utf8.unit '2')) : Framed [chunk]
  | pair (fields orig : List UInt8) : Framed [utf8.unit '2' :: fields, orig]

/-- A record that may be malformed. -/
structure RawRecord where
  chunks : List (List UInt8)
  framed : Framed chunks
  unbroken : ∀ chunk ∈ chunks, utf8.unit '\x00' ∉ chunk

/-- The bytes of a stream of records. -/
def stream (records : List RawRecord) : List UInt8 :=
  terminated (utf8.unit '\x00') (records.flatMap (·.chunks))

section Reading

theorem afterFields_terminated {α : Type} [DecidableEq α] {separator : α} {parts : List (List α)}
    (unbroken : ∀ part ∈ parts, separator ∉ part) (last : List α) :
    afterFields separator parts.length (terminated separator parts ++ last) = some last := by
  induction parts with
  | nil => exact afterFields_zero separator last
  | cons part rest ih =>
    have skips : ∀ (units more : List α), separator ∉ units →
        afterFields separator (rest.length + 1) (units ++ separator :: more) =
          afterFields separator rest.length more := by
      intro units more absent
      induction units with
      | nil => rw [List.nil_append, afterFields, if_pos rfl]
      | cons head tail inner =>
        rw [List.mem_cons, not_or] at absent
        rw [List.cons_append, afterFields, if_neg (Ne.symm absent.1), inner absent.2]
    obtain ⟨first, others⟩ := List.forall_mem_cons.mp unbroken
    have cut : terminated separator (part :: rest) ++ last =
        part ++ separator :: (terminated separator rest ++ last) := by
      simp [terminated]
    rw [cut, List.length_cons, skips part _ first, ih others]

theorem RecordPath.bytes_ne_nil (path : RecordPath) : path.bytes ≠ [] :=
  fun none => path.present (utf8.text_eq_nil.mp none)

theorem RecordPath.lossy (path : RecordPath) : fromUtf8Lossy path.bytes = path.text :=
  fromUtf8Lossy_text path.chars

theorem RecordPath.nul_not_mem (path : RecordPath) : utf8.unit '\x00' ∉ path.bytes := by
  intro member
  obtain ⟨char, inside, unit⟩ := List.mem_flatMap.mp member
  by_cases ascii : char.toNat < 128
  · rw [utf8.encode_ascii char ascii, List.mem_singleton] at unit
    have same := utf8.unit_injective '\x00' char (by decide) ascii unit
    exact path.unbroken (same ▸ inside)
  · exact utf8.encode_other char ascii _ unit '\x00' (by decide) rfl

theorem splitRecord_recordBytes (tag : Char) (separate : utf8.unit ' ' ≠ utf8.unit tag) (x y : Glyph)
    (fields : List Field) (path : RecordPath) :
    splitRecord (recordBytes tag x y fields path) (fields.length + 2) =
      some (x.byte, y.byte, path.text) := by
  have parts : ∀ part ∈ [utf8.unit tag] :: [x.byte, y.byte] :: fields.map (·.bytes), utf8.unit ' ' ∉ part := by
    intro part member
    simp only [List.mem_cons, List.mem_map] at member
    rcases member with rfl | rfl | ⟨field, -, rfl⟩
    · simpa using separate
    · simp [x.byte_ne_space, y.byte_ne_space]
    · exact field.spaceless
  have after := afterFields_terminated parts path.bytes
  rw [List.length_cons, List.length_cons, List.length_map] at after
  have shape : recordBytes tag x y fields path =
      utf8.unit tag :: utf8.unit ' ' :: x.byte :: y.byte :: utf8.unit ' ' ::
        (terminated (utf8.unit ' ') (fields.map (·.bytes)) ++ path.bytes) := by
    simp [recordBytes, terminated]
  have lossy := path.lossy
  obtain ⟨byte, rest, bytes⟩ := List.exists_cons_of_ne_nil path.bytes_ne_nil
  change afterFields (utf8.unit ' ') (fields.length + 2) (recordBytes tag x y fields path) = _ at after
  rw [shape, bytes] at after
  rw [bytes] at lossy
  rw [shape, bytes]
  simp only [splitRecord, ne_eq, not_true_eq_false, ↓reduceIte]
  rw [after]
  simp only [lossy]

theorem xyEntry_bytes (x y : Glyph) (path : RecordPath) (orig : Option RecordPath) :
    xyEntry x.byte y.byte path.text (orig.map (·.text)) = Record.tracked x y path orig := by
  unfold xyEntry Record.tracked
  rw [x.fromPorcelain_byte, y.fromPorcelain_byte]
  cases x <;> cases y <;> rfl

end Reading

section Parsing

/-- What two parts of a stream give together. -/
def Parsed.append (first second : Parsed) : Parsed :=
  ⟨first.entries ++ second.entries, first.warnings ++ second.warnings⟩

@[simp] theorem Parsed.empty_append (parsed : Parsed) : Parsed.empty.append parsed = parsed := rfl

theorem Parsed.append_assoc (first second third : Parsed) :
    (first.append second).append third = first.append (second.append third) := by
  simp [append]

theorem Parsed.emit_append (entry : Option StatusEntry) (first second : Parsed) :
    (first.emit entry).append second = (first.append second).emit entry := by
  simp [append, emit]

/-- What follows a framed record is read as if the record were not there. -/
theorem parseTokens_framed {chunks : List (List UInt8)} (framed : Framed chunks) (rest : List (List UInt8)) :
    parseTokens (chunks ++ rest) = (parseTokens chunks).append (parseTokens rest) := by
  cases framed with
  | single chunk other =>
    cases chunk with
    | nil => rfl
    | cons tag fields =>
      have notRename : tag ≠ utf8.unit '2' := fun same => other (congrArg some same)
      rw [List.singleton_append, parseTokens.eq_def, parseTokens.eq_def [tag :: fields]]
      simp only [if_neg notRename, parseTokens]
      split
      · cases splitRecord (tag :: fields) ordinaryFields with
        | none => rfl
        | some read => exact (Parsed.emit_append _ .empty _).symm
      · split
        · cases splitRecord (tag :: fields) unmergedFields with
          | none => rfl
          | some read => exact (Parsed.emit_append _ .empty _).symm
        · split
          · cases (tag :: fields).drop 2 with
            | nil => rfl
            | cons byte path => exact (Parsed.emit_append _ .empty _).symm
          · split <;> rfl
  | pair fields orig =>
    rw [List.cons_append, List.singleton_append, parseTokens.eq_def, parseTokens.eq_def [_, orig]]
    have notOrdinary : utf8.unit '2' ≠ utf8.unit '1' := by decide
    simp only [if_neg notOrdinary, ↓reduceIte, parseTokens]
    cases splitRecord (utf8.unit '2' :: fields) renameFields with
    | none => rfl
    | some read =>
      cases orig with
      | nil => rfl
      | cons byte others => rw [Parsed.emit_append, Parsed.empty_append]

theorem Record.framed (record : Record) : Framed record.chunks := by
  have heads : ∀ (tag : Char) x y fields path, (recordBytes tag x y fields path).head? = some (utf8.unit tag) := by
    intros
    rfl
  cases record with
  | ordinary x y fields path =>
    apply Framed.single
    rw [heads]
    decide
  | renamed x y fields path orig => exact Framed.pair _ _
  | unmerged conflict fields path =>
    apply Framed.single
    rw [heads]
    decide
  | untracked path => exact Framed.single _ (by rw [List.head?_cons]; decide)
  | ignored path => exact Framed.single _ (by rw [List.head?_cons]; decide)
  | header text => exact Framed.single _ (by rw [List.head?_cons]; decide)

theorem nul_not_mem_recordBytes {tag : Char} (plain : utf8.unit '\x00' ≠ utf8.unit tag) (x y : Glyph)
    (fields : List Field) (path : RecordPath) : utf8.unit '\x00' ∉ recordBytes tag x y fields path := by
  intro member
  rcases List.mem_append.mp member with inFields | inPath
  · obtain ⟨part, known, within⟩ := List.mem_flatMap.mp inFields
    rcases List.mem_append.mp within with inPart | isSpace
    · simp only [List.mem_cons, List.mem_map] at known
      rcases known with rfl | rfl | ⟨field, -, rfl⟩
      · exact plain (List.mem_singleton.mp inPart)
      · simp [x.byte_ne_nul, y.byte_ne_nul] at inPart
      · exact field.unbroken inPart
    · exact absurd (List.mem_singleton.mp isSpace) (by decide)
  · exact path.nul_not_mem inPath

theorem Record.unbroken (record : Record) : ∀ chunk ∈ record.chunks, utf8.unit '\x00' ∉ chunk := by
  have behind : ∀ {tag : UInt8} {bytes : List UInt8}, utf8.unit '\x00' ≠ tag → utf8.unit '\x00' ∉ bytes →
      utf8.unit '\x00' ∉ tag :: utf8.unit ' ' :: bytes := by
    intro tag bytes plain absent member
    rcases List.mem_cons.mp member with isTag | member
    · exact plain isTag
    · rcases List.mem_cons.mp member with isSpace | member
      · exact absurd isSpace (by decide)
      · exact absent member
  intro chunk member
  cases record with
  | ordinary x y fields path =>
    cases List.mem_singleton.mp member
    exact nul_not_mem_recordBytes (by decide) _ _ _ _
  | renamed x y fields path orig =>
    rcases List.mem_cons.mp member with rfl | member
    · exact nul_not_mem_recordBytes (by decide) _ _ _ _
    · cases List.mem_singleton.mp member
      exact orig.nul_not_mem
  | unmerged conflict fields path =>
    cases List.mem_singleton.mp member
    exact nul_not_mem_recordBytes (by decide) _ _ _ _
  | untracked path =>
    cases List.mem_singleton.mp member
    exact behind (by decide) path.nul_not_mem
  | ignored path =>
    cases List.mem_singleton.mp member
    exact behind (by decide) path.nul_not_mem
  | header text =>
    cases List.mem_singleton.mp member
    exact behind (by decide) text.unbroken

/-- A well-formed record is a record. -/
def Record.raw (record : Record) : RawRecord := ⟨record.chunks, record.framed, record.unbroken⟩

/-- A well-formed record gives its row and no warning. -/
theorem parseTokens_chunks (record : Record) : parseTokens record.chunks = Parsed.empty.emit record.row := by
  cases record with
  | ordinary x y fields path =>
    have read := splitRecord_recordBytes '1' (by decide) x y fields.toList path
    rw [List.Vector.toList_length] at read
    have entry := xyEntry_bytes x y path none
    obtain ⟨tail, shape⟩ : ∃ tail, recordBytes '1' x y fields.toList path = utf8.unit '1' :: tail := ⟨_, rfl⟩
    rw [shape] at read
    change parseTokens [recordBytes '1' x y fields.toList path] = _
    rw [shape, parseTokens, if_pos rfl, ordinaryFields, read]
    exact congrArg (Parsed.empty.emit ·) entry
  | renamed x y fields path orig =>
    have read := splitRecord_recordBytes '2' (by decide) x y fields.toList path
    rw [List.Vector.toList_length] at read
    have entry := xyEntry_bytes x y path (some orig)
    have lossy := orig.lossy
    obtain ⟨byte, rest, bytes⟩ := List.exists_cons_of_ne_nil orig.bytes_ne_nil
    rw [bytes] at lossy
    obtain ⟨tail, shape⟩ : ∃ tail, recordBytes '2' x y fields.toList path = utf8.unit '2' :: tail := ⟨_, rfl⟩
    rw [shape] at read
    change parseTokens [recordBytes '2' x y fields.toList path, orig.bytes] = _
    rw [shape, bytes, parseTokens.eq_def]
    have notOrdinary : utf8.unit '2' ≠ utf8.unit '1' := by decide
    simp only [if_neg notOrdinary, ↓reduceIte]
    rw [renameFields, read]
    dsimp only
    rw [lossy]
    exact congrArg (Parsed.empty.emit ·) entry
  | unmerged conflict fields path =>
    have read := splitRecord_recordBytes 'u' (by decide) conflict.columns.1 conflict.columns.2 fields.toList path
    rw [List.Vector.toList_length] at read
    obtain ⟨tail, shape⟩ : ∃ tail, recordBytes 'u' conflict.columns.1 conflict.columns.2 fields.toList path =
        utf8.unit 'u' :: tail := ⟨_, rfl⟩
    rw [shape] at read
    change parseTokens [recordBytes 'u' conflict.columns.1 conflict.columns.2 fields.toList path] = _
    rw [shape, parseTokens, if_neg (by decide), if_neg (by decide), if_pos rfl, unmergedFields, read]
    simp only [Glyph.fromPorcelain_byte]
    rfl
  | untracked path =>
    have lossy := path.lossy
    obtain ⟨byte, rest, bytes⟩ := List.exists_cons_of_ne_nil path.bytes_ne_nil
    rw [bytes] at lossy
    change parseTokens [utf8.unit '?' :: utf8.unit ' ' :: path.bytes] = _
    rw [bytes, parseTokens, if_neg (by decide), if_neg (by decide), if_neg (by decide), if_pos rfl]
    change (parseTokens []).emit (some (.ofUntracked (fromUtf8Lossy (byte :: rest)))) = _
    rw [lossy]
    rfl
  | ignored path => rfl
  | header text => rfl

end Parsing

section Streams

theorem parse_stream_append (records : List RawRecord) (after : List UInt8) :
    parse (stream records ++ after) =
      (records.map fun record => parseTokens record.chunks).foldr Parsed.append (parse after) := by
  have cut : (stream records ++ after).splitOn (utf8.unit '\x00') =
      records.flatMap (·.chunks) ++ after.splitOn (utf8.unit '\x00') := by
    have unbroken : ∀ chunk ∈ records.flatMap (·.chunks), utf8.unit '\x00' ∉ chunk := by
      intro chunk member
      obtain ⟨record, -, inside⟩ := List.mem_flatMap.mp member
      exact record.unbroken chunk inside
    rw [stream, splitOn_terminated_append, pieces_of_unbroken unbroken]
  rw [parse, cut]
  clear cut
  induction records with
  | nil => rfl
  | cons record rest ih =>
    rw [List.flatMap_cons, List.append_assoc, parseTokens_framed record.framed, ih]
    rfl

theorem parse_stream (records : List RawRecord) :
    parse (stream records) = (records.map fun record => parseTokens record.chunks).foldr Parsed.append .empty := by
  have whole := parse_stream_append records []
  rwa [List.append_nil] at whole

theorem foldr_append (parsed : List Parsed) (last : Parsed) :
    parsed.foldr Parsed.append last = (parsed.foldr Parsed.append .empty).append last := by
  induction parsed with
  | nil => rfl
  | cons first rest ih => rw [List.foldr_cons, ih, List.foldr_cons, Parsed.append_assoc]

theorem parse_append (records : List RawRecord) (after : List UInt8) :
    parse (stream records ++ after) = (parse (stream records)).append (parse after) := by
  rw [parse_stream_append, parse_stream, foldr_append]

end Streams

end Mille.Git.Porcelain
