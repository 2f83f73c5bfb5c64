import Mille.Lib.TextLines

/-! The file of a history token: lines of text, and the root's bytes behind them to
the end of the file. -/

namespace Mille.Watch

/-- The root is kept by its bytes. -/
structure HistoryToken where
  root : List UInt8
  volumeUuid : String
  eventId : UInt64
  rootIno : UInt64
  savedAtMs : Int64
  deriving DecidableEq

/-- The errors of `decode`; an unsupported token is quoted in the text. -/
inductive TokenError where
  | unsupported (found : String)
  | invalidInput (text : String)
  deriving DecidableEq

def bad (what : String) : TokenError :=
  .invalidInput ("history token: " ++ what)

def tokenMagic : List Char := "mille-history-token 1".toList

def magicPrefix : List Char := "mille-history-token ".toList

/-- `ROOT`, the delimiter behind which the root's bytes run to the end. -/
def rootTag : List UInt8 := utf8.text "\nroot=".toList

/-- What comes between the magic line and the root. -/
def HistoryToken.header (token : HistoryToken) : List Char :=
  "\nvolume_uuid=".toList ++ token.volumeUuid.toList ++ "\nevent_id=".toList ++ showU64 token.eventId ++
    "\nroot_ino=".toList ++ showU64 token.rootIno ++ "\nsaved_at_ms=".toList ++ showI64 token.savedAtMs

def HistoryToken.encode (token : HistoryToken) : List UInt8 :=
  utf8.text (tokenMagic ++ token.header) ++ rootTag ++ token.root

/-- What the loop over the header's lines has read so far. -/
structure TokenFields where
  uuid : Option String
  id : Option UInt64
  ino : Option UInt64
  saved : Option Int64

def TokenFields.empty : TokenFields := ⟨none, none, none, none⟩

def TokenFields.set (fields : TokenFields) (key value : List Char) : TokenFields :=
  if key = "volume_uuid".toList then { fields with uuid := some (String.ofList value) }
  else if key = "event_id".toList then { fields with id := parseU64 value }
  else if key = "root_ino".toList then { fields with ino := parseU64 value }
  else if key = "saved_at_ms".toList then { fields with saved := parseI64 value }
  else fields

def TokenFields.read (fields : TokenFields) (line : List Char) : Except TokenError TokenFields :=
  match splitOnce '=' line with
  | none => .error (bad (String.ofList line))
  | some (key, value) => .ok (fields.set key value)

def TokenFields.token (fields : TokenFields) (root : List UInt8) : Except TokenError HistoryToken := do
  let volumeUuid ← fields.uuid.getDM (.error (bad "volume_uuid"))
  let eventId ← fields.id.getDM (.error (bad "event_id"))
  let rootIno ← fields.ino.getDM (.error (bad "root_ino"))
  let savedAtMs ← fields.saved.getDM (.error (bad "saved_at_ms"))
  return ⟨root, volumeUuid, eventId, rootIno, savedAtMs⟩

/-- `&bytes[start..stop]`, nothing where it panics. -/
def slice? (bytes : List UInt8) (start stop : Nat) : Option (List UInt8) :=
  if start ≤ stop ∧ stop ≤ bytes.length then some ((bytes.take stop).drop start) else none

/-- The header's lines between two positions, and the root behind the delimiter. -/
def readToken (header root : List UInt8) : Except TokenError HistoryToken := do
  let text ← (fromUtf8 header).getDM (.error (bad "not UTF-8"))
  let fields ← ((lines text).filter (· ≠ [])).foldlM TokenFields.read TokenFields.empty
  fields.token root

def magicEnd (bytes : List UInt8) : Nat :=
  bytes.idxOf (utf8.unit '\n')

/-- `decode`; nothing where it panics. -/
def decode (bytes : List UInt8) : Option (Except TokenError HistoryToken) := do
  let magic ← slice? bytes 0 (magicEnd bytes)
  if magic ≠ utf8.text tokenMagic then
    if (utf8.text magicPrefix).isPrefixOf magic then
      return .error (.unsupported (fromUtf8Lossy magic))
    else
      return .error (bad "not a history token")
  match findWindow rootTag bytes with
  | none => return .error (bad "no root")
  | some position =>
    let header ← slice? bytes (magicEnd bytes) position
    let root ← slice? bytes (position + rootTag.length) bytes.length
    return readToken header root

/-- The first line starts with the magic prefix but is not the current magic. -/
def OtherVersion (bytes : List UInt8) : Prop :=
  utf8.text magicPrefix <+: bytes.takeWhile (· ≠ utf8.unit '\n') ∧
    bytes.takeWhile (· ≠ utf8.unit '\n') ≠ utf8.text tokenMagic

theorem take_magicEnd (bytes : List UInt8) :
    bytes.take (magicEnd bytes) = bytes.takeWhile (· ≠ utf8.unit '\n') := by
  unfold magicEnd
  induction bytes with
  | nil => rfl
  | cons byte rest ih =>
    by_cases ends : byte = utf8.unit '\n'
    · simp [ends]
    · rw [List.idxOf_cons_ne rest ends, List.take_succ_cons, ih, List.takeWhile_cons_of_pos (by simpa using ends)]

theorem slice?_magic (bytes : List UInt8) :
    slice? bytes 0 (magicEnd bytes) = some (bytes.takeWhile (· ≠ utf8.unit '\n')) := by
  rw [slice?, if_pos ⟨Nat.zero_le _, List.idxOf_le_length⟩, List.drop_zero, take_magicEnd]

theorem rootTag_eq : rootTag = utf8.unit '\n' :: utf8.text "root=".toList :=
  utf8.text_cons_ascii (by decide) _

/-- The delimiter starts with a line feed, so it is no earlier than the first one, and
every slice of the bytes is inside them. -/
theorem slices_inside {bytes : List UInt8} {position : Nat}
    (found : findWindow rootTag bytes = some position) :
    magicEnd bytes ≤ position ∧ position + rootTag.length ≤ bytes.length := by
  obtain ⟨before, after, split, rfl⟩ := findWindow_some found
  constructor
  · have tagged : rootTag ++ after = utf8.unit '\n' :: (utf8.text "root=".toList ++ after) := by
      rw [rootTag_eq, List.cons_append]
    rw [magicEnd, split, tagged, List.idxOf_append]
    split_ifs with early
    · exact List.idxOf_le_length
    · simp
  · rw [split, List.length_append, List.length_append]
    omega

theorem decode_eq (bytes : List UInt8) :
    decode bytes =
      if bytes.takeWhile (· ≠ utf8.unit '\n') ≠ utf8.text tokenMagic then
        if (utf8.text magicPrefix).isPrefixOf (bytes.takeWhile (· ≠ utf8.unit '\n')) then
          some (.error (.unsupported (fromUtf8Lossy (bytes.takeWhile (· ≠ utf8.unit '\n')))))
        else some (.error (bad "not a history token"))
      else
        match findWindow rootTag bytes with
        | none => some (.error (bad "no root"))
        | some position =>
          some (readToken ((bytes.take position).drop (magicEnd bytes))
            (bytes.drop (position + rootTag.length))) := by
  unfold decode
  rw [slice?_magic]
  simp only [Option.bind_eq_bind, Option.bind_some]
  split_ifs
  · rfl
  · rfl
  · cases found : findWindow rootTag bytes with
    | none => rfl
    | some position =>
      obtain ⟨first, second⟩ := slices_inside found
      simp only
      rw [slice?, if_pos ⟨first, by omega⟩, slice?, if_pos ⟨second, Nat.le_refl _⟩, List.take_length]
      rfl

theorem read_invalid {fields : TokenFields} {line : List Char} {error : TokenError}
    (fails : fields.read line = .error error) : ∃ text, error = .invalidInput text := by
  unfold TokenFields.read at fails
  split at fails
  · cases fails
    exact ⟨_, rfl⟩
  · cases fails

theorem readAll_invalid {texts : List (List Char)} {fields : TokenFields} {error : TokenError}
    (fails : texts.foldlM TokenFields.read fields = .error error) :
    ∃ text, error = .invalidInput text := by
  induction texts generalizing fields with
  | nil => cases fails
  | cons line rest ih =>
    rw [List.foldlM_cons] at fails
    cases read : fields.read line with
    | error stop =>
      rw [read] at fails
      cases fails
      exact read_invalid read
    | ok after =>
      rw [read] at fails
      exact ih fails

theorem token_invalid {fields : TokenFields} {root : List UInt8} {error : TokenError}
    (fails : fields.token root = .error error) : ∃ text, error = .invalidInput text := by
  obtain ⟨uuid, id, ino, saved⟩ := fields
  unfold TokenFields.token at fails
  cases uuid with
  | none => cases fails; exact ⟨_, rfl⟩
  | some uuid =>
    cases id with
    | none => cases fails; exact ⟨_, rfl⟩
    | some id =>
      cases ino with
      | none => cases fails; exact ⟨_, rfl⟩
      | some ino =>
        cases saved with
        | none => cases fails; exact ⟨_, rfl⟩
        | some saved => cases fails

theorem readToken_invalid {header root : List UInt8} {error : TokenError}
    (fails : readToken header root = .error error) : ∃ text, error = .invalidInput text := by
  unfold readToken at fails
  cases text : fromUtf8 header with
  | none =>
    rw [text] at fails
    cases fails
    exact ⟨_, rfl⟩
  | some chars =>
    rw [text] at fails
    change (((lines chars).filter (· ≠ [])).foldlM TokenFields.read TokenFields.empty >>= fun fields =>
      fields.token root) = .error error at fails
    cases read : ((lines chars).filter (· ≠ [])).foldlM TokenFields.read TokenFields.empty with
    | error stop =>
      rw [read] at fails
      cases fails
      exact readAll_invalid read
    | ok fields =>
      rw [read] at fails
      exact token_invalid fails

theorem decode_error_iff (bytes : List UInt8) :
    (OtherVersion bytes → ∃ found, decode bytes = some (.error (.unsupported found))) ∧
      (¬OtherVersion bytes → ∀ error, decode bytes = some (.error error) →
        ∃ text, error = .invalidInput text) := by
  rw [decode_eq]
  constructor
  · rintro ⟨leads, differs⟩
    rw [if_pos differs, if_pos (List.isPrefixOf_iff_prefix.mpr leads)]
    exact ⟨_, rfl⟩
  · intro other error fails
    split_ifs at fails with differs leads
    · exact absurd ⟨List.isPrefixOf_iff_prefix.mp leads, differs⟩ other
    · cases fails
      exact ⟨_, rfl⟩
    · split at fails
      · cases fails
        exact ⟨_, rfl⟩
      · exact readToken_invalid (Option.some.inj fails)

theorem decode_ne_none (bytes : List UInt8) : decode bytes ≠ none := by
  rw [decode_eq]
  split_ifs
  · exact Option.some_ne_none _
  · exact Option.some_ne_none _
  · split <;> exact Option.some_ne_none _

/-! ### Reading back what was written -/

/-- The header's lines, each a key and its value. -/
def HistoryToken.headerLines (token : HistoryToken) : List (List Char) :=
  ["volume_uuid".toList ++ '=' :: token.volumeUuid.toList, "event_id".toList ++ '=' :: showU64 token.eventId,
    "root_ino".toList ++ '=' :: showU64 token.rootIno, "saved_at_ms".toList ++ '=' :: showI64 token.savedAtMs]

theorem header_eq (token : HistoryToken) :
    token.header = token.headerLines.flatMap fun line => '\n' :: line := by
  have uuid : "\nvolume_uuid=".toList = '\n' :: ("volume_uuid".toList ++ ['=']) := by decide
  have id : "\nevent_id=".toList = '\n' :: ("event_id".toList ++ ['=']) := by decide
  have ino : "\nroot_ino=".toList = '\n' :: ("root_ino".toList ++ ['=']) := by decide
  have saved : "\nsaved_at_ms=".toList = '\n' :: ("saved_at_ms".toList ++ ['=']) := by decide
  unfold HistoryToken.header HistoryToken.headerLines
  rw [uuid, id, ino, saved]
  generalize "volume_uuid".toList = first
  generalize "event_id".toList = second
  generalize "root_ino".toList = third
  generalize "saved_at_ms".toList = fourth
  simp only [List.flatMap_cons, List.flatMap_nil, List.cons_append, List.append_assoc, List.nil_append,
    List.append_nil]

theorem text_append (first second : List Char) :
    utf8.text (first ++ second) = utf8.text first ++ utf8.text second :=
  List.flatMap_append

theorem text_header (lines : List (List Char)) :
    utf8.text (lines.flatMap fun line => '\n' :: line) =
      lines.flatMap fun line => utf8.unit '\n' :: utf8.text line := by
  induction lines with
  | nil => rfl
  | cons line rest ih =>
    rw [List.flatMap_cons, List.flatMap_cons, ← ih, text_append, utf8.text_cons_ascii (by decide)]

/-- The bytes of a line never start with the delimiter behind its line feed. -/
def Plain (line : List Char) : Prop :=
  '\n' ∉ line ∧ ∀ rest, ¬utf8.text "root=".toList <+: utf8.text line ++ rest

theorem findWindow_lines {lines : List (List Char)} (plain : ∀ line ∈ lines, Plain line)
    (root : List UInt8) :
    findWindow rootTag ((lines.flatMap fun line => utf8.unit '\n' :: utf8.text line) ++ (rootTag ++ root)) =
      some (lines.flatMap fun line => utf8.unit '\n' :: utf8.text line).length := by
  induction lines with
  | nil =>
    obtain ⟨position, least, found⟩ := @findWindow_le UInt8 _ rootTag [] root (by rw [rootTag_eq]; simp)
    rw [Nat.le_zero.mp least] at found
    exact found
  | cons line rest ih =>
    have absent : utf8.unit '\n' ∉ utf8.text line := by
      rw [unit_mem_text (by decide)]
      exact (plain line List.mem_cons_self).1
    have later := ih fun other member => plain other (List.mem_cons_of_mem _ member)
    rw [List.flatMap_cons, List.cons_append, List.cons_append, List.append_assoc]
    rw [rootTag_eq] at later ⊢
    rw [findWindow_segment absent ((plain line List.mem_cons_self).2 _), later, Option.map_some,
      List.length_cons, List.length_append]
    congr 1
    omega

theorem plain_line {key value : List Char} (long : 5 ≤ (utf8.text key).length)
    (differs : ¬utf8.text "root=".toList <+: utf8.text key) (unbroken : '\n' ∉ key ++ '=' :: value) :
    Plain (key ++ '=' :: value) := by
  refine ⟨unbroken, ?_⟩
  intro rest leads
  apply differs
  rw [text_append, List.append_assoc] at leads
  apply List.prefix_of_prefix_length_le leads (List.prefix_append _ _)
  exact long

theorem unbroken_digits {value : Nat} : '\n' ∉ Nat.toDigits 10 value := by
  intro member
  exact absurd (Nat.isDigit_of_mem_toDigits (by decide) (by decide) member) (by decide)

theorem unbroken_showI64 {value : Int64} : '\n' ∉ showI64 value := by
  unfold showI64
  split_ifs
  · rw [List.mem_cons, not_or]
    exact ⟨by decide, unbroken_digits⟩
  · exact unbroken_digits

theorem plain_headerLines {token : HistoryToken} (unbroken : '\n' ∉ token.volumeUuid.toList) :
    ∀ line ∈ token.headerLines, Plain line := by
  have broken : ∀ {key value : List Char}, '\n' ∉ key → '\n' ∉ value → '\n' ∉ key ++ '=' :: value := by
    intro key value first second
    simp [first, second]
  intro line member
  simp only [HistoryToken.headerLines, List.mem_cons, List.not_mem_nil, or_false] at member
  rcases member with rfl | rfl | rfl | rfl
  · exact plain_line (by decide) (by decide) (broken (by decide) unbroken)
  · exact plain_line (by decide) (by decide) (broken (by decide) unbroken_digits)
  · exact plain_line (by decide) (by decide) (broken (by decide) unbroken_digits)
  · exact plain_line (by decide) (by decide) (broken (by decide) unbroken_showI64)

theorem intercalate_header (lines : List (List Char)) :
    ['\n'].intercalate ([] :: lines) = lines.flatMap fun line => '\n' :: line := by
  have joined : ∀ line : List Char, ['\n'].intercalate (line :: lines) =
      line ++ lines.flatMap fun line => '\n' :: line := by
    induction lines with
    | nil => simp
    | cons next rest ih =>
      intro line
      rw [List.intercalate_cons_cons, ih next, List.flatMap_cons]
      simp
  exact joined []

theorem lines_headerLines {ended : List (List Char)} {last : List Char}
    (whole : ∀ line ∈ ended, '\n' ∉ line ∧ line.getLast? ≠ some '\r' ∧ line ≠ [])
    (unbroken : '\n' ∉ last) (more : last ≠ []) :
    (lines ((ended ++ [last]).flatMap fun line => '\n' :: line)).filter (· ≠ []) = ended ++ [last] := by
  rw [← intercalate_header, ← List.cons_append, lines_intercalate _ unbroken more]
  · rw [List.cons_append, List.filter_cons_of_neg (by simp), List.filter_eq_self]
    intro line member
    simp only [ne_eq, decide_not, Bool.not_eq_true', decide_eq_false_iff_not]
    rcases List.mem_append.mp member with inner | isLast
    · exact (whole line inner).2.2
    · exact (List.mem_singleton.mp isLast) ▸ more
  · intro line member
    rcases List.mem_cons.mp member with empty | inner
    · rw [empty]
      exact ⟨List.not_mem_nil, by simp⟩
    · exact ⟨(whole line inner).1, (whole line inner).2.1⟩

theorem ends_keyed {key value : List Char} (returned : value.getLast? ≠ some '\r') :
    (key ++ '=' :: value).getLast? ≠ some '\r' := by
  rw [List.getLast?_append]
  cases value with
  | nil => simp
  | cons first rest =>
    rw [List.getLast?_cons_cons, List.getLast?_eq_some_getLast (List.cons_ne_nil first rest)] at *
    exact returned

theorem returned_digits {value : Nat} : (Nat.toDigits 10 value).getLast? ≠ some '\r' := by
  intro last
  have member := List.mem_of_getLast? last
  exact absurd (Nat.isDigit_of_mem_toDigits (by decide) (by decide) member) (by decide)

theorem lines_header {token : HistoryToken} (unbroken : '\n' ∉ token.volumeUuid.toList)
    (returned : token.volumeUuid.toList.getLast? ≠ some '\r') :
    (lines token.header).filter (· ≠ []) = token.headerLines := by
  have plain := plain_headerLines unbroken
  have split : token.headerLines = ["volume_uuid".toList ++ '=' :: token.volumeUuid.toList,
      "event_id".toList ++ '=' :: showU64 token.eventId,
      "root_ino".toList ++ '=' :: showU64 token.rootIno] ++
        ["saved_at_ms".toList ++ '=' :: showI64 token.savedAtMs] := rfl
  rw [header_eq, split]
  rw [split] at plain
  apply lines_headerLines
  · intro line member
    refine ⟨(plain line (List.mem_append_left _ member)).1, ?_⟩
    simp only [List.mem_cons, List.not_mem_nil, or_false] at member
    rcases member with rfl | rfl | rfl
    · exact ⟨ends_keyed returned, List.append_ne_nil_of_right_ne_nil _ (List.cons_ne_nil _ _)⟩
    · exact ⟨ends_keyed returned_digits, List.append_ne_nil_of_right_ne_nil _ (List.cons_ne_nil _ _)⟩
    · exact ⟨ends_keyed returned_digits, List.append_ne_nil_of_right_ne_nil _ (List.cons_ne_nil _ _)⟩
  · exact (plain _ (List.mem_append_right _ (List.mem_singleton_self _))).1
  · exact List.append_ne_nil_of_right_ne_nil _ (List.cons_ne_nil _ _)

theorem readAll_line {fields : TokenFields} {key value : List Char} {rest : List (List Char)}
    (plain : '=' ∉ key) :
    ((key ++ '=' :: value) :: rest).foldlM TokenFields.read fields =
      rest.foldlM TokenFields.read (fields.set key value) := by
  rw [List.foldlM_cons, TokenFields.read, splitOnce_append plain]
  rfl

theorem readAll_headerLines (token : HistoryToken) :
    token.headerLines.foldlM TokenFields.read TokenFields.empty =
      .ok ⟨some token.volumeUuid, some token.eventId, some token.rootIno, some token.savedAtMs⟩ := by
  rw [HistoryToken.headerLines, readAll_line (by decide), readAll_line (by decide),
    readAll_line (by decide), readAll_line (by decide)]
  rw [TokenFields.set, if_pos rfl]
  rw [TokenFields.set, if_neg (by decide), if_pos rfl]
  rw [TokenFields.set, if_neg (by decide), if_neg (by decide), if_pos rfl]
  rw [TokenFields.set, if_neg (by decide), if_neg (by decide), if_neg (by decide), if_pos rfl]
  rw [parseU64_showU64, parseU64_showU64, parseI64_showI64, String.ofList_toList]
  rfl

/-- Bytes made of the magic line, a header and the tagged root are cut where they were joined. -/
theorem decode_parts {header root : List UInt8}
    (starts : ∃ rest, header ++ (rootTag ++ root) = utf8.unit '\n' :: rest)
    (found : findWindow rootTag (header ++ (rootTag ++ root)) = some header.length) :
    decode (utf8.text tokenMagic ++ (header ++ (rootTag ++ root))) = some (readToken header root) := by
  have unmarked : utf8.unit '\n' ∉ utf8.text tokenMagic := by
    rw [unit_mem_text (by decide)]
    decide
  rw [decode_eq]
  generalize utf8.text tokenMagic = magic at *
  obtain ⟨rest, started⟩ := starts
  have line : (magic ++ (header ++ (rootTag ++ root))).takeWhile (· ≠ utf8.unit '\n') = magic := by
    have all : ∀ byte ∈ magic, decide (byte ≠ utf8.unit '\n') = true := by
      intro byte member
      simp only [decide_eq_true_eq]
      exact fun same => unmarked (same ▸ member)
    rw [started, List.takeWhile_append_of_pos all]
    simp
  have ends : magicEnd (magic ++ (header ++ (rootTag ++ root))) = magic.length := by
    rw [magicEnd, started, List.idxOf_append, if_neg unmarked, List.idxOf_cons_self, Nat.zero_add]
  have position : findWindow rootTag (magic ++ (header ++ (rootTag ++ root))) =
      some (header.length + magic.length) := by
    rw [rootTag_eq] at found ⊢
    rw [findWindow_skip unmarked, found, Option.map_some]
  rw [line, position, ends, if_neg (not_not_intro rfl)]
  generalize rootTag = tag
  have cut : ((magic ++ (header ++ (tag ++ root))).take (header.length + magic.length)).drop magic.length =
      header := by
    rw [Nat.add_comm, List.take_length_add_append, List.drop_left, List.take_left]
  have behind : (magic ++ (header ++ (tag ++ root))).drop (header.length + magic.length + tag.length) =
      root := by
    have front : header.length + magic.length + tag.length = (magic ++ (header ++ tag)).length := by
      simp only [List.length_append]
      omega
    have whole : magic ++ (header ++ (tag ++ root)) = (magic ++ (header ++ tag)) ++ root := by
      simp only [List.append_assoc]
    rw [front, whole, List.drop_left]
  simp only [cut, behind]

theorem readToken_text (header : List Char) (root : List UInt8) :
    readToken (utf8.text header) root =
      (((lines header).filter (· ≠ [])).foldlM TokenFields.read TokenFields.empty >>= fun fields =>
        fields.token root) := by
  rw [readToken, fromUtf8_text]
  rfl

theorem decode_encode {token : HistoryToken} (unbroken : '\n' ∉ token.volumeUuid.toList)
    (returned : token.volumeUuid.toList.getLast? ≠ some '\r') :
    decode token.encode = some (.ok token) := by
  have header : utf8.text token.header =
      token.headerLines.flatMap fun line => utf8.unit '\n' :: utf8.text line := by
    rw [header_eq, text_header]
  have starts : ∃ rest, utf8.text token.header ++ (rootTag ++ token.root) = utf8.unit '\n' :: rest := by
    rw [header, HistoryToken.headerLines, List.flatMap_cons]
    exact ⟨_, rfl⟩
  have found := findWindow_lines (plain_headerLines unbroken) token.root
  rw [← header] at found
  rw [HistoryToken.encode, text_append, List.append_assoc, List.append_assoc, decode_parts starts found,
    readToken_text, lines_header unbroken returned, readAll_headerLines]
  rfl

/-- A token survives its file whatever the root is called, and no bytes make `decode`
panic: another version of the format is unsupported, anything else it refuses is invalid. -/
theorem token_codec :
    (∀ token : HistoryToken, '\n' ∉ token.volumeUuid.toList →
        token.volumeUuid.toList.getLast? ≠ some '\r' → decode token.encode = some (.ok token)) ∧
      ∀ bytes : List UInt8, decode bytes ≠ none ∧
        ((∃ found, decode bytes = some (.error (.unsupported found))) ↔ OtherVersion bytes) ∧
        (¬OtherVersion bytes → ∀ error, decode bytes = some (.error error) →
          ∃ text, error = .invalidInput text) := by
  refine ⟨fun token unbroken returned => decode_encode unbroken returned, ?_⟩
  intro bytes
  obtain ⟨refused, invalid⟩ := decode_error_iff bytes
  refine ⟨decode_ne_none bytes, ⟨?_, refused⟩, invalid⟩
  rintro ⟨found, fails⟩
  by_contra other
  obtain ⟨text, same⟩ := invalid other _ fails
  cases same

end Mille.Watch
