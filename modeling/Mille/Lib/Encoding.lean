import Mathlib

/-! Text encodings whose ASCII characters are single code units that occur in no
other character. Splitting at an ASCII character then commutes with encoding. -/

namespace Mille

/-- An encoding of characters as code units. -/
structure TextEncoding (α : Type) where
  encode : Char → List α
  /-- The code unit of an ASCII character. -/
  unit : Char → α
  encode_ascii : ∀ char, char.toNat < 128 → encode char = [unit char]
  encode_other : ∀ char, ¬ char.toNat < 128 → ∀ codeUnit ∈ encode char,
    ∀ ascii, ascii.toNat < 128 → codeUnit ≠ unit ascii
  encode_ne_nil : ∀ char, encode char ≠ []
  unit_injective : ∀ first second, first.toNat < 128 → second.toNat < 128 →
    unit first = unit second → first = second

/-- What follows the `count`-th occurrence of a separator. -/
def afterFields {α : Type} [DecidableEq α] (separator : α) : Nat → List α → Option (List α)
  | 0, rest => some rest
  | _ + 1, [] => none
  | count + 1, head :: rest =>
    if head = separator then afterFields separator count rest
    else afterFields separator (count + 1) rest

@[simp] theorem afterFields_zero {α : Type} [DecidableEq α] (separator : α) (text : List α) :
    afterFields separator 0 text = some text := by
  cases text <;> rfl

theorem afterFields_length {α : Type} [DecidableEq α] {separator : α} {count : Nat}
    {text rest : List α} (found : afterFields separator count text = some rest) :
    count + rest.length ≤ text.length := by
  induction text generalizing count with
  | nil =>
    cases count with
    | zero =>
      simp only [afterFields, Option.some.injEq] at found
      simp [← found]
    | succ => simp [afterFields] at found
  | cons head tail ih =>
    cases count with
    | zero =>
      simp only [afterFields, Option.some.injEq] at found
      simp [← found]
    | succ count =>
      simp only [afterFields] at found
      split at found
      · have := ih found
        simp only [List.length_cons]
        omega
      · have := ih found
        simp only [List.length_cons]
        omega

namespace TextEncoding

variable {α : Type} [DecidableEq α] (encoding : TextEncoding α)

/-- The code units of a text. -/
def text (chars : List Char) : List α :=
  chars.flatMap encoding.encode

omit [DecidableEq α] in
@[simp] theorem text_nil : encoding.text [] = [] :=
  rfl

omit [DecidableEq α] in
theorem text_cons (char : Char) (chars : List Char) :
    encoding.text (char :: chars) = encoding.encode char ++ encoding.text chars :=
  List.flatMap_cons

omit [DecidableEq α] in
theorem text_cons_ascii {char : Char} (ascii : char.toNat < 128) (chars : List Char) :
    encoding.text (char :: chars) = encoding.unit char :: encoding.text chars := by
  rw [text_cons, encoding.encode_ascii char ascii]
  rfl

omit [DecidableEq α] in
@[simp] theorem text_eq_nil {chars : List Char} : encoding.text chars = [] ↔ chars = [] := by
  cases chars with
  | nil => simp
  | cons char chars => simp [text_cons, encoding.encode_ne_nil char]

omit [DecidableEq α] in
theorem text_cons_head (char : Char) (chars : List Char) :
    ∃ head rest, encoding.text (char :: chars) = head :: rest ∧
      ∀ ascii, ascii.toNat < 128 → (head = encoding.unit ascii ↔ char = ascii) := by
  by_cases plain : char.toNat < 128
  · refine ⟨_, _, encoding.text_cons_ascii plain chars, fun ascii bound => ?_⟩
    exact ⟨encoding.unit_injective char ascii plain bound, fun same => by rw [same]⟩
  · cases units : encoding.encode char with
    | nil => exact (encoding.encode_ne_nil char units).elim
    | cons head rest =>
      refine ⟨head, rest ++ encoding.text chars, by rw [text_cons, units]; rfl, ?_⟩
      intro ascii bound
      refine iff_of_false ?_ ?_
      · exact encoding.encode_other char plain head (by simp [units]) ascii bound
      · rintro rfl
        exact plain bound

omit [DecidableEq α] in
theorem length_le_text (chars : List Char) : chars.length ≤ (encoding.text chars).length := by
  induction chars with
  | nil => simp
  | cons char chars ih =>
    have positive := List.length_pos_iff.mpr (encoding.encode_ne_nil char)
    rw [text_cons, List.length_append, List.length_cons]
    omega

theorem afterFields_text {separator : Char} (ascii : separator.toNat < 128) (count : Nat)
    (chars : List Char) :
    afterFields (encoding.unit separator) count (encoding.text chars) =
      (afterFields separator count chars).map encoding.text := by
  have skips : ∀ (units rest : List α) (count : Nat), encoding.unit separator ∉ units →
      afterFields (encoding.unit separator) (count + 1) (units ++ rest) =
        afterFields (encoding.unit separator) (count + 1) rest := by
    intro units rest count absent
    induction units with
    | nil => rfl
    | cons head tail ih =>
      simp only [List.mem_cons, not_or] at absent
      rw [List.cons_append, afterFields, if_neg (Ne.symm absent.1), ih absent.2]
  induction chars generalizing count with
  | nil => cases count <;> rfl
  | cons char chars ih =>
    cases count with
    | zero => simp
    | succ count =>
      by_cases same : char = separator
      · subst same
        rw [encoding.text_cons_ascii ascii, afterFields, if_pos rfl, ih, afterFields, if_pos rfl]
      · rw [text_cons, skips, ih, afterFields, if_neg same]
        by_cases plain : char.toNat < 128
        · rw [encoding.encode_ascii char plain, List.mem_singleton]
          exact fun units => same (encoding.unit_injective _ _ ascii plain units).symm
        · exact fun member => encoding.encode_other char plain _ member separator ascii rfl

/-- Splitting at an ASCII character commutes with encoding. -/
theorem text_splitOn {separator : Char} (ascii : separator.toNat < 128) (chars : List Char) :
    (encoding.text chars).splitOn (encoding.unit separator) =
      (chars.splitOn separator).map encoding.text := by
  have joins : ∀ (units : List α) (rest : List α), encoding.unit separator ∉ units →
      (units ++ rest).splitOn (encoding.unit separator) =
        (rest.splitOn (encoding.unit separator)).modifyHead (units ++ ·) := by
    intro units rest absent
    induction units with
    | nil => exact (congrFun List.modifyHead_id _).symm
    | cons head tail ih =>
      simp only [List.mem_cons, not_or] at absent
      have other : (head == encoding.unit separator) = false := by
        simpa using Ne.symm absent.1
      rw [List.cons_append, List.splitOn, List.splitOnP_cons_eq_if_modifyHead, other]
      rw [← List.splitOn, ih absent.2]
      simp [Function.comp_def]
  induction chars with
  | nil => simp
  | cons char chars ih =>
    by_cases same : char = separator
    · subst same
      rw [encoding.text_cons_ascii ascii, List.splitOn, List.splitOnP_cons_eq_if_modifyHead,
        ← List.splitOn, ih, List.splitOn, List.splitOn, List.splitOnP_cons_eq_if_modifyHead]
      simp
    · have absent : encoding.unit separator ∉ encoding.encode char := by
        by_cases plain : char.toNat < 128
        · rw [encoding.encode_ascii char plain, List.mem_singleton]
          exact fun units => same (encoding.unit_injective _ _ ascii plain units).symm
        · exact fun member => encoding.encode_other char plain _ member separator ascii rfl
      rw [text_cons, joins _ _ absent, ih, List.splitOn, List.splitOn,
        List.splitOnP_cons_eq_if_modifyHead]
      have other : (char == separator) = false := by simpa using same
      rw [other]
      cases pieces : List.splitOnP (fun found => found == separator) chars with
      | nil => exact (List.splitOnP_ne_nil _ _ pieces).elim
      | cons first rest => simp [text_cons]

end TextEncoding

private theorem toNat_lt_size (char : Char) : char.toNat < 1114112 := by
  rcases char.valid with small | large
  · exact small.trans (by decide)
  · exact large.2

private theorem toNat_ne_of_large {large small : Nat} (high : 128 ≤ large) (low : small < 128)
    (bound : large < 256) : UInt8.ofNat large ≠ UInt8.ofNat small := by
  intro same
  have values := congrArg UInt8.toNat same
  simp only [UInt8.toNat_ofNat'] at values
  omega

/-- UTF-8, as the core library encodes characters. -/
def utf8 : TextEncoding UInt8 where
  encode := String.utf8EncodeChar
  unit char := UInt8.ofNat char.toNat
  encode_ascii := by
    intro char ascii
    unfold String.utf8EncodeChar
    rw [if_pos (show char.val.toNat ≤ 0x7f from Nat.le_of_lt_succ ascii)]
    rfl
  encode_other := by
    intro char other codeUnit member ascii bound
    unfold String.utf8EncodeChar at member
    rw [if_neg (show ¬ char.val.toNat ≤ 0x7f from fun small => other (Nat.lt_succ_of_le small))]
      at member
    have size : char.val.toNat < 1114112 := toNat_lt_size char
    split at member
    · simp only [List.mem_cons, List.not_mem_nil, or_false] at member
      rcases member with rfl | rfl
      all_goals exact toNat_ne_of_large (by omega) bound (by omega)
    · split at member
      · simp only [List.mem_cons, List.not_mem_nil, or_false] at member
        rcases member with rfl | rfl | rfl
        all_goals exact toNat_ne_of_large (by omega) bound (by omega)
      · simp only [List.mem_cons, List.not_mem_nil, or_false] at member
        rcases member with rfl | rfl | rfl | rfl
        all_goals exact toNat_ne_of_large (by omega) bound (by omega)
  encode_ne_nil := by
    intro char
    unfold String.utf8EncodeChar
    dsimp only
    split
    · simp
    · split
      · simp
      · split <;> simp
  unit_injective := by
    intro first second firstBound secondBound same
    have values := congrArg UInt8.toNat same
    simp only [UInt8.toNat_ofNat'] at values
    exact Char.toNat_inj.mp (by omega)

/-- The UTF-16 code units of a character: itself, or a surrogate pair. -/
def utf16EncodeChar (char : Char) : List UInt16 :=
  if char.toNat < 0x10000 then [UInt16.ofNat char.toNat]
  else
    [UInt16.ofNat (0xD800 + (char.toNat - 0x10000) / 0x400),
     UInt16.ofNat (0xDC00 + (char.toNat - 0x10000) % 0x400)]

private theorem unit16_ne {large small : Nat} (high : 128 ≤ large) (low : small < 128)
    (bound : large < 65536) : UInt16.ofNat large ≠ UInt16.ofNat small := by
  intro same
  have values := congrArg UInt16.toNat same
  simp only [UInt16.toNat_ofNat'] at values
  omega

def utf16 : TextEncoding UInt16 where
  encode := utf16EncodeChar
  unit char := UInt16.ofNat char.toNat
  encode_ascii := by
    intro char ascii
    rw [utf16EncodeChar, if_pos (by omega)]
  encode_other := by
    intro char other codeUnit member ascii bound
    have size := toNat_lt_size char
    unfold utf16EncodeChar at member
    split at member
    · simp only [List.mem_singleton] at member
      subst member
      exact unit16_ne (by omega) bound (by omega)
    · simp only [List.mem_cons, List.not_mem_nil, or_false] at member
      rcases member with rfl | rfl
      all_goals exact unit16_ne (by omega) bound (by omega)
  encode_ne_nil := by
    intro char
    unfold utf16EncodeChar
    split <;> simp
  unit_injective := by
    intro first second firstBound secondBound same
    have values := congrArg UInt16.toNat same
    simp only [UInt16.toNat_ofNat'] at values
    exact Char.toNat_inj.mp (by omega)

/-- Whether a byte may follow this first byte of a three- or four-byte sequence. -/
def acceptsSecond (first second : UInt8) : Bool :=
  if first = 0xE0 then 0xA0 ≤ second && second ≤ 0xBF
  else if first = 0xED then 0x80 ≤ second && second ≤ 0x9F
  else if first = 0xF0 then 0x90 ≤ second && second ≤ 0xBF
  else if first = 0xF4 then 0x80 ≤ second && second ≤ 0x8F
  else 0xE1 ≤ first && first ≤ 0xF3 && 0x80 ≤ second && second ≤ 0xBF

/-- How many bytes one replacement character stands for: the longest start of a
sequence that no character continues. -/
def invalidLength : List UInt8 → Nat
  | first :: second :: rest =>
    if ¬ acceptsSecond first second then 1
    else if first < 0xF0 then 2
    else match rest with
      | third :: _ => if 0x80 ≤ third ∧ third ≤ 0xBF then 3 else 2
      | [] => 2
  | _ => 1

def lossyChars : Nat → List UInt8 → List Char
  | 0, _ => []
  | _ + 1, [] => []
  | fuel + 1, byte :: rest =>
    match (byte :: rest).toByteArray.utf8DecodeChar? 0 with
    | some char => char :: lossyChars fuel ((byte :: rest).drop char.utf8Size)
    | none => '\uFFFD' :: lossyChars fuel ((byte :: rest).drop (invalidLength (byte :: rest)))

/-- `String::from_utf8_lossy`. -/
def fromUtf8Lossy (bytes : List UInt8) : String :=
  String.ofList (lossyChars bytes.length bytes)

private theorem lossyChars_text (chars : List Char) (fuel : Nat)
    (enough : (utf8.text chars).length ≤ fuel) : lossyChars fuel (utf8.text chars) = chars := by
  induction chars generalizing fuel with
  | nil => cases fuel <;> rfl
  | cons char chars ih =>
    have size : (utf8.encode char).length = char.utf8Size := String.length_utf8EncodeChar char
    have positive := Char.utf8Size_pos char
    rw [TextEncoding.text_cons] at enough ⊢
    rw [List.length_append, size] at enough
    cases fuel with
    | zero => omega
    | succ fuel =>
      have decoded : (utf8.encode char ++ utf8.text chars).toByteArray.utf8DecodeChar? 0 =
          some char := by
        rw [List.toByteArray_append]
        exact ByteArray.utf8DecodeChar?_utf8EncodeChar_append
      have dropped : (utf8.encode char ++ utf8.text chars).drop char.utf8Size = utf8.text chars := by
        rw [← size, List.drop_left]
      cases units : utf8.encode char ++ utf8.text chars with
      | nil =>
        rw [List.append_eq_nil_iff] at units
        exact (utf8.encode_ne_nil char units.1).elim
      | cons head tail =>
        rw [units] at decoded dropped
        rw [lossyChars, decoded]
        dsimp only
        rw [dropped, ih fuel (by omega)]

@[simp] theorem fromUtf8Lossy_text (chars : List Char) :
    fromUtf8Lossy (utf8.text chars) = String.ofList chars := by
  rw [fromUtf8Lossy, lossyChars_text chars _ le_rfl]

end Mille
