import Mille.Lib.Encoding
import Mille.Lib.Separators

/-! Text as the Rust standard library reads it: lines, a split at a separator,
decimal integers, strict UTF-8, and the search for a pattern of bytes. -/

namespace Mille

section Search

variable {α : Type} [DecidableEq α]

/-- `windows(..).position(..)` of a pattern that is not empty. -/
def findWindow (pattern : List α) : List α → Option Nat
  | [] => none
  | head :: rest =>
    if pattern.isPrefixOf (head :: rest) then some 0 else (findWindow pattern rest).map (· + 1)

theorem findWindow_some {pattern list : List α} {position : Nat}
    (found : findWindow pattern list = some position) :
    ∃ before after, list = before ++ (pattern ++ after) ∧ before.length = position := by
  induction list generalizing position with
  | nil => cases found
  | cons head rest ih =>
    rw [findWindow] at found
    split_ifs at found with here
    · obtain ⟨after, same⟩ := List.isPrefixOf_iff_prefix.mp here
      exact ⟨[], after, same.symm, Option.some.inj found⟩
    · obtain ⟨later, there, rfl⟩ := Option.map_eq_some_iff.mp found
      obtain ⟨before, after, split, rfl⟩ := ih there
      exact ⟨head :: before, after, by rw [split, List.cons_append], rfl⟩

theorem findWindow_le {pattern before after : List α} (more : pattern ≠ []) :
    ∃ position ≤ before.length, findWindow pattern (before ++ (pattern ++ after)) = some position := by
  induction before with
  | nil =>
    cases pattern with
    | nil => exact absurd rfl more
    | cons first others =>
      refine ⟨0, Nat.le_refl 0, ?_⟩
      have here : (first :: others).isPrefixOf (first :: (others ++ after)) = true :=
        List.isPrefixOf_iff_prefix.mpr ⟨after, rfl⟩
      exact if_pos here
  | cons head rest ih =>
    obtain ⟨position, early, found⟩ := ih
    rw [List.cons_append, findWindow]
    split_ifs
    · exact ⟨0, Nat.zero_le _, rfl⟩
    · exact ⟨position + 1, Nat.succ_le_succ early, by rw [found]; rfl⟩

theorem findWindow_skip {first : α} {others front rest : List α} (absent : first ∉ front) :
    findWindow (first :: others) (front ++ rest) =
      (findWindow (first :: others) rest).map (· + front.length) := by
  induction front with
  | nil => simp
  | cons head front ih =>
    rw [List.mem_cons, not_or] at absent
    obtain ⟨apart, absent⟩ := absent
    have here : ¬(first :: others).isPrefixOf (head :: (front ++ rest)) = true := by
      intro leads
      rw [List.isPrefixOf_iff_prefix, List.cons_prefix_cons] at leads
      exact apart leads.1
    rw [List.cons_append, findWindow, if_neg here, ih absent, Option.map_map]
    apply congrArg (Option.map · _)
    funext position
    simp only [Function.comp_apply, List.length_cons]
    omega

theorem findWindow_segment {first : α} {others front rest : List α} (absent : first ∉ front)
    (differs : ¬others <+: front ++ rest) :
    findWindow (first :: others) (first :: (front ++ rest)) =
      (findWindow (first :: others) rest).map (· + (front.length + 1)) := by
  have here : ¬(first :: others).isPrefixOf (first :: (front ++ rest)) = true := by
    intro leads
    rw [List.isPrefixOf_iff_prefix, List.cons_prefix_cons] at leads
    exact differs leads.2
  rw [findWindow, if_neg here, findWindow_skip absent, Option.map_map]
  rfl

/-- `split_once`: what stands before and after the first separator. -/
def splitOnce (separator : α) (list : List α) : Option (List α × List α) :=
  if separator ∈ list then
    some (list.takeWhile (· ≠ separator), (list.dropWhile (· ≠ separator)).tail)
  else none

theorem splitOnce_append {separator : α} {front : List α} (absent : separator ∉ front) (back : List α) :
    splitOnce separator (front ++ separator :: back) = some (front, back) := by
  have all : ∀ element ∈ front, decide (element ≠ separator) = true := by
    intro element member
    simp only [decide_eq_true_eq]
    exact fun same => absent (same ▸ member)
  rw [splitOnce, if_pos (by simp), List.takeWhile_append_of_pos all, List.dropWhile_append_of_pos all]
  simp

/-- `splitn`: at most so many parts, the last with whatever separators are left. -/
def splitN (separator : α) : Nat → List α → List (List α)
  | 0, _ => []
  | 1, list => [list]
  | count + 2, list =>
    match splitOnce separator list with
    | none => [list]
    | some (front, back) => front :: splitN separator (count + 1) back

theorem splitN_append {separator : α} {front : List α} (absent : separator ∉ front) (count : Nat)
    (back : List α) : splitN separator (count + 2) (front ++ separator :: back) =
      front :: splitN separator (count + 1) back := by
  rw [splitN, splitOnce_append absent]

theorem exists_cut {element : α} {list : List α} (member : element ∈ list) :
    ∃ front back, list = front ++ element :: back ∧ element ∉ front := by
  induction list with
  | nil => cases member
  | cons head rest ih =>
    by_cases here : element = head
    · exact ⟨[], rest, by rw [here]; rfl, List.not_mem_nil⟩
    · obtain ⟨front, back, rfl, absent⟩ := ih ((List.mem_cons.mp member).resolve_left here)
      refine ⟨head :: front, back, rfl, ?_⟩
      rw [List.mem_cons, not_or]
      exact ⟨here, absent⟩

end Search

/-- A terminated line loses a carriage return before its end. -/
def stripCarriage (line : List Char) : List Char :=
  if line.getLast? = some '\r' then line.dropLast else line

/-- `str::lines`: the line feeds end lines, and text behind the last one is a line
as it stands. -/
def lines (text : List Char) : List (List Char) :=
  let pieces := text.splitOn '\n'
  pieces.dropLast.map stripCarriage ++ (pieces.getLast?.filter (· ≠ [])).toList

theorem lines_intercalate {ended : List (List Char)} {last : List Char}
    (whole : ∀ line ∈ ended, '\n' ∉ line ∧ line.getLast? ≠ some '\r') (unbroken : '\n' ∉ last)
    (more : last ≠ []) : lines (['\n'].intercalate (ended ++ [last])) = ended ++ [last] := by
  have pieces : (['\n'].intercalate (ended ++ [last])).splitOn '\n' = ended ++ [last] := by
    apply List.splitOn_intercalate
    · intro line member
      rcases List.mem_append.mp member with inner | isLast
      · exact (whole line inner).1
      · exact (List.mem_singleton.mp isLast) ▸ unbroken
    · simp
  have kept : ended.map stripCarriage = ended := by
    conv_rhs => rw [← List.map_id ended]
    apply List.map_congr_left
    intro line member
    exact if_neg (whole line member).2
  rw [lines, pieces]
  simp [kept, more]

theorem lines_terminated {ended : List (List Char)} (unbroken : ∀ line ∈ ended, '\n' ∉ line) :
    lines (terminated '\n' ended) = ended.map stripCarriage := by
  rw [lines, splitOn_terminated, pieces_of_unbroken unbroken]
  simp

theorem stripCarriage_append (front : List Char) {last : Char} (other : last ≠ '\r') (line : List Char) :
    stripCarriage (front ++ last :: line) = front ++ last :: stripCarriage line := by
  rcases List.eq_nil_or_concat line with rfl | ⟨before, final, rfl⟩
  · simp [stripCarriage, other]
  · rw [List.concat_eq_append]
    have shape : front ++ last :: (before ++ [final]) = (front ++ last :: before) ++ [final] := by simp
    unfold stripCarriage
    rw [shape]
    simp only [List.getLast?_concat, List.dropLast_concat]
    split_ifs
    · rfl
    · simp

/-- `char::is_whitespace`. -/
def isWhitespace (char : Char) : Bool :=
  (9 ≤ char.toNat && char.toNat ≤ 13) || (0x2000 ≤ char.toNat && char.toNat ≤ 0x200A) ||
    [0x20, 0x85, 0xA0, 0x1680, 0x2028, 0x2029, 0x202F, 0x205F, 0x3000].contains char.toNat

/-- `split_whitespace`. -/
def splitWhitespace (text : List Char) : List (List Char) :=
  (text.splitOnP isWhitespace).filter (· ≠ [])

/-- The digits of a number, read; nothing of an empty text or another character. -/
def digitsValue (digits : List Char) : Option Nat :=
  if digits = [] then none
  else if digits.all Char.isDigit then some (Nat.ofDigitChars 10 digits 0) else none

/-- The digits of a number behind an optional plus sign. -/
def unsignedValue : List Char → Option Nat
  | '+' :: digits => digitsValue digits
  | digits => digitsValue digits

/-- The number behind an optional sign. -/
def signedValue : List Char → Option Int
  | '+' :: digits => (digitsValue digits).map Int.ofNat
  | '-' :: digits => (digitsValue digits).map fun value => -Int.ofNat value
  | digits => (digitsValue digits).map Int.ofNat

/-- `u64::from_str`. -/
def parseU64 (text : List Char) : Option UInt64 :=
  (unsignedValue text).bind fun value => if value < 2 ^ 64 then some (UInt64.ofNat value) else none

/-- `i64::from_str`. -/
def parseI64 (text : List Char) : Option Int64 :=
  (signedValue text).bind fun value =>
    if -2 ^ 63 ≤ value ∧ value < 2 ^ 63 then some (Int64.ofInt value) else none

/-- `Display` of an unsigned number. -/
def showU64 (value : UInt64) : List Char :=
  Nat.toDigits 10 value.toNat

/-- `Display` of a signed number. -/
def showI64 (value : Int64) : List Char :=
  if value.toInt < 0 then '-' :: Nat.toDigits 10 value.toInt.natAbs
  else Nat.toDigits 10 value.toInt.natAbs

theorem digitsValue_toDigits (value : Nat) : digitsValue (Nat.toDigits 10 value) = some value := by
  have digits : (Nat.toDigits 10 value).all Char.isDigit = true := by
    rw [List.all_eq_true]
    intro char member
    exact Nat.isDigit_of_mem_toDigits (by decide) (by decide) member
  rw [digitsValue, if_neg Nat.toDigits_ne_nil, if_pos digits, Nat.ofDigitChars_ten_toDigits]

theorem toDigits_ne_sign (value : Nat) (rest : List Char) :
    Nat.toDigits 10 value ≠ '+' :: rest ∧ Nat.toDigits 10 value ≠ '-' :: rest := by
  have digit : ∀ char ∈ Nat.toDigits 10 value, char.isDigit = true :=
    fun char member => Nat.isDigit_of_mem_toDigits (by decide) (by decide) member
  constructor
  · intro same
    exact absurd (digit '+' (same ▸ List.mem_cons_self)) (by decide)
  · intro same
    exact absurd (digit '-' (same ▸ List.mem_cons_self)) (by decide)

theorem unsignedValue_toDigits (value : Nat) :
    unsignedValue (Nat.toDigits 10 value) = some value := by
  unfold unsignedValue
  split
  · exact absurd ‹_› (toDigits_ne_sign _ _).1
  · exact digitsValue_toDigits value

theorem signedValue_toDigits (value : Nat) :
    signedValue (Nat.toDigits 10 value) = some (Int.ofNat value) := by
  unfold signedValue
  split
  · exact absurd ‹_› (toDigits_ne_sign _ _).1
  · exact absurd ‹_› (toDigits_ne_sign _ _).2
  · rw [digitsValue_toDigits, Option.map_some]

theorem parseU64_showU64 (value : UInt64) : parseU64 (showU64 value) = some value := by
  rw [parseU64, showU64, unsignedValue_toDigits, Option.bind_some, if_pos value.toNat_lt,
    UInt64.ofNat_toNat]

theorem parseI64_showI64 (value : Int64) : parseI64 (showI64 value) = some value := by
  have read : signedValue (showI64 value) = some value.toInt := by
    unfold showI64
    split_ifs with negative
    · have size : -Int.ofNat value.toInt.natAbs = value.toInt := by
        rw [Int.ofNat_eq_natCast]
        omega
      rw [signedValue, digitsValue_toDigits, Option.map_some, size]
    · have size : Int.ofNat value.toInt.natAbs = value.toInt := by
        rw [Int.ofNat_eq_natCast]
        omega
      rw [signedValue_toDigits, size]
  rw [parseI64, read, Option.bind_some, if_pos ⟨value.le_toInt, value.toInt_lt⟩, Int64.ofInt_toInt]

/-- `str::from_utf8`. -/
def fromUtf8 (bytes : List UInt8) : Option (List Char) :=
  (String.fromUTF8? bytes.toByteArray).map String.toList

theorem fromUtf8_text (chars : List Char) : fromUtf8 (utf8.text chars) = some chars := by
  have valid : (utf8.text chars).toByteArray.IsValidUTF8 := .intro chars rfl
  have same : String.fromUTF8 (utf8.text chars).toByteArray valid = String.ofList chars := rfl
  rw [fromUtf8, String.fromUTF8?, dif_pos valid, same, Option.map_some, String.toList_ofList]

theorem unit_mem_text {ascii : Char} (bound : ascii.toNat < 128) (chars : List Char) :
    utf8.unit ascii ∈ utf8.text chars ↔ ascii ∈ chars := by
  rw [TextEncoding.text, List.mem_flatMap]
  constructor
  · rintro ⟨char, member, inside⟩
    by_cases plain : char.toNat < 128
    · rw [utf8.encode_ascii char plain, List.mem_singleton] at inside
      exact (utf8.unit_injective ascii char bound plain inside) ▸ member
    · exact absurd rfl (utf8.encode_other char plain _ inside ascii bound)
  · intro member
    exact ⟨ascii, member, by rw [utf8.encode_ascii ascii bound]; exact List.mem_singleton_self _⟩

end Mille
