import Mille.Core.SortLaws
import Mille.Lib.Encoding

/-! The natural order of names on the client, over UTF-16 code units, and where it agrees
with the order of the store over UTF-8 bytes. -/

namespace Mille.NaturalSort

/-- What `charCodeAt` gives along a well-formed string. -/
def charCodes (name : String) : List Nat := (utf16.text name.toList).map (·.toNat)

def isDigit (unit : Nat) : Bool := 48 ≤ unit && unit ≤ 57

def fold (unit : Nat) : Nat := if 65 ≤ unit && unit ≤ 90 then unit + 32 else unit

/-- The loop of `compareNaturalNames`; 0 when one name is used up. -/
def scan : Nat → List Nat → List Nat → Int
  | fuel + 1, a :: as, b :: bs =>
    if isDigit a && isDigit b then
      let aRun := (a :: as).takeWhile isDigit
      let bRun := (b :: bs).takeWhile isDigit
      let aDigits := aRun.dropWhile (· = 48)
      let bDigits := bRun.dropWhile (· = 48)
      let magnitude : Int := aDigits.length - bDigits.length
      if magnitude ≠ 0 then magnitude
      else if aDigits ≠ bDigits then (if aDigits < bDigits then -1 else 1)
      else
        let runLength : Int := aRun.length - bRun.length
        if runLength ≠ 0 then runLength
        else scan fuel ((a :: as).dropWhile isDigit) ((b :: bs).dropWhile isDigit)
    else if fold a ≠ fold b then (fold a : Int) - fold b
    else if a ≠ b then (a : Int) - b
    else scan fuel as bs
  | _, _, _ => 0

def compareNaturalNames (left right : String) : Int :=
  let a := charCodes left
  let b := charCodes right
  -- every round uses up a unit of each name
  let found := scan a.length a b
  if found ≠ 0 then found else (a.length : Int) - b.length

/-- What the sign of a comparison says. -/
def sign (value : Int) : Ordering := compare value 0

/-- Both scans, over numbers: `eq` when one name is used up. -/
def unitScan : Nat → List Nat → List Nat → Ordering
  | fuel + 1, a :: as, b :: bs =>
    if isDigit a && isDigit b then
      let aRun := (a :: as).takeWhile isDigit
      let bRun := (b :: bs).takeWhile isDigit
      let aDigits := aRun.dropWhile (· = 48)
      let bDigits := bRun.dropWhile (· = 48)
      (compare aDigits.length bDigits.length).then <| (compare aDigits bDigits).then <|
        (compare aRun.length bRun.length).then <|
          unitScan fuel ((a :: as).dropWhile isDigit) ((b :: bs).dropWhile isDigit)
    else (compare (fold a) (fold b)).then <| (compare a b).then <| unitScan fuel as bs
  | _, _, _ => .eq

/-- The scan with the final comparison of lengths. -/
def unitOrder (fuel : Nat) (a b : List Nat) : Ordering :=
  (unitScan fuel a b).then (compare a.length b.length)

section Signs

theorem sign_sub (left right : Nat) : sign ((left : Int) - right) = compare left right := by
  unfold sign
  rcases lt_trichotomy left right with less | rfl | more
  · rw [compare_lt_iff_lt.mpr less, compare_lt_iff_lt.mpr (by omega)]
  · simp
  · rw [compare_gt_iff_gt.mpr more, compare_gt_iff_gt.mpr (by omega)]

theorem sign_ite (value other : Int) :
    sign (if value ≠ 0 then value else other) = (sign value).then (sign other) := by
  by_cases zero : value = 0
  · simp [zero, sign]
  · rw [if_pos zero]
    unfold sign
    rcases lt_or_gt_of_ne zero with less | more
    · rw [compare_lt_iff_lt.mpr less]
      rfl
    · rw [compare_gt_iff_gt.mpr more]
      rfl

theorem sign_sub_ite (left right : Nat) (other : Int) :
    sign (if left ≠ right then (left : Int) - right else other) =
      (compare left right).then (sign other) := by
  rw [← sign_sub, ← sign_ite]
  congr 1
  by_cases same : left = right
  · simp [same]
  · rw [if_pos same, if_pos (by omega)]

theorem compare_list_lt (left right : List Nat) : compare left right = .lt ↔ left < right := by
  induction left generalizing right with
  | nil => cases right <;> simp
  | cons first rest ih =>
    cases right with
    | nil => simp
    | cons other others =>
      rw [List.compare_eq_compareLex, List.compareLex_cons_cons, List.cons_lt_cons_iff,
        ← List.compare_eq_compareLex]
      rcases lt_trichotomy first other with less | rfl | more
      · rw [compare_lt_iff_lt.mpr less]
        simp [less]
      · simp [ih]
      · rw [compare_gt_iff_gt.mpr more]
        simp [more.ne', not_lt.mpr more.le]

theorem compare_list (left right : List Nat) :
    compare left right = if left < right then .lt else if left = right then .eq else .gt := by
  split
  · next less => exact (compare_list_lt left right).mpr less
  · next notLess =>
    split
    · next same =>
      rw [same]
      exact Std.ReflCmp.compare_self
    · next differ =>
      have notLt : compare left right ≠ .lt := fun less => notLess ((compare_list_lt left right).mp less)
      have notEq : compare left right ≠ .eq := fun same => differ (Std.LawfulEqCmp.eq_of_compare same)
      cases order : compare left right with
      | lt => exact absurd order notLt
      | eq => exact absurd order notEq
      | gt => rfl

theorem sign_digits (left right : List Nat) (other : Int) :
    sign (if left ≠ right then (if left < right then -1 else 1) else other) =
      (compare left right).then (sign other) := by
  rw [compare_list]
  by_cases same : left = right
  · subst same
    simp
  · rw [if_pos same]
    by_cases less : left < right
    · rw [if_pos less, if_pos less]
      rfl
    · rw [if_neg less, if_neg less, if_neg same]
      rfl

theorem sign_scan (fuel : Nat) (a b : List Nat) : sign (scan fuel a b) = unitScan fuel a b := by
  induction fuel generalizing a b with
  | zero => simp [scan, unitScan, sign]
  | succ fuel ih =>
    cases a with
    | nil => simp [scan, unitScan, sign]
    | cons x xs =>
      cases b with
      | nil => simp [scan, unitScan, sign]
      | cons y ys =>
        rw [scan, unitScan]
        split
        · rw [sign_ite, sign_sub, sign_digits, sign_ite, sign_sub, ih]
        · rw [sign_sub_ite, sign_sub_ite, ih]

theorem sign_compareNaturalNames (left right : String) :
    sign (compareNaturalNames left right) = unitOrder (charCodes left).length (charCodes left) (charCodes right) := by
  unfold compareNaturalNames
  rw [sign_ite, sign_scan, sign_sub]
  rfl

end Signs

section Bytes

open SiblingOrder

theorem isDigit_byte (byte : UInt8) : isAsciiDigit byte = isDigit byte.toNat := by
  rw [Bool.eq_iff_iff, isAsciiDigit_iff]
  simp [isDigit]

theorem fold_byte (byte : UInt8) : (toAsciiLowercase byte).toNat = fold byte.toNat := by
  rw [toAsciiLowercase_toNat]
  simp [fold]

theorem compare_bytes (left right : List UInt8) :
    compare left right = compare (left.map (·.toNat)) (right.map (·.toNat)) := by
  induction left generalizing right with
  | nil => cases right <;> simp
  | cons first rest ih =>
    cases right with
    | nil => simp
    | cons other others =>
      rw [List.map_cons, List.map_cons, List.compare_cons_cons, List.compare_cons_cons, ih, compare_byte]

theorem dropWhile_zero (run : List UInt8) :
    (run.dropWhile (· = 48)).map (·.toNat) = (run.map (·.toNat)).dropWhile (· = 48) := by
  rw [List.dropWhile_map]
  congr 2
  funext byte
  simp [← UInt8.toNat_inj]

/-- The scan of the store, over numbers. -/
theorem naturalScan_units (fuel : Nat) (a b : List UInt8) :
    naturalScan false fuel a b = unitScan fuel (a.map (·.toNat)) (b.map (·.toNat)) := by
  induction fuel generalizing a b with
  | zero => simp [naturalScan, unitScan]
  | succ fuel ih =>
    cases a with
    | nil => simp [naturalScan, unitScan]
    | cons x xs =>
      cases b with
      | nil => simp [naturalScan, unitScan]
      | cons y ys =>
        have runs : ∀ run : List UInt8, (run.takeWhile isAsciiDigit).map (·.toNat) =
            (run.map (·.toNat)).takeWhile isDigit := by
          intro run
          rw [List.takeWhile_map]
          congr 2
        have rests : ∀ run : List UInt8, (run.dropWhile isAsciiDigit).map (·.toNat) =
            (run.map (·.toNat)).dropWhile isDigit := by
          intro run
          rw [List.dropWhile_map]
          congr 2
        have lengths : ∀ run : List UInt8, run.length = (run.map (·.toNat)).length := by simp
        have run := runs (x :: xs)
        have run' := runs (y :: ys)
        have rest := rests (x :: xs)
        have rest' := rests (y :: ys)
        rw [List.map_cons] at run run' rest rest'
        rw [naturalScan, List.map_cons, List.map_cons, unitScan, isDigit_byte, isDigit_byte]
        split
        · dsimp only
          rw [lengths, lengths (List.dropWhile _ (List.takeWhile _ (y :: ys))), compare_bytes, dropWhile_zero,
            dropWhile_zero, lengths (List.takeWhile _ (x :: xs)), lengths (List.takeWhile _ (y :: ys)), ih]
          simp only [run, run', rest, rest']
        · rw [compare_byte, compare_byte, fold_byte, fold_byte, ih]
          simp

end Bytes

/-- How a character is spelt in units: ASCII as itself, anything else in larger units,
and two characters differ at the first unit where their spellings do. -/
structure Spelling where
  units : Char → List Nat
  ascii : ∀ char, char.toNat < 128 → units char = [char.toNat]
  wide : ∀ char, ¬char.toNat < 128 → ∀ unit ∈ units char, 128 ≤ unit
  ne_nil : ∀ char, units char ≠ []
  order : Char → Char → Ordering
  parts : ∀ left right, left ≠ right → ∃ common first second rest others,
    units left = common ++ first :: rest ∧ units right = common ++ second :: others ∧
      first ≠ second ∧ order left right = compare first second

namespace Spelling

variable (spelling : Spelling)

def text (chars : List Char) : List Nat := chars.flatMap spelling.units

/-- The place of two different characters that are not both digits. -/
def decision (left right : Char) : Ordering :=
  if left.toNat < 128 ∧ right.toNat < 128 then
    (compare (fold left.toNat) (fold right.toNat)).then (compare left.toNat right.toNat)
  else spelling.order left right

variable {spelling} {left right : Char} {fuel : Nat} {x y : List Nat}

theorem isDigit_unit {unit : Nat} (member : unit ∈ spelling.units left) :
    isDigit unit = isDigit left.toNat := by
  by_cases plain : left.toNat < 128
  · rw [spelling.ascii left plain, List.mem_singleton] at member
    rw [member]
  · have large := spelling.wide left plain unit member
    have off : isDigit unit = false := by simp [isDigit]; omega
    have off' : isDigit left.toNat = false := by simp [isDigit]; omega
    rw [off, off']

theorem compare_add (shift left right : Nat) :
    compare (left + shift) (right + shift) = compare left right := by
  rcases lt_trichotomy left right with less | rfl | more
  · rw [compare_lt_iff_lt.mpr less, compare_lt_iff_lt.mpr (by omega)]
  · simp
  · rw [compare_gt_iff_gt.mpr more, compare_gt_iff_gt.mpr (by omega)]

theorem unitOrder_skip (common : List Nat) (plain : ∀ unit ∈ common, isDigit unit = false)
    (enough : (common ++ x).length ≤ fuel) : ∃ smaller, x.length ≤ smaller ∧
      unitOrder fuel (common ++ x) (common ++ y) = unitOrder smaller x y := by
  induction common generalizing fuel with
  | nil => exact ⟨fuel, enough, rfl⟩
  | cons unit rest ih =>
    cases fuel with
    | zero => simp at enough
    | succ fuel =>
      obtain ⟨smaller, bound, same⟩ := ih (fun unit member => plain unit (List.mem_cons_of_mem _ member))
        (show (rest ++ x).length ≤ fuel by simpa using enough)
      refine ⟨smaller, bound, ?_⟩
      rw [← same]
      have off := plain unit (by simp)
      unfold unitOrder
      rw [List.cons_append, List.cons_append, unitScan]
      simp only [off, Bool.false_and, Bool.false_eq_true, if_false, Std.ReflCmp.compare_self,
        Ordering.eq_then, List.length_cons, compare_add]

theorem fold_small {unit : Nat} (small : unit < 128) : fold unit < 128 := by
  unfold fold
  split
  · simp_all
    omega
  · exact small

theorem fold_large {unit : Nat} (large : 128 ≤ unit) : fold unit = unit := by
  unfold fold
  rw [if_neg]
  simp only [Bool.and_eq_true, decide_eq_true_eq]
  omega

theorem then_decided {first second : Ordering} (decided : second ≠ .eq) (later last : Ordering) :
    (first.then (second.then later)).then last = first.then second := by
  cases first <;> cases second <;> simp_all

theorem fold_then {first second : Nat} (large : ¬(first < 128 ∧ second < 128)) :
    (compare (fold first) (fold second)).then (compare first second) = compare first second := by
  by_cases one : first < 128
  · have two : 128 ≤ second := by omega
    have folded := fold_small one
    rw [fold_large two, compare_lt_iff_lt.mpr (by omega : fold first < second)]
    exact (compare_lt_iff_lt.mpr (by omega)).symm
  · rw [fold_large (by omega : 128 ≤ first)]
    by_cases two : second < 128
    · have folded := fold_small two
      rw [compare_gt_iff_gt.mpr (by omega : first > fold second)]
      exact (compare_gt_iff_gt.mpr (by omega)).symm
    · rw [fold_large (by omega : 128 ≤ second)]
      cases compare first second <;> rfl

theorem shared_plain {common rest : List Nat} {first : Nat}
    (spelt : spelling.units left = common ++ first :: rest) :
    (∀ unit ∈ common, isDigit unit = false) ∧ (left.toNat < 128 → common = [] ∧ first = left.toNat) := by
  by_cases small : left.toNat < 128
  · rw [spelling.ascii left small] at spelt
    have none_shared : common = [] := by
      cases common with
      | nil => rfl
      | cons unit more => simp at spelt
    subst none_shared
    refine ⟨by simp, fun _ => ⟨rfl, ?_⟩⟩
    simpa using (List.cons.inj spelt).1.symm
  · refine ⟨?_, fun ascii => absurd ascii small⟩
    intro unit member
    have large := spelling.wide left small unit (by simp [spelt, member])
    simp [isDigit]
    omega

/-- Two characters that differ and are not both digits decide the order. -/
theorem unitOrder_decides (differ : left ≠ right)
    (plain : (isDigit left.toNat && isDigit right.toNat) = false)
    (enough : (spelling.units left ++ x).length ≤ fuel) :
    unitOrder fuel (spelling.units left ++ x) (spelling.units right ++ y) =
      spelling.decision left right := by
  obtain ⟨common, first, second, rest, others, spelt, spelt', ne, order⟩ := spelling.parts left right differ
  obtain ⟨shared, small⟩ := shared_plain spelt
  obtain ⟨_, small'⟩ := shared_plain spelt'
  have digits : (isDigit first && isDigit second) = false := by
    rw [isDigit_unit (show first ∈ spelling.units left by simp [spelt]),
      isDigit_unit (show second ∈ spelling.units right by simp [spelt'])]
    exact plain
  have apart : compare first second ≠ .eq := fun same => ne (compare_eq_iff_eq.mp same)
  rw [spelt, List.append_assoc] at enough
  rw [spelt, spelt', List.append_assoc, List.append_assoc]
  obtain ⟨smaller, bound, skip⟩ := unitOrder_skip (y := second :: others ++ y) common shared enough
  rw [skip]
  cases smaller with
  | zero => simp at bound
  | succ smaller =>
    unfold unitOrder
    rw [List.cons_append, List.cons_append, unitScan]
    simp only [digits, Bool.false_eq_true, if_false]
    rw [then_decided apart, decision]
    split
    · next both => rw [(small both.1).2, (small' both.2).2]
    · next wide =>
      rw [order]
      apply fold_then
      rintro ⟨low, low'⟩
      apply wide
      constructor
      · by_contra big
        have large := spelling.wide left big first (by simp [spelt])
        omega
      · by_contra big
        have large := spelling.wide right big second (by simp [spelt'])
        omega

end Spelling

/-- The comparison of two runs of digits. -/
def runOrder (aRun bRun : List Nat) : Ordering :=
  (compare (aRun.dropWhile (· = 48)).length (bRun.dropWhile (· = 48)).length).then <|
    (compare (aRun.dropWhile (· = 48)) (bRun.dropWhile (· = 48))).then <|
      compare aRun.length bRun.length

def digitChar (char : Char) : Bool := isDigit char.toNat

/-- The order of names over their characters, with the decision of a spelling where they
differ. -/
def charOrder (decision : Char → Char → Ordering) : Nat → List Char → List Char → Ordering
  | fuel + 1, left :: ls, right :: rs =>
    if digitChar left && digitChar right then
      (runOrder (((left :: ls).takeWhile digitChar).map (·.toNat))
        (((right :: rs).takeWhile digitChar).map (·.toNat))).then <|
        charOrder decision fuel ((left :: ls).dropWhile digitChar) ((right :: rs).dropWhile digitChar)
    else if left = right then charOrder decision fuel ls rs
    else decision left right
  | _, ls, rs => compare ls.length rs.length

namespace Spelling

variable {spelling : Spelling}

theorem text_cons (char : Char) (chars : List Char) :
    spelling.text (char :: chars) = spelling.units char ++ spelling.text chars :=
  List.flatMap_cons

theorem text_cons_digit {char : Char} (digit : digitChar char = true) (chars : List Char) :
    spelling.text (char :: chars) = char.toNat :: spelling.text chars := by
  have small : char.toNat < 128 := by
    simp only [digitChar, isDigit, Bool.and_eq_true, decide_eq_true_eq] at digit
    omega
  rw [text_cons, spelling.ascii char small]
  rfl

theorem text_digits (chars : List Char) :
    (spelling.text chars).takeWhile isDigit = (chars.takeWhile digitChar).map (·.toNat) ∧
      (spelling.text chars).dropWhile isDigit = spelling.text (chars.dropWhile digitChar) := by
  induction chars with
  | nil => exact ⟨rfl, rfl⟩
  | cons char chars ih =>
    cases digit : digitChar char with
    | true =>
      have unit : isDigit char.toNat = true := digit
      rw [text_cons_digit digit, List.takeWhile_cons_of_pos unit, List.dropWhile_cons_of_pos unit,
        List.takeWhile_cons_of_pos digit, List.dropWhile_cons_of_pos digit, ih.1, ih.2]
      exact ⟨rfl, rfl⟩
    | false =>
      have keep : ¬digitChar char = true := by simp [digit]
      rw [List.takeWhile_cons_of_neg keep, List.dropWhile_cons_of_neg keep, text_cons]
      cases spelt : spelling.units char with
      | nil => exact absurd spelt (spelling.ne_nil char)
      | cons unit rest =>
        have plain : ¬isDigit unit = true := by
          rw [isDigit_unit (show unit ∈ spelling.units char by simp [spelt])]
          exact keep
        rw [List.cons_append, List.takeWhile_cons_of_neg plain, List.dropWhile_cons_of_neg plain]
        exact ⟨rfl, rfl⟩

theorem text_length_pos {chars : List Char} (some_char : chars ≠ []) : 0 < (spelling.text chars).length := by
  cases chars with
  | nil => exact absurd rfl some_char
  | cons char chars =>
    rw [text_cons, List.length_append]
    have unit := List.length_pos_iff.mpr (spelling.ne_nil char)
    omega

theorem runOrder_then {aRun bRun a b : List Nat} {later : Ordering} :
    ((compare (aRun.dropWhile (· = 48)).length (bRun.dropWhile (· = 48)).length).then <|
      (compare (aRun.dropWhile (· = 48)) (bRun.dropWhile (· = 48))).then <|
        (compare aRun.length bRun.length).then later).then
      (compare (aRun ++ a).length (bRun ++ b).length) =
      (runOrder aRun bRun).then (later.then (compare a.length b.length)) := by
  unfold runOrder
  cases compare (aRun.dropWhile (· = 48)).length (bRun.dropWhile (· = 48)).length with
  | lt => rfl
  | gt => rfl
  | eq =>
    cases compare (aRun.dropWhile (· = 48)) (bRun.dropWhile (· = 48)) with
    | lt => rfl
    | gt => rfl
    | eq =>
      cases lengths : compare aRun.length bRun.length with
      | lt => rfl
      | gt => rfl
      | eq =>
        have same := compare_eq_iff_eq.mp lengths
        rw [List.length_append, List.length_append, same, Nat.add_comm, Nat.add_comm bRun.length, compare_add]
        rfl

theorem unitOrder_digits {fuel a b : Nat} {as bs : List Nat} (digit : isDigit a = true)
    (digit' : isDigit b = true) : unitOrder (fuel + 1) (a :: as) (b :: bs) =
      (runOrder ((a :: as).takeWhile isDigit) ((b :: bs).takeWhile isDigit)).then
        (unitOrder fuel ((a :: as).dropWhile isDigit) ((b :: bs).dropWhile isDigit)) := by
  have parts : ∀ units : List Nat, units.length =
      (units.takeWhile isDigit ++ units.dropWhile isDigit).length := by
    intro units
    rw [List.takeWhile_append_dropWhile]
  rw [unitOrder, unitScan, digit, digit', parts (a :: as), parts (b :: bs)]
  exact runOrder_then

theorem unitOrder_ended {fuel : Nat} {left right : List Char} (ended : left = [] ∨ right = []) :
    unitOrder fuel (spelling.text left) (spelling.text right) = compare left.length right.length := by
  have scanned : unitScan fuel (spelling.text left) (spelling.text right) = .eq := by
    rcases ended with rfl | rfl
    · cases fuel <;> simp [text, unitScan]
    · cases fuel with
      | zero => rfl
      | succ fuel => cases spelling.text left <;> simp [text, unitScan]
  rw [unitOrder, scanned, Ordering.eq_then]
  rcases ended with rfl | rfl
  · cases right with
    | nil => rfl
    | cons char chars =>
      have long := @text_length_pos spelling _ (List.cons_ne_nil char chars)
      rw [compare_lt_iff_lt.mpr (by simpa [text] using long)]
      exact (compare_lt_iff_lt.mpr (by simp)).symm
  · cases left with
    | nil => rfl
    | cons char chars =>
      have long := @text_length_pos spelling _ (List.cons_ne_nil char chars)
      rw [compare_gt_iff_gt.mpr (by simpa [text] using long)]
      exact (compare_gt_iff_gt.mpr (by simp)).symm

/-- The scan of spelt names is the order over their characters. -/
theorem unitOrder_chars (count : Nat) {fuel : Nat} {left right : List Char}
    (enough : (spelling.text left).length ≤ fuel) (bound : left.length ≤ count) :
    unitOrder fuel (spelling.text left) (spelling.text right) =
      charOrder spelling.decision count left right := by
  induction count generalizing fuel left right with
  | zero =>
    have empty : left = [] := List.length_eq_zero_iff.mp (Nat.le_zero.mp bound)
    rw [unitOrder_ended (.inl empty)]
    rfl
  | succ count ih =>
    cases left with
    | nil =>
      rw [unitOrder_ended (.inl rfl)]
      rfl
    | cons c ls =>
      cases right with
      | nil =>
        rw [unitOrder_ended (.inr rfl)]
        rfl
      | cons d rs =>
        rw [charOrder]
        split
        · next digits =>
          rw [Bool.and_eq_true] at digits
          have lines := @text_digits spelling (c :: ls)
          have lines' := @text_digits spelling (d :: rs)
          have shorter : ((c :: ls).dropWhile digitChar).length ≤ count := by
            rw [List.dropWhile_cons_of_pos digits.1]
            exact (List.length_dropWhile_le _ _).trans (by simpa using bound)
          rw [text_cons_digit digits.1, List.length_cons] at enough
          obtain ⟨smaller, rfl⟩ : ∃ smaller, fuel = smaller + 1 := ⟨fuel - 1, by omega⟩
          have rest : (spelling.text ((c :: ls).dropWhile digitChar)).length ≤ smaller := by
            rw [← lines.2, text_cons_digit digits.1, List.dropWhile_cons_of_pos (show isDigit c.toNat = true from digits.1)]
            exact (List.length_dropWhile_le _ _).trans (by omega)
          rw [← ih rest shorter, ← lines.1, ← lines.2, ← lines'.1, ← lines'.2, text_cons_digit digits.1,
            text_cons_digit digits.2]
          exact unitOrder_digits digits.1 digits.2
        · next plain =>
          have plain' : (isDigit c.toNat && isDigit d.toNat) = false := by
            simpa [digitChar] using plain
          split
          · next same =>
            subst same
            have off : ∀ unit ∈ spelling.units c, isDigit unit = false := by
              intro unit member
              rw [isDigit_unit member]
              simpa using plain'
            rw [text_cons] at enough
            rw [text_cons, text_cons]
            obtain ⟨smaller, rest, skip⟩ := unitOrder_skip (y := spelling.text rs) _ off enough
            rw [skip]
            exact ih rest (by simpa using bound)
          · next differ =>
            rw [text_cons] at enough
            rw [text_cons, text_cons]
            exact unitOrder_decides differ plain' enough

end Spelling

section Spellings

theorem compare_congr {a b x y : Nat} (less : a < b ↔ x < y) (more : b < a ↔ y < x) :
    compare a b = compare x y := by
  rcases lt_trichotomy a b with lt | rfl | gt
  · rw [compare_lt_iff_lt.mpr lt, compare_lt_iff_lt.mpr (less.mp lt)]
  · have same : x = y := by
      by_contra ne
      rcases Nat.lt_or_gt_of_ne ne with lt | gt
      · exact Nat.lt_irrefl _ (less.mpr lt)
      · exact Nat.lt_irrefl _ (more.mpr gt)
    rw [same]
    simp
  · rw [compare_gt_iff_gt.mpr gt, compare_gt_iff_gt.mpr (more.mp gt)]

theorem char_ne {left right : Char} (differ : left ≠ right) : left.toNat ≠ right.toNat :=
  fun same => differ (Char.toNat_inj.mp same)

theorem char_range (char : Char) : char.toNat < 0xD800 ∨ 0xDFFF < char.toNat ∧ char.toNat < 0x110000 :=
  char.valid

/-- One lies past the basic plane and the other in its part past the surrogates. -/
def Clash (left right : Char) : Prop :=
  (0x10000 ≤ left.toNat ∧ 0xE000 ≤ right.toNat ∧ right.toNat < 0x10000) ∨
    (0x10000 ≤ right.toNat ∧ 0xE000 ≤ left.toNat ∧ left.toNat < 0x10000)

instance (left right : Char) : Decidable (Clash left right) :=
  inferInstanceAs (Decidable (_ ∨ _))

def unitOrder16 (left right : Char) : Ordering :=
  if Clash left right then compare right.toNat left.toNat else compare left.toNat right.toNat

theorem utf8_units (char : Char) : (String.utf8EncodeChar char).map (·.toNat) =
    if char.toNat < 0x80 then [char.toNat]
    else if char.toNat < 0x800 then [0xC0 + char.toNat / 64, 0x80 + char.toNat % 64]
    else if char.toNat < 0x10000 then
      [0xE0 + char.toNat / 4096, 0x80 + char.toNat / 64 % 64, 0x80 + char.toNat % 64]
    else
      [0xF0 + char.toNat / 262144, 0x80 + char.toNat / 4096 % 64, 0x80 + char.toNat / 64 % 64,
        0x80 + char.toNat % 64] := by
  have range := char_range char
  have code : char.val.toNat = char.toNat := rfl
  unfold String.utf8EncodeChar
  dsimp only
  rw [code]
  by_cases one : char.toNat < 0x80
  · rw [if_pos one, if_pos (by omega), List.map_singleton, UInt8.toNat_ofNat', Nat.mod_eq_of_lt (by omega)]
  · rw [if_neg one, if_neg (by omega)]
    by_cases two : char.toNat < 0x800
    · rw [if_pos two, if_pos (by omega)]
      simp only [List.map_cons, List.map_nil, UInt8.toNat_ofNat', List.cons.injEq, and_true]
      omega
    · rw [if_neg two, if_neg (by omega)]
      by_cases three : char.toNat < 0x10000
      · rw [if_pos three, if_pos (by omega)]
        simp only [List.map_cons, List.map_nil, UInt8.toNat_ofNat', List.cons.injEq, and_true]
        omega
      · rw [if_neg three, if_neg (by omega)]
        simp only [List.map_cons, List.map_nil, UInt8.toNat_ofNat', List.cons.injEq, and_true]
        omega

theorem parts_at_once {first second order_left order_right : Nat} {rest others : List Nat}
    (order : order_left < order_right ∧ first < second ∨ order_right < order_left ∧ second < first) :
    ∃ common one two more_left more_right,
      first :: rest = common ++ one :: more_left ∧ second :: others = common ++ two :: more_right ∧
        one ≠ two ∧ compare order_left order_right = compare one two := by
  refine ⟨[], first, second, rest, others, rfl, rfl, ?_, compare_congr ?_ ?_⟩
  · omega
  · omega
  · omega

theorem parts_cons {unit : Nat} {spelt spelt' : List Nat} {order : Ordering}
    (parts : ∃ common one two more_left more_right, spelt = common ++ one :: more_left ∧
      spelt' = common ++ two :: more_right ∧ one ≠ two ∧ order = compare one two) :
    ∃ common one two more_left more_right, unit :: spelt = common ++ one :: more_left ∧
      unit :: spelt' = common ++ two :: more_right ∧ one ≠ two ∧ order = compare one two := by
  obtain ⟨common, one, two, rest, others, rfl, rfl, ne, order⟩ := parts
  exact ⟨unit :: common, one, two, rest, others, rfl, rfl, ne, order⟩

theorem utf16_units (char : Char) : (utf16EncodeChar char).map (·.toNat) =
    if char.toNat < 0x10000 then [char.toNat]
    else [0xD800 + (char.toNat - 0x10000) / 0x400, 0xDC00 + (char.toNat - 0x10000) % 0x400] := by
  have range := char_range char
  unfold utf16EncodeChar
  split
  · rw [List.map_singleton, UInt16.toNat_ofNat', Nat.mod_eq_of_lt (by omega)]
  · simp
    omega

theorem parts16 {left right : Char} (differ : left ≠ right) : ∃ common first second rest others,
    (utf16EncodeChar left).map (·.toNat) = common ++ first :: rest ∧
      (utf16EncodeChar right).map (·.toNat) = common ++ second :: others ∧
      first ≠ second ∧ unitOrder16 left right = compare first second := by
  have ne := char_ne differ
  have range := char_range left
  have range' := char_range right
  have clash : Clash left right ↔
      (0x10000 ≤ left.toNat ∧ 0xE000 ≤ right.toNat ∧ right.toNat < 0x10000) ∨
        (0x10000 ≤ right.toNat ∧ 0xE000 ≤ left.toNat ∧ left.toNat < 0x10000) := Iff.rfl
  rw [utf16_units, utf16_units, unitOrder16]
  by_cases low : left.toNat < 0x10000
  · rw [if_pos low]
    split
    · rw [if_neg (by rw [clash]; omega)]
      exact parts_at_once (by omega)
    · split
      · next yes =>
        rw [clash] at yes
        exact parts_at_once (by omega)
      · next no =>
        rw [clash] at no
        exact parts_at_once (by omega)
  · rw [if_neg low]
    split
    · split
      · next yes =>
        rw [clash] at yes
        exact parts_at_once (by omega)
      · next no =>
        rw [clash] at no
        exact parts_at_once (by omega)
    · rw [if_neg (by rw [clash]; omega)]
      by_cases high : (left.toNat - 0x10000) / 0x400 = (right.toNat - 0x10000) / 0x400
      · rw [high]
        exact parts_cons (parts_at_once (by omega))
      · exact parts_at_once (by omega)

theorem parts8 {left right : Char} (differ : left ≠ right) : ∃ common first second rest others,
    (String.utf8EncodeChar left).map (·.toNat) = common ++ first :: rest ∧
      (String.utf8EncodeChar right).map (·.toNat) = common ++ second :: others ∧
      first ≠ second ∧ compare left.toNat right.toNat = compare first second := by
  have ne := char_ne differ
  rw [utf8_units, utf8_units]
  by_cases one : left.toNat < 0x80
  · rw [if_pos one]
    split
    · exact parts_at_once (by omega)
    · split
      · exact parts_at_once (by omega)
      · split <;> exact parts_at_once (by omega)
  · rw [if_neg one]
    by_cases two : left.toNat < 0x800
    · rw [if_pos two]
      split
      · exact parts_at_once (by omega)
      · split
        · by_cases lead : left.toNat / 64 = right.toNat / 64
          · rw [lead]
            exact parts_cons (parts_at_once (by omega))
          · exact parts_at_once (by omega)
        · split <;> exact parts_at_once (by omega)
    · rw [if_neg two]
      by_cases three : left.toNat < 0x10000
      · rw [if_pos three]
        split
        · exact parts_at_once (by omega)
        · split
          · exact parts_at_once (by omega)
          · split
            · by_cases lead : left.toNat / 4096 = right.toNat / 4096
              · rw [lead]
                by_cases second : left.toNat / 64 % 64 = right.toNat / 64 % 64
                · rw [second]
                  exact parts_cons (parts_cons (parts_at_once (by omega)))
                · exact parts_cons (parts_at_once (by omega))
              · exact parts_at_once (by omega)
            · exact parts_at_once (by omega)
      · rw [if_neg three]
        split
        · exact parts_at_once (by omega)
        · split
          · exact parts_at_once (by omega)
          · split
            · exact parts_at_once (by omega)
            · by_cases lead : left.toNat / 262144 = right.toNat / 262144
              · rw [lead]
                by_cases second : left.toNat / 4096 % 64 = right.toNat / 4096 % 64
                · rw [second]
                  by_cases third : left.toNat / 64 % 64 = right.toNat / 64 % 64
                  · rw [third]
                    exact parts_cons (parts_cons (parts_cons (parts_at_once (by omega))))
                  · exact parts_cons (parts_cons (parts_at_once (by omega)))
                · exact parts_cons (parts_at_once (by omega))
              · exact parts_at_once (by omega)

theorem utf8_ascii (char : Char) (small : char.toNat < 128) :
    (String.utf8EncodeChar char).map (·.toNat) = [char.toNat] := by
  rw [utf8_units, if_pos small]

theorem utf8_wide (char : Char) (large : ¬char.toNat < 128) :
    ∀ unit ∈ (String.utf8EncodeChar char).map (·.toNat), 128 ≤ unit := by
  intro unit member
  have range := char_range char
  rw [utf8_units, if_neg large] at member
  split at member
  · simp only [List.mem_cons, List.not_mem_nil, or_false] at member
    omega
  · split at member <;> simp only [List.mem_cons, List.not_mem_nil, or_false] at member <;> omega

theorem utf8_ne_nil (char : Char) : (String.utf8EncodeChar char).map (·.toNat) ≠ [] :=
  fun empty => TextEncoding.encode_ne_nil utf8 char (List.map_eq_nil_iff.mp empty)

theorem utf16_ascii (char : Char) (small : char.toNat < 128) :
    (utf16EncodeChar char).map (·.toNat) = [char.toNat] := by
  rw [utf16_units, if_pos (by omega)]

theorem utf16_wide (char : Char) (large : ¬char.toNat < 128) :
    ∀ unit ∈ (utf16EncodeChar char).map (·.toNat), 128 ≤ unit := by
  intro unit member
  have range := char_range char
  rw [utf16_units] at member
  split at member <;> simp only [List.mem_cons, List.not_mem_nil, or_false] at member <;> omega

theorem utf16_ne_nil (char : Char) : (utf16EncodeChar char).map (·.toNat) ≠ [] :=
  fun empty => TextEncoding.encode_ne_nil utf16 char (List.map_eq_nil_iff.mp empty)

def spelling8 : Spelling where
  units char := (String.utf8EncodeChar char).map (·.toNat)
  ascii := utf8_ascii
  wide := utf8_wide
  ne_nil := utf8_ne_nil
  order left right := compare left.toNat right.toNat
  parts _ _ := parts8

def spelling16 : Spelling where
  units char := (utf16EncodeChar char).map (·.toNat)
  ascii := utf16_ascii
  wide := utf16_wide
  ne_nil := utf16_ne_nil
  order := unitOrder16
  parts _ _ := parts16

end Spellings

/-- The first place where two names have different characters. -/
def firstDifference : List Char → List Char → Option (Char × Char)
  | left :: ls, right :: rs => if left = right then firstDifference ls rs else some (left, right)
  | _, _ => none

/-- At the first place where the names differ, one has a character past the basic plane
and the other one of its last 8192. -/
def Clashes (left right : String) : Prop :=
  ∃ one other, firstDifference left.toList right.toList = some (one, other) ∧ Clash one other

section Agreement

open SiblingOrder

theorem naturalNameCmp_chars (left right : String) : naturalNameCmpCase left right false =
    charOrder spelling8.decision left.toList.length left.toList right.toList := by
  have bytes : ∀ name : String, (asBytes name).map (·.toNat) = spelling8.text name.toList := by
    intro name
    rw [asBytes, ← String.utf8Encode_toList, List.utf8Encode, List.toList_data_toByteArray, List.map_flatMap]
    rfl
  have lengths : ∀ name : String, (asBytes name).length = (spelling8.text name.toList).length := by
    intro name
    rw [← bytes, List.length_map]
  rw [← @Spelling.unitOrder_chars spelling8 left.toList.length _ _ _ (le_refl _) (le_refl _), unitOrder, ← lengths,
    ← lengths, ← bytes, ← bytes, ← naturalScan_units]
  rfl

theorem compareNaturalNames_chars (left right : String) : sign (compareNaturalNames left right) =
    charOrder spelling16.decision left.toList.length left.toList right.toList := by
  have codes : ∀ name : String, charCodes name = spelling16.text name.toList := by
    intro name
    rw [charCodes, TextEncoding.text, List.map_flatMap]
    rfl
  rw [sign_compareNaturalNames, codes, codes]
  exact Spelling.unitOrder_chars left.toList.length (le_refl _) (le_refl _)

/-- The first difference splits both names after what they share. -/
theorem firstDifference_some {ls rs : List Char} {one other : Char} :
    firstDifference ls rs = some (one, other) ↔
      one ≠ other ∧ ∃ common rest others, ls = common ++ one :: rest ∧ rs = common ++ other :: others := by
  induction ls generalizing rs with
  | nil => simp [firstDifference]
  | cons left ls ih =>
    cases rs with
    | nil => simp [firstDifference]
    | cons right rs =>
      rw [firstDifference]
      split
      · next same =>
        subst same
        rw [ih]
        constructor
        · rintro ⟨ne, common, rest, others, rfl, rfl⟩
          exact ⟨ne, left :: common, rest, others, rfl, rfl⟩
        · rintro ⟨ne, common, rest, others, first, second⟩
          cases common with
          | nil =>
            rw [List.nil_append, List.cons.injEq] at first second
            exact absurd (first.1.symm.trans second.1) ne
          | cons char common =>
            rw [List.cons_append, List.cons.injEq] at first second
            exact ⟨ne, common, rest, others, first.2, second.2⟩
      · next differ =>
        rw [Option.some.injEq, Prod.mk.injEq]
        constructor
        · rintro ⟨rfl, rfl⟩
          exact ⟨differ, [], ls, rs, rfl, rfl⟩
        · rintro ⟨ne, common, rest, others, first, second⟩
          cases common with
          | nil =>
            rw [List.nil_append, List.cons.injEq] at first second
            exact ⟨first.1, second.1⟩
          | cons char common =>
            rw [List.cons_append, List.cons.injEq] at first second
            exact absurd (first.1.trans second.1.symm) differ

theorem run_eq {run run' : List Nat} (digits : run.dropWhile (· = 48) = run'.dropWhile (· = 48))
    (length : run.length = run'.length) : run = run' := by
  have zeros : ∀ run : List Nat, run.takeWhile (· = 48) =
      List.replicate (run.length - (run.dropWhile (· = 48)).length) 48 := by
    intro run
    rw [List.eq_replicate_iff]
    constructor
    · have parts := congrArg List.length (@List.takeWhile_append_dropWhile _ (· = 48) run)
      rw [List.length_append] at parts
      omega
    · intro unit member
      simpa using List.mem_takeWhile_imp member
  rw [← @List.takeWhile_append_dropWhile _ (· = 48) run, ← @List.takeWhile_append_dropWhile _ (· = 48) run',
    zeros run, zeros run', digits, length]

theorem runOrder_eq {ls rs : List Char}
    (same : runOrder ((ls.takeWhile digitChar).map (·.toNat)) ((rs.takeWhile digitChar).map (·.toNat)) = .eq) :
    ls.takeWhile digitChar = rs.takeWhile digitChar := by
  unfold runOrder at same
  rw [Ordering.then_eq_eq, Ordering.then_eq_eq] at same
  have equal := run_eq (Std.LawfulEqCmp.eq_of_compare same.2.1) (compare_eq_iff_eq.mp same.2.2)
  exact List.map_injective_iff.mpr (fun _ _ => Char.toNat_inj.mp) equal

theorem runOrder_self (run : List Nat) : runOrder run run = .eq := by
  simp [runOrder]

theorem digits_stop {one : Char} (plain : digitChar one = false) (common rest : List Char) :
    (common ++ one :: rest).takeWhile digitChar = common.takeWhile digitChar ∧
      (common ++ one :: rest).dropWhile digitChar = common.dropWhile digitChar ++ one :: rest := by
  have stop : ¬digitChar one = true := by simp [plain]
  induction common with
  | nil =>
    rw [List.nil_append, List.takeWhile_cons_of_neg stop, List.dropWhile_cons_of_neg stop]
    exact ⟨rfl, rfl⟩
  | cons char common ih =>
    by_cases digit : digitChar char = true
    · rw [List.cons_append, List.takeWhile_cons_of_pos digit, List.dropWhile_cons_of_pos digit,
        List.takeWhile_cons_of_pos digit, List.dropWhile_cons_of_pos digit, ih.1, ih.2]
      exact ⟨rfl, rfl⟩
    · rw [List.cons_append, List.takeWhile_cons_of_neg digit, List.dropWhile_cons_of_neg digit,
        List.takeWhile_cons_of_neg digit, List.dropWhile_cons_of_neg digit]
      exact ⟨rfl, rfl⟩

/-- The order over characters depends on the decision at the first difference only. -/
theorem charOrder_congr {decision decision' : Char → Char → Ordering} (fuel : Nat) {ls rs : List Char}
    (same : ∀ one other, firstDifference ls rs = some (one, other) →
      decision one other = decision' one other) :
    charOrder decision fuel ls rs = charOrder decision' fuel ls rs := by
  induction fuel generalizing ls rs with
  | zero => rfl
  | succ fuel ih =>
    cases ls with
    | nil => rfl
    | cons left ls =>
      cases rs with
      | nil => rfl
      | cons right rs =>
        rw [charOrder, charOrder]
        split
        · next digits =>
          cases run : runOrder (((left :: ls).takeWhile digitChar).map (·.toNat))
            (((right :: rs).takeWhile digitChar).map (·.toNat)) with
          | lt => rfl
          | gt => rfl
          | eq =>
            rw [Ordering.eq_then, Ordering.eq_then]
            have equal := runOrder_eq run
            apply ih
            intro one other found
            apply same
            obtain ⟨ne, common, rest, others, first, second⟩ := firstDifference_some.mp found
            refine firstDifference_some.mpr
              ⟨ne, (left :: ls).takeWhile digitChar ++ common, rest, others, ?_, ?_⟩
            · rw [List.append_assoc, ← first, List.takeWhile_append_dropWhile]
            · rw [equal, List.append_assoc, ← second, List.takeWhile_append_dropWhile]
        · split
          · next equal =>
            subst equal
            apply ih
            intro one other found
            apply same
            rw [firstDifference, if_pos rfl]
            exact found
          · next differ =>
            apply same
            rw [firstDifference, if_neg differ]

/-- Where neither of the first characters that differ is a digit, they decide. -/
theorem charOrder_difference (decision : Char → Char → Ordering) (fuel : Nat) {ls rs : List Char}
    {one other : Char} (found : firstDifference ls rs = some (one, other)) (bound : ls.length ≤ fuel)
    (plain : digitChar one = false) (plain' : digitChar other = false) :
    charOrder decision fuel ls rs = decision one other := by
  induction fuel generalizing ls rs with
  | zero =>
    rw [List.length_eq_zero_iff.mp (Nat.le_zero.mp bound)] at found
    cases found
  | succ fuel ih =>
    cases ls with
    | nil => cases found
    | cons left ls =>
      cases rs with
      | nil => cases found
      | cons right rs =>
        rw [charOrder]
        split
        · next digits =>
          rw [Bool.and_eq_true] at digits
          obtain ⟨ne, common, rest, others, first, second⟩ := firstDifference_some.mp found
          have shorter : ((left :: ls).dropWhile digitChar).length ≤ fuel := by
            rw [List.dropWhile_cons_of_pos digits.1]
            exact (List.length_dropWhile_le _ _).trans (by simpa using bound)
          rw [first] at shorter ⊢
          rw [second, (digits_stop plain common rest).1, (digits_stop plain' common others).1, runOrder_self,
            Ordering.eq_then]
          refine ih (firstDifference_some.mpr ⟨ne, common.dropWhile digitChar, rest, others, ?_, ?_⟩) shorter
          · exact (digits_stop plain common rest).2
          · exact (digits_stop plain' common others).2
        · rw [firstDifference] at found
          split
          · next same =>
            rw [if_pos same] at found
            exact ih found (by simpa using bound)
          · next differ =>
            rw [if_neg differ] at found
            cases found
            rfl

/-- The client's natural order of two names is the store's unless the first characters that
differ are one past the basic plane and one of its last 8192. -/
theorem compareNaturalNames_agrees_iff (left right : String) :
    sign (compareNaturalNames left right) = naturalNameCmpCase left right false ↔ ¬Clashes left right := by
  rw [compareNaturalNames_chars, naturalNameCmp_chars]
  constructor
  · rintro same ⟨one, other, found, clash⟩
    have large : 0xE000 ≤ one.toNat ∧ 0xE000 ≤ other.toNat := by
      rcases clash with ⟨high, low, _⟩ | ⟨high, low, _⟩ <;> omega
    have plain : digitChar one = false := by simp [digitChar, isDigit]; omega
    have plain' : digitChar other = false := by simp [digitChar, isDigit]; omega
    rw [charOrder_difference _ _ found (le_refl _) plain plain',
      charOrder_difference _ _ found (le_refl _) plain plain'] at same
    have wide : ¬(one.toNat < 128 ∧ other.toNat < 128) := by omega
    rw [Spelling.decision, Spelling.decision, if_neg wide, if_neg wide] at same
    have swapped : compare other.toNat one.toNat = compare one.toNat other.toNat := by
      rw [show spelling16.order one other = compare other.toNat one.toNat from if_pos clash] at same
      exact same
    have ne := char_ne (firstDifference_some.mp found).1
    rcases Nat.lt_or_gt_of_ne ne with less | more
    · rw [compare_gt_iff_gt.mpr less, compare_lt_iff_lt.mpr less] at swapped
      cases swapped
    · rw [compare_lt_iff_lt.mpr more, compare_gt_iff_gt.mpr more] at swapped
      cases swapped
  · intro apart
    apply charOrder_congr
    intro one other found
    have agreed : ¬Clash one other := fun clash => apart ⟨one, other, found, clash⟩
    rw [Spelling.decision, Spelling.decision]
    split
    · rfl
    · exact if_neg agreed

/-- A mathematical letter sorts before a fullwidth one on the client and after it in the store. -/
theorem fullwidth_letter_order :
    ¬∀ left right : String, sign (compareNaturalNames left right) = naturalNameCmpCase left right false := by
  intro agrees
  exact absurd (agrees "\uFF21" "𝐀") (by decide)

end Agreement

end Mille.NaturalSort
