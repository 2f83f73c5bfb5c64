import Mille.Core.Sort

/-! The sibling order is a total preorder, and the three ways of placing ids keep
a list sorted by it. -/

namespace Mille

section Comparisons

variable {α β : Type} {cmp : β → β → Ordering}

theorem transCmp_map (key : α → β) [Std.TransCmp cmp] :
    Std.TransCmp (fun left right => cmp (key left) (key right)) where
  eq_swap := Std.OrientedCmp.eq_swap
  isLE_trans := Std.TransCmp.isLE_trans

theorem isLE_total [Std.TransCmp cmp] (left right : β) :
    ((cmp left right).isLE || (cmp right left).isLE) = true := by
  cases order : cmp left right with
  | lt => rfl
  | eq => rfl
  | gt =>
    rw [Std.OrientedCmp.gt_iff_lt.mp order]
    rfl

end Comparisons

namespace SiblingOrder

section Names

/-- A name as the scan sees it: runs of digits, and single other bytes. -/
def tokens : Nat → List UInt8 → List (List UInt8)
  | fuel + 1, byte :: rest =>
    if isAsciiDigit byte then
      (byte :: rest).takeWhile isAsciiDigit :: tokens fuel ((byte :: rest).dropWhile isAsciiDigit)
    else [byte] :: tokens fuel rest
  | _, _ => []

/-- All digits have one place among the other bytes. -/
def tokenClass (caseSensitive : Bool) : List UInt8 → Nat
  | [] => 0
  | byte :: _ =>
    if isAsciiDigit byte then 48
    else if caseSensitive then byte.toNat else (toAsciiLowercase byte).toNat

def significant (token : List UInt8) : List UInt8 :=
  token.dropWhile (· = 48)

def compareTokens (caseSensitive : Bool) : List UInt8 → List UInt8 → Ordering :=
  compareLex (compareOn (tokenClass caseSensitive)) <|
    compareLex (compareOn (fun token => (significant token).length)) <|
      compareLex (compareOn significant) (compareOn List.length)

instance (caseSensitive : Bool) : Std.TransCmp (compareTokens caseSensitive) := by
  unfold compareTokens
  infer_instance

theorem compare_byte (left right : UInt8) : compare left right = compare left.toNat right.toNat := by
  change compareOfLessAndEq left right = compareOfLessAndEq left.toNat right.toNat
  simp only [compareOfLessAndEq, UInt8.lt_iff_toNat_lt, UInt8.toNat_inj]

theorem isAsciiDigit_iff {byte : UInt8} : isAsciiDigit byte = true ↔ 48 ≤ byte.toNat ∧ byte.toNat ≤ 57 := by
  simp [isAsciiDigit, UInt8.le_iff_toNat_le]

theorem toAsciiLowercase_toNat (byte : UInt8) : (toAsciiLowercase byte).toNat =
    if 65 ≤ byte.toNat ∧ byte.toNat ≤ 90 then byte.toNat + 32 else byte.toNat := by
  have small := byte.toNat_lt
  by_cases upper : 65 ≤ byte.toNat ∧ byte.toNat ≤ 90
  · have raise : (65 ≤ byte && byte ≤ 90) = true := by simp [UInt8.le_iff_toNat_le, upper]
    rw [toAsciiLowercase, if_pos raise, if_pos upper, UInt8.toNat_add]
    have : (32 : UInt8).toNat = 32 := rfl
    omega
  · have keep : ¬ (65 ≤ byte && byte ≤ 90) = true := by simpa [UInt8.le_iff_toNat_le] using upper
    rw [toAsciiLowercase, if_neg keep, if_neg upper]

theorem compareTokens_eq (caseSensitive : Bool) (first second : List UInt8) :
    compareTokens caseSensitive first second =
      (compare (tokenClass caseSensitive first) (tokenClass caseSensitive second)).then
        ((compare (significant first).length (significant second).length).then
          ((compare (significant first) (significant second)).then
            (compare first.length second.length))) := rfl

theorem compare_digit {digit other : Nat} (low : 48 ≤ digit) (high : digit ≤ 57)
    (outside : ¬ (48 ≤ other ∧ other ≤ 57)) :
    compare digit other = compare 48 other ∧ compare other digit = compare other 48 ∧
      compare 48 other ≠ .eq ∧ compare other 48 ≠ .eq := by
  rcases Nat.lt_or_ge other 48 with below | above
  · rw [Nat.compare_eq_gt.mpr (by omega), Nat.compare_eq_gt.mpr below,
      Nat.compare_eq_lt.mpr (by omega : other < digit), Nat.compare_eq_lt.mpr below]
    simp
  · have beyond : 57 < other := by omega
    rw [Nat.compare_eq_lt.mpr (by omega), Nat.compare_eq_lt.mpr (by omega : 48 < other),
      Nat.compare_eq_gt.mpr (by omega : digit < other), Nat.compare_eq_gt.mpr (by omega : 48 < other)]
    simp

theorem byteClass_outside {byte : UInt8} (other : ¬ isAsciiDigit byte = true) (caseSensitive : Bool) :
    ¬ (48 ≤ (if caseSensitive then byte.toNat else (toAsciiLowercase byte).toNat) ∧
      (if caseSensitive then byte.toNat else (toAsciiLowercase byte).toNat) ≤ 57) := by
  rw [isAsciiDigit_iff] at other
  rw [toAsciiLowercase_toNat]
  split
  · exact other
  · split <;> omega

/-- The comparison of two bytes that are not both digits. -/
def compareBytes (caseSensitive : Bool) (a b : UInt8) : Ordering :=
  (if caseSensitive then .eq else compare (toAsciiLowercase a) (toAsciiLowercase b)).then (compare a b)

theorem compareBytes_other {a b : UInt8} (left : ¬ isAsciiDigit a = true) (right : ¬ isAsciiDigit b = true)
    (caseSensitive : Bool) : compareTokens caseSensitive [a] [b] = compareBytes caseSensitive a b := by
  have zero {byte : UInt8} (other : ¬ isAsciiDigit byte = true) : significant [byte] = [byte] := by
    have apart : byte ≠ 48 := by
      rintro rfl
      exact other rfl
    simp [significant, apart]
  rw [compareTokens_eq, zero left, zero right]
  simp only [tokenClass, left, right, Bool.false_eq_true, if_false, compareBytes]
  have one : compare [a] [b] = compare a b := by
    rw [List.compare_eq_compareLex, List.compareLex_cons_cons, List.compareLex_nil_nil]
    cases compare a b <;> rfl
  have same : compare (1 : Nat) 1 = .eq := rfl
  simp only [List.length_singleton, same, one, Ordering.then_eq, Ordering.eq_then]
  cases caseSensitive with
  | true =>
    simp only [if_true, ← compare_byte, Ordering.eq_then]
    cases compare a b <;> rfl
  | false => simp only [Bool.false_eq_true, if_false, compare_byte]

theorem compareBytes_mixed {digit other : UInt8} (left : isAsciiDigit digit = true)
    (right : ¬ isAsciiDigit other = true) (rest : List UInt8) (caseSensitive : Bool) :
    (compareTokens caseSensitive (digit :: rest) [other] = compareBytes caseSensitive digit other ∧
      compareBytes caseSensitive digit other ≠ .eq) ∧
    compareTokens caseSensitive [other] (digit :: rest) = compareBytes caseSensitive other digit ∧
      compareBytes caseSensitive other digit ≠ .eq := by
  obtain ⟨low, high⟩ := isAsciiDigit_iff.mp left
  have outside := byteClass_outside right caseSensitive
  obtain ⟨first, second, apart, apart'⟩ := compare_digit low high outside
  have then_left {order : Ordering} (decided : order ≠ .eq) (next : Ordering) : order.then next = order := by
    cases order <;> simp_all
  have keep : (toAsciiLowercase digit).toNat = digit.toNat := by
    rw [toAsciiLowercase_toNat, if_neg (by omega)]
  have bytes : compareBytes caseSensitive digit other = compare 48
      (if caseSensitive then other.toNat else (toAsciiLowercase other).toNat) ∧
      compareBytes caseSensitive other digit = compare
        (if caseSensitive then other.toNat else (toAsciiLowercase other).toNat) 48 := by
    cases caseSensitive with
    | true =>
      simp only [if_true] at first second apart apart' ⊢
      simp only [compareBytes, if_true, Ordering.eq_then, compare_byte, first, second, and_self]
    | false =>
      simp only [Bool.false_eq_true, if_false] at first second apart apart' ⊢
      simp only [compareBytes, Bool.false_eq_true, if_false, compare_byte, keep, first, second]
      exact ⟨then_left apart _, then_left apart' _⟩
  rw [bytes.1, bytes.2, compareTokens_eq, compareTokens_eq]
  simp only [tokenClass, left, right, if_true, Bool.false_eq_true, if_false]
  exact ⟨⟨then_left apart _, apart⟩, then_left apart' _, apart'⟩

theorem tokens_cons {fuel : Nat} (byte : UInt8) (rest : List UInt8) :
    tokens (fuel + 1) (byte :: rest) =
      if isAsciiDigit byte then
        (byte :: rest).takeWhile isAsciiDigit :: tokens fuel ((byte :: rest).dropWhile isAsciiDigit)
      else [byte] :: tokens fuel rest := rfl

theorem tokens_ne_nil {fuel : Nat} (byte : UInt8) (rest : List UInt8) :
    ∃ token more, tokens (fuel + 1) (byte :: rest) = token :: more := by
  rw [tokens_cons]
  split
  · exact ⟨_, _, rfl⟩
  · exact ⟨_, _, rfl⟩

theorem compare_length_drop {a b : List UInt8}
    (same : compare (a.takeWhile isAsciiDigit).length (b.takeWhile isAsciiDigit).length = .eq) :
    compare a.length b.length =
      compare (a.dropWhile isAsciiDigit).length (b.dropWhile isAsciiDigit).length := by
  have first := congrArg List.length (List.takeWhile_append_dropWhile (p := isAsciiDigit) (l := a))
  have second := congrArg List.length (List.takeWhile_append_dropWhile (p := isAsciiDigit) (l := b))
  rw [List.length_append] at first second
  have equal := Nat.compare_eq_eq.mp same
  rw [← first, ← second, equal]
  simp only [Nat.compare_eq_ite_lt]
  grind

theorem naturalScan_nil (caseSensitive : Bool) (fuel : Nat) {other : Nat} {b : List UInt8}
    (right : b.length ≤ other) :
    (naturalScan caseSensitive fuel [] b).then (compare ([] : List UInt8).length b.length) =
      List.compareLex (compareTokens caseSensitive) (tokens fuel []) (tokens other b) := by
  have scan : naturalScan caseSensitive fuel [] b = .eq := by
    cases fuel <;> rfl
  have empty (fuel : Nat) : tokens fuel [] = [] := by
    cases fuel <;> rfl
  rw [scan, empty, Ordering.eq_then]
  cases b with
  | nil =>
    rw [empty]
    rfl
  | cons byte rest =>
    obtain ⟨more, rfl⟩ := Nat.exists_eq_succ_of_ne_zero (by simp at right; omega : other ≠ 0)
    obtain ⟨token, later, split⟩ := @tokens_ne_nil more byte rest
    rw [split, List.compareLex_nil_cons]
    exact Nat.compare_eq_lt.mpr (by simp)

/-- The scan compares names token by token; a name that is used up goes first. -/
theorem naturalScan_tokens (caseSensitive : Bool) {fuel other : Nat} {a b : List UInt8}
    (left : a.length ≤ fuel) (right : b.length ≤ other) :
    (naturalScan caseSensitive fuel a b).then (compare a.length b.length) =
      List.compareLex (compareTokens caseSensitive) (tokens fuel a) (tokens other b) := by
  induction fuel generalizing a b other with
  | zero =>
    obtain rfl := List.length_eq_zero_iff.mp (Nat.le_zero.mp left)
    exact naturalScan_nil caseSensitive 0 right
  | succ fuel ih =>
    cases a with
    | nil => exact naturalScan_nil caseSensitive (fuel + 1) right
    | cons a as =>
      obtain ⟨token, later, split⟩ := @tokens_ne_nil fuel a as
      cases b with
      | nil =>
        have empty : tokens other [] = [] := by
          cases other <;> rfl
        have scan : naturalScan caseSensitive (fuel + 1) (a :: as) [] = .eq := rfl
        rw [split, empty, scan, List.compareLex_cons_nil, Ordering.eq_then]
        exact Nat.compare_eq_gt.mpr (by simp)
      | cons b bs =>
        obtain ⟨more, rfl⟩ := Nat.exists_eq_succ_of_ne_zero (by simp at right; omega : other ≠ 0)
        simp only [List.length_cons, Nat.succ_eq_add_one, Nat.add_le_add_iff_right] at left right
        rw [tokens_cons, tokens_cons]
        by_cases digits : isAsciiDigit a = true ∧ isAsciiDigit b = true
        · obtain ⟨first, second⟩ := digits
          have next := @ih more ((a :: as).dropWhile isAsciiDigit) ((b :: bs).dropWhile isAsciiDigit)
            (by simpa [List.dropWhile_cons, first] using (List.length_dropWhile_le ..).trans left)
            (by simpa [List.dropWhile_cons, second] using (List.length_dropWhile_le ..).trans right)
          rw [if_pos first, if_pos second, List.compareLex_cons_cons, ← next, compareTokens_eq]
          have scan : naturalScan caseSensitive (fuel + 1) (a :: as) (b :: bs) =
              (compare (significant ((a :: as).takeWhile isAsciiDigit)).length
                (significant ((b :: bs).takeWhile isAsciiDigit)).length).then
              ((compare (significant ((a :: as).takeWhile isAsciiDigit))
                (significant ((b :: bs).takeWhile isAsciiDigit))).then
              ((compare ((a :: as).takeWhile isAsciiDigit).length
                ((b :: bs).takeWhile isAsciiDigit).length).then
              (naturalScan caseSensitive fuel ((a :: as).dropWhile isAsciiDigit)
                ((b :: bs).dropWhile isAsciiDigit)))) := by
            rw [naturalScan, if_pos (by simp [first, second])]
            rfl
          have class48 {byte : UInt8} {rest : List UInt8} (digit : isAsciiDigit byte = true) :
              tokenClass caseSensitive ((byte :: rest).takeWhile isAsciiDigit) = 48 := by
            rw [List.takeWhile_cons_of_pos digit, tokenClass, if_pos digit]
          have even : compare 48 48 = .eq := rfl
          rw [scan, class48 first, class48 second, even, Ordering.eq_then]
          cases sizes : compare (significant ((a :: as).takeWhile isAsciiDigit)).length
            (significant ((b :: bs).takeWhile isAsciiDigit)).length with
          | lt => rfl
          | gt => rfl
          | eq =>
            cases values : compare (significant ((a :: as).takeWhile isAsciiDigit))
              (significant ((b :: bs).takeWhile isAsciiDigit)) with
            | lt => rfl
            | gt => rfl
            | eq =>
              cases runs : compare ((a :: as).takeWhile isAsciiDigit).length
                ((b :: bs).takeWhile isAsciiDigit).length with
              | lt => rfl
              | gt => rfl
              | eq =>
                simp only [Ordering.eq_then]
                rw [compare_length_drop runs]
        · have scan : naturalScan caseSensitive (fuel + 1) (a :: as) (b :: bs) =
              (compareBytes caseSensitive a b).then (naturalScan caseSensitive fuel as bs) := by
            rw [naturalScan, if_neg (by simpa using digits), compareBytes, Ordering.then_assoc]
          have decided {order : Ordering} (unequal : order ≠ .eq) (one two three : Ordering) :
              (order.then one).then two = order.then three := by
            cases order <;> simp_all
          rw [scan]
          by_cases first : isAsciiDigit a = true
          · have second : ¬ isAsciiDigit b = true := fun second => digits ⟨first, second⟩
            rw [if_pos first, if_neg second, List.compareLex_cons_cons,
              List.takeWhile_cons_of_pos first]
            obtain ⟨⟨same, apart⟩, _⟩ := compareBytes_mixed first second (as.takeWhile isAsciiDigit) caseSensitive
            rw [same]
            exact decided apart ..
          · by_cases second : isAsciiDigit b = true
            · rw [if_neg first, if_pos second, List.compareLex_cons_cons,
                List.takeWhile_cons_of_pos second]
              obtain ⟨_, same, apart⟩ := compareBytes_mixed second first (bs.takeWhile isAsciiDigit) caseSensitive
              rw [same]
              exact decided apart ..
            · rw [if_neg first, if_neg second, List.compareLex_cons_cons, ← ih left right,
                compareBytes_other first second, Ordering.then_assoc]
              congr 2
              simp [Nat.compare_eq_ite_lt]

theorem naturalNameCmpCase_tokens (left right : String) (caseSensitive : Bool) :
    naturalNameCmpCase left right caseSensitive =
      List.compareLex (compareTokens caseSensitive) (tokens (asBytes left).length (asBytes left))
        (tokens (asBytes right).length (asBytes right)) :=
  naturalScan_tokens caseSensitive (le_refl _) (le_refl _)

instance (caseSensitive : Bool) :
    Std.TransCmp (fun left right => naturalNameCmpCase left right caseSensitive) := by
  simp only [naturalNameCmpCase_tokens]
  exact @transCmp_map _ _ (List.compareLex (compareTokens caseSensitive))
    (fun name => tokens (asBytes name).length (asBytes name)) inferInstance

end Names

section Entries

variable {order : SiblingOrder}

/-- What is relied on of a compiled collator: it is a total preorder. -/
def Lawful (order : SiblingOrder) : Prop :=
  ∀ collation, order.localeCollation = some collation → Std.TransCmp collation.collator

theorem Lawful.names (lawful : order.Lawful) : Std.TransCmp order.compareNames := by
  cases collated : order.localeCollation with
  | none =>
    have plain : order.compareNames = fun left right => naturalNameCmpCase left right order.caseSensitive := by
      funext left right
      simp only [compareNames, collated]
    rw [plain]
    infer_instance
  | some collation =>
    have nested : order.compareNames = compareLex collation.collator
        (fun left right => naturalNameCmpCase left right order.caseSensitive) := by
      funext left right
      simp only [compareNames, collated, compareLex]
    have collator := lawful collation collated
    rw [nested]
    infer_instance

theorem Lawful.primary (lawful : order.Lawful) :
    Std.TransCmp (fun left right : Entry => match order.sortBy with
      | .name => .eq
      | .type => order.compareNames (extension left.name) (extension right.name)
      | .modified => compare right.mtimeMs left.mtimeMs) := by
  have names := lawful.names
  have byExtension : Std.TransCmp (fun left right : Entry =>
      order.compareNames (extension left.name) (extension right.name)) :=
    transCmp_map (fun entry : Entry => extension entry.name)
  cases order.sortBy with
  | name => exact { eq_swap := rfl, isLE_trans := fun _ _ => rfl }
  | type => exact byExtension
  | modified => exact @Std.TransCmp.opposite _ (compareOn Entry.mtimeMs) inferInstance

theorem Lawful.entries (lawful : order.Lawful) : Std.TransCmp order.compareEntries := by
  have names := lawful.names
  have byName : Std.TransCmp (fun left right : Entry => order.compareNames left.name right.name) :=
    transCmp_map Entry.name
  have none : Std.TransCmp (fun _ _ : Entry => Ordering.eq) :=
    { eq_swap := rfl, isLE_trans := fun _ _ => rfl }
  have primary := lawful.primary
  have grouping : Std.TransCmp (fun left right : Entry =>
      if order.foldersOnTop then compare (!left.isFolder) (!right.isFolder) else .eq) := by
    cases order.foldersOnTop with
    | true => exact inferInstanceAs (Std.TransCmp (compareOn (fun entry : Entry => !entry.isFolder)))
    | false => exact none
  exact inferInstanceAs (Std.TransCmp (compareLex
    (fun left right : Entry =>
      if order.foldersOnTop then compare (!left.isFolder) (!right.isFolder) else .eq)
    (compareLex (fun left right : Entry => match order.sortBy with
        | .name => .eq
        | .type => order.compareNames (extension left.name) (extension right.name)
        | .modified => compare right.mtimeMs left.mtimeMs)
      (fun left right : Entry => order.compareNames left.name right.name))))

/-- Records compared where an id may have none. -/
def compareRecords (order : SiblingOrder) : Option Entry → Option Entry → Ordering
  | some left, some right => order.compareEntries left right
  | some _, none => .gt
  | none, some _ => .lt
  | none, none => .eq

theorem Lawful.records (lawful : order.Lawful) : Std.TransCmp order.compareRecords := by
  have entries := lawful.entries
  refine { eq_swap := @fun left right => ?_, isLE_trans := @fun first second third low high => ?_ }
  · cases left <;> cases right
    · rfl
    · rfl
    · rfl
    · exact @Std.OrientedCmp.eq_swap _ order.compareEntries _ _ _
  · cases first <;> cases second <;> cases third <;> simp_all [compareRecords]
    exact @Std.TransCmp.isLE_trans _ order.compareEntries _ _ _ _ low high

end Entries

section Lists

variable {α : Type} {cmp : α → α → Ordering} {items : List α} {item : α}

theorem gt_of_sorted [Std.TransCmp cmp]
    (sorted : items.Pairwise (fun left right => (cmp left right).isLE)) {low high : Nat} {first second : α}
    (up : low ≤ high) (lower : items[low]? = some first) (upper : items[high]? = some second)
    (large : cmp first item = .gt) : cmp second item = .gt := by
  rcases Nat.eq_or_lt_of_le up with same | strict
  · rw [same, upper] at lower
    cases lower
    exact large
  · obtain ⟨inside, rfl⟩ := List.getElem?_eq_some_iff.mp lower
    obtain ⟨inside', rfl⟩ := List.getElem?_eq_some_iff.mp upper
    have ordered := List.pairwise_iff_getElem.mp sorted low high inside inside' strict
    exact Std.OrientedCmp.gt_iff_lt.mpr
      (Std.TransCmp.lt_of_lt_of_isLE (Std.OrientedCmp.gt_iff_lt.mp large) ordered)

/-- The halving loop ends at an item that is not too large, or at the first one,
with everything after it too large. -/
theorem binarySearchLoop_spec [Std.TransCmp cmp]
    (sorted : items.Pairwise (fun left right => (cmp left right).isLE)) {fuel base size : Nat}
    (enough : size ≤ fuel) (room : base + size ≤ items.length) (positive : 0 < size)
    (low : base = 0 ∨ ∀ found, items[base]? = some found → cmp found item ≠ .gt)
    (high : ∀ index found, base + size ≤ index → items[index]? = some found → cmp found item = .gt) :
    (binarySearchLoop (fun sibling => cmp sibling item) items fuel base size = 0 ∨
      ∀ found, items[binarySearchLoop (fun sibling => cmp sibling item) items fuel base size]? = some found →
        cmp found item ≠ .gt) ∧
    ∀ index found, binarySearchLoop (fun sibling => cmp sibling item) items fuel base size < index →
      items[index]? = some found → cmp found item = .gt := by
  induction fuel generalizing base size with
  | zero => omega
  | succ fuel ih =>
    rw [binarySearchLoop]
    split
    · rename_i several
      have inside : base + size / 2 < items.length := by omega
      have probed := List.getElem?_eq_getElem inside
      dsimp only
      split
      · rename_i large
        rw [probed, Option.map_some, Option.some.injEq] at large
        refine ih (by omega) (by omega) (by omega) low fun index found above present => ?_
        exact gt_of_sorted sorted (by omega) probed present large
      · rename_i small
        refine ih (by omega) (by omega) (by omega) (.inr fun found present large => small ?_)
          fun index found above present => high index found (by omega) present
        rw [present, Option.map_some, large]
    · exact ⟨low, fun index found above present => high index found (by omega) present⟩

theorem pairwise_insertIdx {relation : α → α → Prop} {position : Nat} (sorted : items.Pairwise relation)
    (inside : position ≤ items.length)
    (before : ∀ index found, index < position → items[index]? = some found → relation found item)
    (after : ∀ index found, position ≤ index → items[index]? = some found → relation item found) :
    (items.insertIdx position item).Pairwise relation := by
  induction items generalizing position with
  | nil =>
    obtain rfl := Nat.le_zero.mp inside
    simp
  | cons head rest ih =>
    cases position with
    | zero =>
      rw [List.insertIdx_zero, List.pairwise_cons]
      refine ⟨fun found member => ?_, sorted⟩
      obtain ⟨index, present⟩ := List.mem_iff_getElem?.mp member
      exact after index found (Nat.zero_le _) present
    | succ position =>
      rw [List.insertIdx_succ_cons, List.pairwise_cons]
      obtain ⟨first, later⟩ := List.pairwise_cons.mp sorted
      have room : position ≤ rest.length := by simpa using inside
      refine ⟨fun found member => ?_, ih later room ?_ ?_⟩
      · rcases (List.mem_insertIdx room).mp member with rfl | old
        · exact before 0 head (Nat.zero_lt_succ _) rfl
        · exact first found old
      · exact fun index found less present => before (index + 1) found (by omega) present
      · exact fun index found above present => after (index + 1) found (by omega) present

/-- Placing an item by binary search keeps a list sorted. -/
theorem binarySearchBy_sorted [Std.TransCmp cmp]
    (sorted : items.Pairwise (fun left right => (cmp left right).isLE)) :
    (items.insertIdx (binarySearchBy (fun sibling => cmp sibling item) items) item).Pairwise
      (fun left right => (cmp left right).isLE) := by
  have isLE_of_gt {found : α} (large : cmp found item = .gt) : (cmp item found).isLE = true := by
    rw [Std.OrientedCmp.gt_iff_lt.mp large]
    rfl
  by_cases empty : items = []
  · subst empty
    exact List.pairwise_singleton ..
  · have some := List.length_pos_iff.mpr empty
    obtain ⟨low, high⟩ := @binarySearchLoop_spec _ cmp items item _ sorted items.length 0 items.length
      (le_refl _) (by omega) some (.inl rfl) (fun index found above present => by
        have inside := (List.getElem?_eq_some_iff.mp present).1
        omega)
    have inside := @binarySearchLoop_lt _ (fun sibling => cmp sibling item) items items.length 0
      items.length (by omega) some
    have probed := List.getElem?_eq_getElem inside
    have ordered (index : Nat) (found : α)
        (less : index ≤ binarySearchLoop (fun sibling => cmp sibling item) items items.length 0 items.length)
        (present : items[index]? = Option.some found) :
        (cmp found items[binarySearchLoop (fun sibling => cmp sibling item) items items.length 0
          items.length]).isLE = true := by
      obtain ⟨here, rfl⟩ := List.getElem?_eq_some_iff.mp present
      rcases Nat.eq_or_lt_of_le less with same | strict
      · simp only [same]
        rw [@Std.ReflCmp.compare_self _ cmp]
        rfl
      · exact List.pairwise_iff_getElem.mp sorted index _ here inside strict
    refine pairwise_insertIdx sorted binarySearchBy_le (fun index found less present => ?_)
      (fun index found above present => ?_)
    · unfold binarySearchBy at less
      simp only [probed] at less
      split at less
      · rename_i below
        exact Std.TransCmp.isLE_trans (ordered index found (by omega) present) (by rw [below]; rfl)
      · refine Std.TransCmp.isLE_trans (ordered index found (by omega) present) ?_
        have small := low.resolve_left (by omega) _ probed
        cases order : cmp items[binarySearchLoop (fun sibling => cmp sibling item) items items.length 0
          items.length] item <;> simp_all
    · unfold binarySearchBy at above
      simp only [probed] at above
      split at above
      · exact isLE_of_gt (high index found (by omega) present)
      · rename_i notBelow
        rcases Nat.eq_or_lt_of_le above with same | strict
        · rw [← same, probed] at present
          cases present
          rw [@Std.OrientedCmp.eq_swap _ cmp]
          cases order : cmp items[binarySearchLoop (fun sibling => cmp sibling item) items items.length 0
            items.length] item <;> simp_all
        · exact isLE_of_gt (high index found strict present)

theorem binarySearchBy_congr {probe other : α → Ordering} (same : ∀ found ∈ items, probe found = other found) :
    binarySearchBy probe items = binarySearchBy other items := by
  have mapped (index : Nat) : (items[index]?).map probe = (items[index]?).map other := by
    cases present : items[index]? with
    | none => rfl
    | some found => exact congrArg Option.some (same found (List.mem_of_getElem? present))
  have loop (fuel base size : Nat) :
      binarySearchLoop probe items fuel base size = binarySearchLoop other items fuel base size := by
    induction fuel generalizing base size with
    | zero => rfl
    | succ fuel ih =>
      rw [binarySearchLoop, binarySearchLoop]
      split
      · dsimp only
        rw [mapped]
        exact ih ..
      · rfl
  unfold binarySearchBy
  simp only [loop]
  cases present : items[binarySearchLoop other items items.length 0 items.length]? with
  | none => rfl
  | some found =>
    dsimp only
    rw [same found (List.mem_of_getElem? present)]

end Lists

section Siblings

variable {order : SiblingOrder} {entries : IdMap Entry} {id : EntryId} {siblings incoming : List EntryId}

/-- Sibling ids in order. -/
def Ordered (order : SiblingOrder) (entries : IdMap Entry) (siblings : List EntryId) : Prop :=
  siblings.Pairwise (fun left right => (order.compareIds entries left right).isLE)

theorem compareIds_live {left right : EntryId} (first : entries[left]?.isSome = true)
    (second : entries[right]?.isSome = true) :
    order.compareIds entries left right = order.compareRecords entries[left]? entries[right]? := by
  obtain ⟨_, found⟩ := Option.isSome_iff_exists.mp first
  obtain ⟨_, found'⟩ := Option.isSome_iff_exists.mp second
  simp only [compareIds, found, found', compareRecords]

theorem Lawful.ids (lawful : order.Lawful) (entries : IdMap Entry) :
    Std.TransCmp (fun left right : EntryId => order.compareRecords entries[left]? entries[right]?) :=
  @transCmp_map _ _ order.compareRecords (fun sibling : EntryId => entries[sibling]?) lawful.records

theorem ordered_iff (live : ∀ sibling ∈ siblings, entries[sibling]?.isSome = true) :
    order.Ordered entries siblings ↔ siblings.Pairwise (fun left right =>
      (order.compareRecords entries[left]? entries[right]?).isLE) := by
  unfold Ordered
  exact List.Pairwise.iff_of_mem fun first second => by rw [compareIds_live (live _ first) (live _ second)]

theorem insertSorted_ordered (lawful : order.Lawful) (ordered : order.Ordered entries siblings)
    (live : ∀ sibling ∈ siblings, entries[sibling]?.isSome = true) (present : entries[id]?.isSome = true) :
    order.Ordered entries (order.insertSorted entries id siblings) := by
  have byRecord := lawful.ids entries
  rw [ordered_iff live] at ordered
  rw [ordered_iff, insertSorted, binarySearchBy_congr (fun sibling member =>
    compareIds_live (live sibling member) present)]
  · exact @binarySearchBy_sorted _ (fun left right : EntryId =>
      order.compareRecords entries[left]? entries[right]?) siblings id byRecord ordered
  · intro sibling member
    rcases List.mem_cons.mp (insertSorted_perm.mem_iff.mp member) with rfl | old
    · exact present
    · exact live sibling old

theorem sortSiblings_pair {left right : EntryId} (above : (order.compareIds entries left right).isLE = false) :
    order.sortSiblings entries [left, right] = [right, left] := by
  simp [sortSiblings, List.mergeSort, List.MergeSort.Internal.splitInTwo, above]

theorem sortSiblings_ordered (lawful : order.Lawful)
    (live : ∀ sibling ∈ siblings, entries[sibling]?.isSome = true) :
    order.Ordered entries (order.sortSiblings entries siblings) := by
  have byRecord := lawful.ids entries
  have same : order.sortSiblings entries siblings = siblings.mergeSort (fun left right =>
      (order.compareRecords entries[left]? entries[right]?).isLE) := by
    have mapped := @List.map_mergeSort _ _ (fun left right => (order.compareIds entries left right).isLE)
      (fun left right => (order.compareRecords entries[left]? entries[right]?).isLE) id siblings
      (fun left first right second => by rw [compareIds_live (live _ first) (live _ second)]; rfl)
    rwa [List.map_id, List.map_id] at mapped
  rw [ordered_iff (fun sibling member => live sibling (sortSiblings_perm.mem_iff.mp member)), same]
  exact @List.pairwise_mergeSort _ (fun left right =>
    (order.compareRecords entries[left]? entries[right]?).isLE)
    (fun _ _ _ => byRecord.isLE_trans) (@isLE_total _ _ byRecord) siblings

theorem mergeSiblings_ordered (lawful : order.Lawful) (ordered : order.Ordered entries siblings)
    (ordered' : order.Ordered entries incoming)
    (live : ∀ sibling ∈ siblings ++ incoming, entries[sibling]?.isSome = true) :
    order.Ordered entries (order.mergeSiblings entries siblings incoming) := by
  have byRecord := lawful.ids entries
  have first := fun sibling member => live sibling (List.mem_append_left incoming member)
  have second := fun sibling member => live sibling (List.mem_append_right siblings member)
  have same : order.mergeSiblings entries siblings incoming = siblings.merge incoming (fun left right =>
      (order.compareRecords entries[left]? entries[right]?).isLE) := by
    have mapped := @List.map_merge _ _ id (fun left right => (order.compareIds entries left right).isLE)
      (fun left right => (order.compareRecords entries[left]? entries[right]?).isLE) siblings incoming
      (fun left here right there => by rw [compareIds_live (first _ here) (second _ there)]; rfl)
    rwa [List.map_id, List.map_id, List.map_id] at mapped
  rw [ordered_iff first] at ordered
  rw [ordered_iff second] at ordered'
  rw [ordered_iff (fun sibling member => live sibling (mergeSiblings_perm.mem_iff.mp member)), same]
  exact @List.pairwise_merge _ (fun left right =>
    (order.compareRecords entries[left]? entries[right]?).isLE)
    (fun _ _ _ => byRecord.isLE_trans) (@isLE_total _ _ byRecord) siblings incoming ordered ordered'

end Siblings

end SiblingOrder

end Mille
