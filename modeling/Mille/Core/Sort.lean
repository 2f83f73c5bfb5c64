import Mille.Core.Entry

/-! Sibling order: the comparison of entries and the three ways the store
places ids in a sibling list (binary search, stable sort, merge of a page). -/

namespace Mille

inductive SortBy where
  | name | type | modified
  deriving DecidableEq

/-- A compiled collator; policies compare by its locale only. -/
structure LocaleCollation where
  locale : String
  collator : String → String → Ordering

structure SiblingOrder where
  sortBy : SortBy
  caseSensitive : Bool
  foldersOnTop : Bool
  localeCollation : Option LocaleCollation

namespace SiblingOrder

instance : Inhabited SiblingOrder := ⟨⟨.name, false, true, none⟩⟩

def locale (order : SiblingOrder) : Option String :=
  order.localeCollation.map (·.locale)

/-- `PartialEq for SiblingOrder`. -/
def same (left right : SiblingOrder) : Bool :=
  left.sortBy = right.sortBy && left.caseSensitive = right.caseSensitive &&
    left.foldersOnTop = right.foldersOnTop && left.locale = right.locale

/-- The text after the last dot, unless nothing stands before that dot. -/
def extension (name : String) : String :=
  let reversed := name.toList.reverse
  match reversed.dropWhile (· ≠ '.') with
  | [] => ""
  | [_] => ""
  | _ :: _ => String.ofList (reversed.takeWhile (· ≠ '.')).reverse

def isAsciiDigit (byte : UInt8) : Bool :=
  48 ≤ byte && byte ≤ 57

def toAsciiLowercase (byte : UInt8) : UInt8 :=
  if 65 ≤ byte && byte ≤ 90 then byte + 32 else byte

/-- The loop of `natural_name_cmp_case`; `eq` when one name is used up. -/
def naturalScan (caseSensitive : Bool) : Nat → List UInt8 → List UInt8 → Ordering
  | fuel + 1, a :: as, b :: bs =>
    if isAsciiDigit a && isAsciiDigit b then
      let aRun := (a :: as).takeWhile isAsciiDigit
      let bRun := (b :: bs).takeWhile isAsciiDigit
      let aSig := aRun.dropWhile (· = 48)
      let bSig := bRun.dropWhile (· = 48)
      (compare aSig.length bSig.length).then <| (compare aSig bSig).then <|
        (compare aRun.length bRun.length).then <|
          naturalScan caseSensitive fuel ((a :: as).dropWhile isAsciiDigit)
            ((b :: bs).dropWhile isAsciiDigit)
    else
      (if caseSensitive then .eq else compare (toAsciiLowercase a) (toAsciiLowercase b)).then <|
        (compare a b).then <| naturalScan caseSensitive fuel as bs
  | _, _, _ => .eq

def asBytes (name : String) : List UInt8 :=
  name.toByteArray.data.toList

def naturalNameCmpCase (left right : String) (caseSensitive : Bool) : Ordering :=
  let a := asBytes left
  let b := asBytes right
  -- Every round of the loop uses up a byte of each name.
  (naturalScan caseSensitive a.length a b).then (compare a.length b.length)

def compareNames (order : SiblingOrder) (left right : String) : Ordering :=
  match order.localeCollation with
  | some collation =>
    (collation.collator left right).then (naturalNameCmpCase left right order.caseSensitive)
  | none => naturalNameCmpCase left right order.caseSensitive

def compareEntries (order : SiblingOrder) (left right : Entry) : Ordering :=
  let grouping :=
    if order.foldersOnTop then compare (!left.isFolder) (!right.isFolder) else .eq
  let primary : Ordering :=
    match order.sortBy with
    | .name => .eq
    | .type => order.compareNames (extension left.name) (extension right.name)
    | .modified => compare right.mtimeMs left.mtimeMs
  grouping.then (primary.then (order.compareNames left.name right.name))

/-- The comparison of two sibling ids; ids without a record compare by number. -/
def compareIds (order : SiblingOrder) (entries : IdMap Entry) (left right : EntryId) : Ordering :=
  match entries[left]?, entries[right]? with
  | some leftEntry, some rightEntry => order.compareEntries leftEntry rightEntry
  | _, _ => compare left right

end SiblingOrder

variable {α : Type}

/-- The halving loop of `slice::binary_search_by`: where the last probe stands. -/
def binarySearchLoop (probe : α → Ordering) (items : List α) : Nat → Nat → Nat → Nat
  | fuel + 1, base, size =>
    if size > 1 then
      let half := size / 2
      let mid := base + half
      let base := if (items[mid]?).map probe = some .gt then base else mid
      binarySearchLoop probe items fuel base (size - half)
    else base
  | 0, base, _ => base

/-- `binary_search_by(..).unwrap_or_else(|position| position)`. -/
def binarySearchBy (probe : α → Ordering) (items : List α) : Nat :=
  let base := binarySearchLoop probe items items.length 0 items.length
  match items[base]? with
  | none => 0
  | some item => if probe item = .lt then base + 1 else base

namespace SiblingOrder

/-- Places an id at its binary-search position. -/
def insertSorted (order : SiblingOrder) (entries : IdMap Entry) (id : EntryId)
    (siblings : List EntryId) : List EntryId :=
  siblings.insertIdx (binarySearchBy (fun sibling => order.compareIds entries sibling id) siblings) id

/-- `sort_by`: a stable sort. -/
def sortSiblings (order : SiblingOrder) (entries : IdMap Entry) (siblings : List EntryId) :
    List EntryId :=
  siblings.mergeSort (fun left right => (order.compareIds entries left right).isLE)

/-- One linear merge of a sorted page into a sorted list; old ids win ties. -/
def mergeSiblings (order : SiblingOrder) (entries : IdMap Entry) (siblings incoming : List EntryId) :
    List EntryId :=
  siblings.merge incoming (fun left right => (order.compareIds entries left right).isLE)

end SiblingOrder

variable {probe : α → Ordering} {items : List α}

theorem binarySearchLoop_lt {fuel base size : Nat} (room : base + size ≤ items.length)
    (some : 0 < size) : binarySearchLoop probe items fuel base size < items.length := by
  induction fuel generalizing base size with
  | zero =>
    simp only [binarySearchLoop]
    omega
  | succ fuel ih =>
    unfold binarySearchLoop
    split
    · refine ih ?_ (by omega)
      split <;> omega
    · omega

theorem binarySearchBy_le : binarySearchBy probe items ≤ items.length := by
  unfold binarySearchBy
  simp only
  cases found : items[binarySearchLoop probe items items.length 0 items.length]? with
  | none => exact Nat.zero_le _
  | some item =>
    have inside := (List.getElem?_eq_some_iff.mp found).1
    dsimp only
    split <;> omega

namespace SiblingOrder

variable {order : SiblingOrder} {entries : IdMap Entry} {id : EntryId}
variable {siblings incoming : List EntryId}

theorem insertSorted_perm : (order.insertSorted entries id siblings).Perm (id :: siblings) :=
  List.perm_insertIdx id siblings binarySearchBy_le

theorem sortSiblings_perm : (order.sortSiblings entries siblings).Perm siblings :=
  List.mergeSort_perm ..

theorem mergeSiblings_perm :
    (order.mergeSiblings entries siblings incoming).Perm (siblings ++ incoming) :=
  List.merge_perm_append _

end SiblingOrder

end Mille
