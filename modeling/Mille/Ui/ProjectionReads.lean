import Mathlib
import Mille.Ui.TreeProjection

/-! Reads through the caches are reads of the row list, and the outward search finds an id
unless the chunks it probed twice used up its budget. -/

namespace Mille.Ui

variable {Row Id : Type} [DecidableEq Id] {rowId : Row → Id} {rows : List Row}

section Slices

theorem getElem?_slice (rows : List Row) {offset limit : Int} (index : Nat) :
    (slice rows offset limit)[index]? =
      if (index : Int) < limit then rows[offset.toNat + index]? else none := by
  unfold slice
  rw [List.getElem?_take, List.getElem?_drop]
  by_cases inside : (index : Int) < limit
  · rw [if_pos (by omega), if_pos inside]
  · rw [if_neg (by omega), if_neg inside]

theorem slice_clamped (rows : List Row) (offset limit : Int) :
    slice rows (max 0 (min (rows.length : Int) offset))
      (max 0 (min ((rows.length : Int) - max 0 (min (rows.length : Int) offset)) limit)) =
        slice rows offset limit := by
  apply List.ext_getElem?
  intro index
  rw [getElem?_slice, getElem?_slice]
  by_cases past : (rows.length : Int) ≤ offset
  · have none_left : rows[offset.toNat + index]? = none := List.getElem?_eq_none (by omega)
    rw [if_neg (by omega), none_left]
    simp
  · have start : (max 0 (min (rows.length : Int) offset)).toNat = offset.toNat := by omega
    rw [start]
    by_cases inside : (index : Int) < limit
    · rw [if_pos inside]
      by_cases within : offset.toNat + index < rows.length
      · rw [if_pos (by omega)]
      · rw [if_neg (by omega), List.getElem?_eq_none (by omega)]
    · rw [if_neg inside, if_neg (by omega)]

theorem slice_empty (rows : List Row) {offset limit : Int} (nothing : limit ≤ 0) :
    slice rows offset limit = [] := by
  unfold slice
  rw [Int.toNat_of_nonpos nothing, List.take_zero]

end Slices

/-- The one row with the id is at this place, if there is one. -/
structure Located (rowId : Row → Id) (rows : List Row) (id : Id) (position : Option Nat) : Prop where
  here : ∀ (index : Nat) (row : Row), rows[index]? = some row → (rowId row = id ↔ position = some index)
  inside : ∀ index, position = some index → index < rows.length

theorem located (distinct : (rows.map rowId).Nodup) (id : Id) :
    Located rowId rows id (rows.findIdx? fun row => rowId row = id) := by
  have unique {first second : Nat} {row other : Row} (one : rows[first]? = some row)
      (two : rows[second]? = some other) (same : rowId row = rowId other) : first = second := by
    obtain ⟨bound, _⟩ := List.getElem?_eq_some_iff.mp one
    apply (List.getElem?_inj (by rwa [List.length_map]) distinct).mp
    rw [List.getElem?_map, List.getElem?_map, one, two, Option.map_some, Option.map_some, same]
  constructor
  · intro index row found
    constructor
    · intro named
      obtain ⟨bound, same⟩ := List.getElem?_eq_some_iff.mp found
      cases first : rows.findIdx? (fun row => decide (rowId row = id)) with
      | none =>
        have absent := List.findIdx?_eq_none_iff.mp first row (List.mem_of_getElem? found)
        simp [named] at absent
      | some other =>
        obtain ⟨inside, hit, _⟩ := List.findIdx?_eq_some_iff_getElem.mp first
        have twin := unique (List.getElem?_eq_getElem inside) found
          ((of_decide_eq_true hit).trans named.symm)
        rw [twin]
    · intro first
      obtain ⟨inside, hit, _⟩ := List.findIdx?_eq_some_iff_getElem.mp first
      rw [List.getElem?_eq_getElem inside] at found
      cases found
      exact of_decide_eq_true hit
  · intro index first
    obtain ⟨inside, _, _⟩ := List.findIdx?_eq_some_iff_getElem.mp first
    exact inside

/-- The place of the id as the searches report it. -/
def placed : Option Nat → Int
  | some index => index
  | none => -1

omit [DecidableEq Id] in
theorem Located.placed_lt {id : Id} {position : Option Nat} (located : Located rowId rows id position)
    (somewhere : 0 ≤ placed position) : placed position < rows.length := by
  cases position with
  | none => cases somewhere
  | some index => exact Int.ofNat_lt.mpr (located.inside index rfl)

theorem findIndex_eq (id : Id) :
    findIndex rowId rows id = placed (rows.findIdx? fun row => rowId row = id) := by
  unfold findIndex
  cases rows.findIdx? (fun row => decide (rowId row = id)) with
  | some index => rfl
  | none => rfl

/-- A search of a slice finds the id when its place is inside. -/
theorem findIndex_slice {id : Id} {position : Option Nat} (located : Located rowId rows id position)
    {offset limit : Int} (start : 0 ≤ offset) :
    findIndex rowId (slice rows offset limit) id =
      if 0 ≤ placed position ∧ offset ≤ placed position ∧ placed position < offset + limit then
        placed position - offset else -1 := by
  rw [findIndex_eq]
  cases first : (slice rows offset limit).findIdx? (fun row => decide (rowId row = id)) with
  | some index =>
    obtain ⟨inside, hit, _⟩ := List.findIdx?_eq_some_iff_getElem.mp first
    have there := List.getElem?_eq_getElem inside
    rw [getElem?_slice] at there
    split at there
    · rename_i within
      have known := (located.here _ _ there).mp (of_decide_eq_true hit)
      subst known
      have value : placed (some (offset.toNat + index)) = offset + index := by
        simp only [placed]
        omega
      have here : placed (some index) = index := rfl
      rw [value, here, if_pos (by omega)]
      omega
    · cases there
  | none =>
    have absent := List.findIdx?_eq_none_iff.mp first
    cases position with
    | none => simp [placed]
    | some index =>
      have value : placed (some index) = index := rfl
      have nowhere : placed none = -1 := rfl
      rw [value, nowhere, if_neg]
      rintro ⟨_, low, high⟩
      have bound := located.inside index rfl
      have row := List.getElem?_eq_getElem bound
      have there : (slice rows offset limit)[index - offset.toNat]? = some rows[index] := by
        rw [getElem?_slice, if_pos (by omega), ← row]
        congr 1
        omega
      have named := (located.here index _ row).mpr rfl
      have miss := absent _ (List.mem_of_getElem? there)
      simp [named] at miss

namespace Projection

variable {snapshot : Snapshot Row Id} {projection : Projection Row}

/-- The caches hold rows of the list. -/
structure Coherent (rows : List Row) (projection : Projection Row) : Prop where
  window : ∀ window, projection.cachedWindow = some window →
    window.rows = slice rows window.offset window.limit
  all : ∀ cached, projection.cachedAllRows = some cached → cached = rows

variable (describes : snapshot.Describes rowId rows)
include describes

theorem coherent_initial : Coherent rows (initial snapshot) := by
  refine ⟨fun _ impossible => (by cases impossible), fun cached whole => ?_⟩
  simp only [initial] at whole
  split at whole
  · rename_i empty
    cases whole
    have length : rows.length = 0 := by
      have count := describes.count
      omega
    exact (List.eq_nil_of_length_eq_zero length).symm
  · cases whole

theorem safe_reads (offset limit : Int) :
    0 ≤ safeOffset snapshot offset ∧ 0 ≤ safeLimit snapshot offset limit ∧
      safeOffset snapshot offset + safeLimit snapshot offset limit ≤ rows.length ∧
      slice rows (safeOffset snapshot offset) (safeLimit snapshot offset limit) =
        slice rows offset limit := by
  have count := describes.count
  unfold safeLimit safeOffset
  rw [count]
  refine ⟨by omega, by omega, by omega, slice_clamped rows offset limit⟩

variable (coherent : Coherent rows projection)
include coherent

/-- A read returns its slice, leaves the caches coherent and lists no rows. -/
theorem readRows_eq (offset limit : Int) :
    (projection.readRows snapshot offset limit).1 = slice rows offset limit ∧
      Coherent rows (projection.readRows snapshot offset limit).2 ∧
      (projection.readRows snapshot offset limit).2.cachedAllRows = projection.cachedAllRows := by
  obtain ⟨start, count, inside, same⟩ := safe_reads describes offset limit
  have read := describes.reads _ _ start count inside
  unfold readRows
  dsimp only
  split
  · rename_i nothing
    rw [nothing, slice_empty rows le_rfl] at same
    exact ⟨same, coherent, rfl⟩
  · split
    · rename_i cached all
      rw [coherent.all cached all]
      exact ⟨same, coherent, rfl⟩
    · rename_i noneListed
      have fresh : Coherent rows { projection with cachedWindow := some ⟨safeOffset snapshot offset,
          safeLimit snapshot offset limit, snapshot.visibleRows (safeOffset snapshot offset)
            (safeLimit snapshot offset limit)⟩ } := by
        refine ⟨fun window cached => ?_, coherent.all⟩
        cases cached
        exact read
      split
      · rename_i window cached
        split
        · rename_i hit
          refine ⟨?_, coherent, rfl⟩
          rw [coherent.window window cached, hit.1, hit.2, same]
        · exact ⟨read.trans same, fresh, rfl⟩
      · exact ⟨read.trans same, fresh, rfl⟩

theorem readIds_eq (offset limit : Int) :
    (projection.readIds snapshot rowId offset limit).1 = (slice rows offset limit).map rowId ∧
      Coherent rows (projection.readIds snapshot rowId offset limit).2 ∧
      (projection.readIds snapshot rowId offset limit).2.cachedAllRows =
        projection.cachedAllRows := by
  obtain ⟨start, count, inside, same⟩ := safe_reads describes offset limit
  unfold readIds
  dsimp only
  split
  · rename_i nothing
    rw [nothing, slice_empty rows le_rfl] at same
    rw [← same]
    exact ⟨rfl, coherent, rfl⟩
  · split
    · rename_i cached all
      rw [coherent.all cached all, same]
      exact ⟨rfl, coherent, rfl⟩
    · split
      · rename_i read listed
        rw [← same]
        exact ⟨describes.ids read listed _ _ start count inside, coherent, rfl⟩
      · obtain ⟨value, after, unlisted⟩ := readRows_eq describes coherent (safeOffset snapshot offset)
          (safeLimit snapshot offset limit)
        rw [value, same]
        exact ⟨rfl, after, unlisted⟩

theorem readAllRows_eq : (projection.readAllRows snapshot).1 = rows ∧
    Coherent rows (projection.readAllRows snapshot).2 := by
  unfold readAllRows
  split
  · rename_i cached all
    exact ⟨coherent.all cached all, coherent⟩
  · have count := describes.count
    have read := describes.reads 0 rows.length le_rfl (by omega) (by omega)
    have whole : slice rows 0 rows.length = rows := by
      unfold slice
      simp
    rw [count, read, whole]
    exact ⟨rfl, ⟨coherent.window, fun cached whole => (Option.some.inj whole).symm⟩⟩

end Projection

end Mille.Ui
