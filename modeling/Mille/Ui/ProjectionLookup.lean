import Mathlib
import Mille.Ui.ProjectionSearch

/-! Lookups over a run of projection calls: the reads are slices of the rows, and the exact
lookup is exact but for the rows its search misses. -/

namespace Mille.Ui

variable {Row Id : Type} [DecidableEq Id] {rowId : Row → Id} {rows : List Row}

/-- The index of the row with the id, -1 when no row has it. -/
def IsIndexOf (rowId : Row → Id) (rows : List Row) (id : Id) (result : Int) : Prop :=
  (result = -1 ∧ ∀ row ∈ rows, rowId row ≠ id) ∨
    ∃ (index : Nat) (row : Row), rows[index]? = some row ∧ rowId row = id ∧ result = index

omit [DecidableEq Id] in
theorem Located.isIndexOf_iff {id : Id} {position : Option Nat} (located : Located rowId rows id position)
    (result : Int) : IsIndexOf rowId rows id result ↔ result = placed position := by
  unfold IsIndexOf
  cases position with
  | none =>
    have absent (index : Nat) (row : Row) (there : rows[index]? = some row) : rowId row ≠ id := by
      intro named
      cases (located.here index row there).mp named
    constructor
    · rintro (⟨nowhere, _⟩ | ⟨index, row, there, named, _⟩)
      · exact nowhere
      · exact absurd named (absent index row there)
    · intro nowhere
      left
      refine ⟨nowhere, fun row member => ?_⟩
      obtain ⟨index, there⟩ := List.mem_iff_getElem?.mp member
      exact absent index row there
  | some index =>
    have there := List.getElem?_eq_getElem (located.inside index rfl)
    have named := (located.here index _ there).mpr rfl
    constructor
    · rintro (⟨_, absent⟩ | ⟨other, row, found, same, value⟩)
      · exact absurd named (absent _ (List.mem_of_getElem? there))
      · cases (located.here other row found).mp same
        exact value
    · intro value
      exact .inr ⟨index, _, there, named, value⟩

namespace Projection

variable {snapshot : Snapshot Row Id} {projection : Projection Row}

section Calls

variable (describes : snapshot.Describes rowId rows) (coherent : Coherent rows projection)
include describes coherent

/-- Any budget finds the place of the id or nothing, and lists no rows. -/
theorem findRowIndex_sound {id : Id} {position : Option Nat} (located : Located rowId rows id position)
    (hintIndex maxProbeRows : Int) :
    let result := findRowIndex rowId snapshot id projection hintIndex maxProbeRows
    (result.1 = -1 ∨ result.1 = placed position) ∧ Coherent rows result.2 ∧
      result.2.cachedAllRows = projection.cachedAllRows := by
  intro result
  have value : result = findRowIndex rowId snapshot id projection hintIndex maxProbeRows := rfl
  unfold findRowIndex at value
  split at value
  · rw [value]
    exact ⟨.inl rfl, coherent, rfl⟩
  · split at value
    · rename_i cached all
      rw [value]
      refine ⟨.inr ?_, coherent, rfl⟩
      have whole := (@findIndex_slice Row Id _ rowId rows id position located 0 rows.length le_rfl)
      have same : slice rows 0 rows.length = rows := by
        unfold slice
        simp
      rw [same] at whole
      rw [coherent.all cached all, whole]
      cases position with
      | none => rfl
      | some index =>
        have inside := located.inside index rfl
        have here : placed (some index) = index := rfl
        rw [here, if_pos (by omega)]
        omega
    · rename_i unlisted
      have searching : Searching rows ⟨projection, [], 0⟩ := ⟨coherent, unlisted⟩
      obtain ⟨first, probed⟩ := @probe_sound _ _ _ _ _ _ _ _ describes located maxProbeRows
        (baseStart snapshot.visibleRowCount hintIndex) _ searching
      dsimp only at value
      split at value
      · rw [value]
        exact ⟨first, probed.coherent, probed.listed.trans unlisted.symm⟩
      · obtain ⟨last, searched⟩ := @rounds_sound _ _ _ _ _ _ _ _ describes located maxProbeRows
          (baseStart snapshot.visibleRowCount hintIndex) snapshot.visibleRowCount.toNat
          chunkSize _ probed
        rw [value]
        exact ⟨last, searched.coherent, searched.listed.trans unlisted.symm⟩

theorem findExactRowIndex_keeps (id : Id) (hintIndex : Int) :
    let result := findExactRowIndex rowId snapshot id projection hintIndex
    Coherent rows result.2 ∧ result.2.cachedAllRows = projection.cachedAllRows := by
  intro result
  have value : result = findExactRowIndex rowId snapshot id projection hintIndex := rfl
  unfold findExactRowIndex at value
  split at value
  · rw [value]
    exact ⟨coherent, rfl⟩
  · split at value
    · rw [value]
      exact ⟨coherent, rfl⟩
    · rw [value]
      exact (findRowIndex_sound describes coherent (located describes.distinct id) hintIndex _).2

/-- A call leaves the caches coherent; only the read of all rows lists them. -/
theorem after_call (call : ProjectionCall Id) :
    Coherent rows (projection.after rowId snapshot call) ∧
      ((projection.after rowId snapshot call).cachedAllRows = none ↔
        call ≠ .readAllRows ∧ projection.cachedAllRows = none) := by
  cases call with
  | readRows offset limit =>
    obtain ⟨_, kept, listed⟩ := readRows_eq describes coherent offset limit
    refine ⟨kept, ?_⟩
    change (projection.readRows snapshot offset limit).2.cachedAllRows = none ↔ _
    rw [listed]
    simp
  | readIds offset limit =>
    obtain ⟨_, kept, listed⟩ := readIds_eq describes coherent offset limit
    refine ⟨kept, ?_⟩
    change (projection.readIds snapshot rowId offset limit).2.cachedAllRows = none ↔ _
    rw [listed]
    simp
  | readAllRows =>
    refine ⟨(readAllRows_eq describes coherent).2, ?_⟩
    change (projection.readAllRows snapshot).2.cachedAllRows = none ↔ _
    unfold readAllRows
    split
    · rename_i cached all
      simp [all]
    · simp
  | findRowIndex id hintIndex maxProbeRows =>
    obtain ⟨_, kept, listed⟩ := findRowIndex_sound describes coherent
      (located describes.distinct id) hintIndex maxProbeRows
    refine ⟨kept, ?_⟩
    change (findRowIndex rowId snapshot id projection hintIndex maxProbeRows).2.cachedAllRows =
      none ↔ _
    rw [listed]
    simp
  | findExactRowIndex id hintIndex =>
    obtain ⟨kept, listed⟩ := findExactRowIndex_keeps describes coherent id hintIndex
    refine ⟨kept, ?_⟩
    change (findExactRowIndex rowId snapshot id projection hintIndex).2.cachedAllRows = none ↔ _
    rw [listed]
    simp

theorem after_calls (calls : List (ProjectionCall Id)) :
    Coherent rows (calls.foldl (Projection.after rowId snapshot) projection) ∧
      ((calls.foldl (Projection.after rowId snapshot) projection).cachedAllRows = none ↔
        .readAllRows ∉ calls ∧ projection.cachedAllRows = none) := by
  induction calls generalizing projection with
  | nil => exact ⟨coherent, by simp⟩
  | cons call calls ih =>
    obtain ⟨kept, listed⟩ := after_call describes coherent call
    obtain ⟨last, whole⟩ := ih kept
    refine ⟨last, ?_⟩
    rw [List.foldl_cons, whole, listed, List.mem_cons]
    have turned : ProjectionCall.readAllRows = call ↔ call = .readAllRows := eq_comm
    rw [not_or, turned]
    tauto

end Calls

section Budget

theorem baseStart_fits (known hintIndex : Int) : 0 ≤ baseStart known hintIndex ∧
    baseStart known hintIndex + chunkSize ≤ max chunkSize known := by
  unfold baseStart chunkSize
  dsimp only
  omega

variable (describes : snapshot.Describes rowId rows)
include describes

/-- The first chunk holds its rows, or the search starts around it with nothing missed. -/
theorem findRowIndex_whole {id : Id} {position : Option Nat} (located : Located rowId rows id position)
    (coherent : Coherent rows projection) (unlisted : projection.cachedAllRows = none)
    (hintIndex : Int) (low : 0 ≤ placed position) :
    (findRowIndex rowId snapshot id projection hintIndex rows.length).1 =
      if Missed rows.length (baseStart rows.length hintIndex) (placed position) then -1
      else placed position := by
  have count := describes.count
  have high := located.placed_lt low
  have searching : Searching rows ⟨projection, [], 0⟩ := ⟨coherent, unlisted⟩
  obtain ⟨inside, clamped⟩ := baseStart_fits rows.length hintIndex
  have start : max 0 (min (snapshot.visibleRowCount - 1) (baseStart rows.length hintIndex)) =
      baseStart rows.length hintIndex := by
    unfold chunkSize at clamped
    omega
  have fresh : max 0 (min (snapshot.visibleRowCount - 1) (baseStart rows.length hintIndex)) ∉
      (⟨projection, [], 0⟩ : Search Row).visited := List.not_mem_nil
  have room : (⟨projection, [], 0⟩ : Search Row).probedRows < rows.length := by
    change (0 : Int) < rows.length
    omega
  obtain ⟨value, probing, visited, probed⟩ := probe_fresh describes located searching fresh room
  rw [start] at value visited probed
  rw [count] at value probed
  dsimp only at value visited probed
  unfold findRowIndex
  rw [unlisted, if_neg (by omega), count]
  dsimp only
  by_cases hit : 0 ≤ placed position ∧ baseStart rows.length hintIndex ≤ placed position ∧
      placed position < baseStart rows.length hintIndex + min chunkSize
        (min ((rows.length : Int) - baseStart rows.length hintIndex) (rows.length - 0))
  · have here := value.trans (if_pos hit)
    rw [if_pos (by omega)]
    have reached : ¬Missed rows.length (baseStart rows.length hintIndex) (placed position) := by
      unfold Missed chunkSize at *
      omega
    rw [if_neg reached]
    exact here
  · have nowhere := value.trans (if_neg hit)
    have fits : baseStart rows.length hintIndex + chunkSize ≤ rows.length := by
      unfold chunkSize at *
      omega
    have first : (chunkSize : Int) = chunkSize * (0 + 1) := by ring
    have after : After rows rows.length (baseStart rows.length hintIndex) 0
        (probe rowId snapshot id rows.length (baseStart rows.length hintIndex)
          ⟨projection, [], 0⟩).2 := by
      refine ⟨probing, ?_, fun _ other member => ?_, fun _ above => ?_, fun _ below => ?_⟩
      · rw [probed]
        unfold charged upCharge downCharge above
        unfold chunkSize at *
        split_ifs <;> omega
      · rw [visited, List.mem_singleton] at member
        rw [member]
        simp
      · exfalso
        unfold chunkSize at *
        omega
      · rw [visited, List.mem_singleton]
        unfold chunkSize at *
        omega
    have far : Far (baseStart rows.length hintIndex) 0 (placed position) := by
      unfold Far
      unfold chunkSize at *
      omega
    rw [if_neg (by rw [nowhere]; decide)]
    have searched := rounds_exact describes located inside fits low rows.length le_rfl (by omega) after far
    rw [← first] at searched
    exact searched

end Budget

section Lookups

/-- What lookups promise: reads are slices, a bounded search never names another row, and
the exact lookup names the row or its absence. -/
structure Exact (rowId : Row → Id) (snapshot : Snapshot Row Id) (rows : List Row)
    (projection : Projection Row) (id : Id) (hintIndex maxProbeRows offset limit : Int) : Prop where
  exactly : IsIndexOf rowId rows id (findExactRowIndex rowId snapshot id projection hintIndex).1
  bounded : (findRowIndex rowId snapshot id projection hintIndex maxProbeRows).1 = -1 ∨
    IsIndexOf rowId rows id (findRowIndex rowId snapshot id projection hintIndex maxProbeRows).1
  someRows : (projection.readRows snapshot offset limit).1 = slice rows offset limit
  someIds : (projection.readIds snapshot rowId offset limit).1 = (slice rows offset limit).map rowId
  allRows : (projection.readAllRows snapshot).1 = rows

/-- All rows were read before, the snapshot finds indices itself, or the search from the
hint comes to every row with the id. -/
def Comes (rowId : Row → Id) (snapshot : Snapshot Row Id) (rows : List Row)
    (calls : List (ProjectionCall Id)) (id : Id) (hintIndex : Int) : Prop :=
  .readAllRows ∈ calls ∨ snapshot.visibleRowIndex ≠ none ∨
    ∀ (index : Nat) (row : Row), rows[index]? = some row → rowId row = id →
      ¬Missed rows.length (baseStart rows.length hintIndex) index

variable (describes : snapshot.Describes rowId rows)
include describes

theorem findExactRowIndex_known (coherent : Coherent rows projection) (id : Id) (hintIndex : Int)
    (known : projection.cachedAllRows ≠ none ∨ snapshot.visibleRowIndex ≠ none) :
    (findExactRowIndex rowId snapshot id projection hintIndex).1 =
      placed (rows.findIdx? fun row => rowId row = id) := by
  unfold findExactRowIndex
  split
  · rename_i cached all
    rw [coherent.all cached all]
    exact findIndex_eq id
  · rename_i unlisted
    split
    · rename_i find given
      change (find id).getD (-1) = _
      rw [describes.index find given id]
      cases rows.findIdx? (fun row => decide (rowId row = id)) with
      | none => rfl
      | some index => rfl
    · rename_i without
      rcases known with listed | given
      · exact absurd unlisted listed
      · exact absurd without given

theorem findExactRowIndex_searched (coherent : Coherent rows projection) (id : Id)
    (hintIndex : Int) (unlisted : projection.cachedAllRows = none)
    (without : snapshot.visibleRowIndex = none) {position : Option Nat}
    (located : Located rowId rows id position) :
    (findExactRowIndex rowId snapshot id projection hintIndex).1 =
      if Missed rows.length (baseStart rows.length hintIndex) (placed position) then -1
      else placed position := by
  unfold findExactRowIndex
  rw [unlisted, without, describes.count]
  dsimp only
  by_cases low : 0 ≤ placed position
  · exact findRowIndex_whole describes located coherent unlisted hintIndex low
  · have nowhere : placed position = -1 := by
      cases position with
      | none => rfl
      | some index => exact absurd (Int.natCast_nonneg index) low
    have sound := (findRowIndex_sound describes coherent located hintIndex rows.length).1
    rw [nowhere] at sound ⊢
    rw [or_self_iff.mp sound, ite_self]

/-- Windowed lookup is exact, after any calls, exactly when the lookup comes to the row. -/
theorem lookups_exact_iff (calls : List (ProjectionCall Id)) (id : Id)
    (hintIndex maxProbeRows offset limit : Int) :
    Exact rowId snapshot rows (calls.foldl (Projection.after rowId snapshot) (initial snapshot))
        id hintIndex maxProbeRows offset limit ↔
      Comes rowId snapshot rows calls id hintIndex := by
  obtain ⟨coherent, listed⟩ := after_calls describes (coherent_initial describes) calls
  have place := located describes.distinct id
  generalize calls.foldl (Projection.after rowId snapshot) (initial snapshot) = projection at *
  have lookup : IsIndexOf rowId rows id (findExactRowIndex rowId snapshot id projection hintIndex).1 ↔
      Comes rowId snapshot rows calls id hintIndex := by
    rw [place.isIndexOf_iff]
    by_cases cached : projection.cachedAllRows = none
    · by_cases without : snapshot.visibleRowIndex = none
      · rw [findExactRowIndex_searched describes coherent id hintIndex cached without place]
        unfold Comes
        have unread := (listed.mp cached).1
        constructor
        · intro value
          refine .inr (.inr fun index row there named missed => ?_)
          rw [(place.here index row there).mp named] at value
          rw [show placed (some index) = index from rfl, if_pos missed] at value
          omega
        · intro comes
          have reached := (comes.resolve_left unread).resolve_left (not_not.mpr without)
          cases first : rows.findIdx? (fun row => decide (rowId row = id)) with
          | none => exact ite_self _
          | some index =>
            have there := List.getElem?_eq_getElem (place.inside index first)
            exact if_neg (reached index _ there ((place.here index _ there).mpr first))
      · have value := findExactRowIndex_known describes coherent id hintIndex (.inr without)
        exact iff_of_true value (.inr (.inl without))
    · have value := findExactRowIndex_known describes coherent id hintIndex (.inl cached)
      refine iff_of_true value ?_
      by_cases read : .readAllRows ∈ calls
      · exact .inl read
      · refine .inr (.inr fun index row there _ => ?_)
        have empty : snapshot.visibleRowCount = 0 := by
          by_contra count
          exact cached (listed.mpr ⟨read, if_neg count⟩)
        have bound := (List.getElem?_eq_some_iff.mp there).1
        have count := describes.count
        omega
  constructor
  · intro promised
    exact lookup.mp promised.exactly
  · intro comes
    refine ⟨lookup.mpr comes, ?_, (readRows_eq describes coherent offset limit).1,
      (readIds_eq describes coherent offset limit).1, (readAllRows_eq describes coherent).1⟩
    rw [place.isIndexOf_iff]
    exact (findRowIndex_sound describes coherent place hintIndex maxProbeRows).1

end Lookups

/-- A snapshot that reads its rows, each its own id, from a list and does nothing more. -/
def listing (rows : List Nat) : Snapshot Nat Nat := ⟨rows.length, slice rows, none, none⟩

theorem listing_describes {rows : List Nat} (distinct : rows.Nodup) :
    (listing rows).Describes id rows :=
  ⟨rfl, fun _ _ _ _ _ => rfl, fun _ impossible => (by cases impossible),
    fun _ impossible => (by cases impossible), rows.map_id.symm ▸ distinct⟩

theorem lookups_exact_iff_read : Exact id (listing [4, 5, 6]) [4, 5, 6]
    ([.readRows 1 2].foldl (Projection.after id (listing [4, 5, 6])) (initial (listing [4, 5, 6])))
      6 0 16384 0 3 := by
  apply (lookups_exact_iff (listing_describes (by decide)) _ _ _ _ _ _).mpr
  refine .inr (.inr fun index row there _ => ?_)
  have first : baseStart ([4, 5, 6] : List Nat).length 0 = 0 := by decide
  rw [first]
  unfold Missed chunkSize
  omega

/-- From the hint 511 the search over 512 rows probes the last row twice, and its budget
ends before row 255. -/
theorem lookup_misses_row : (listing (List.range 512)).Describes id (List.range 512) ∧
    (List.range 512)[255]? = some 255 ∧
    (findExactRowIndex id (listing (List.range 512)) 255 (initial (listing (List.range 512))) 511).1 =
      -1 := by
  have describes := listing_describes (@List.nodup_range 512)
  have there : (List.range 512)[255]? = some 255 := List.getElem?_range (by decide)
  have place := located describes.distinct 255
  have position := (place.here 255 255 there).mp rfl
  rw [position] at place
  have unlisted : (initial (listing (List.range 512))).cachedAllRows = none := by
    unfold initial listing
    rw [List.length_range]
    rfl
  refine ⟨describes, there, ?_⟩
  have searched := findExactRowIndex_searched describes (coherent_initial describes) 255 511 unlisted
    rfl place
  rw [searched, List.length_range]
  exact if_pos (by decide)

end Projection

end Mille.Ui
