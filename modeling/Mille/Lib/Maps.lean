import Mathlib

/-! Lookup laws of ordered maps in terms of key equality, and the bulk updates
that a publication applies to several maps at once. -/

namespace Mille.Maps

open Std

variable {κ ν : Type} [Ord κ] [TransOrd κ] [LawfulEqOrd κ] [DecidableEq κ]
variable {map : ExtTreeMap κ ν} {key other : κ} {value : ν}

theorem lookup_insert : (map.insert key value)[other]? =
    if key = other then some value else map[other]? := by
  rw [ExtTreeMap.getElem?_insert]
  exact if_congr LawfulEqOrd.compare_eq_iff_eq rfl rfl

theorem lookup_erase : (map.erase key)[other]? = if key = other then none else map[other]? := by
  rw [ExtTreeMap.getElem?_erase]
  exact if_congr LawfulEqOrd.compare_eq_iff_eq rfl rfl

theorem lookup_alter {change : Option ν → Option ν} : (map.alter key change)[other]? =
    if key = other then change map[key]? else map[other]? := by
  rw [ExtTreeMap.getElem?_alter]
  exact if_congr LawfulEqOrd.compare_eq_iff_eq rfl rfl

theorem lookup_modify {change : ν → ν} : (map.modify key change)[other]? =
    if key = other then map[other]?.map change else map[other]? := by
  rw [ExtTreeMap.getElem?_modify]
  by_cases same : key = other
  · simp [same]
  · simp [same]

/-- Removes every key of a list. -/
def eraseAll (map : ExtTreeMap κ ν) (keys : List κ) : ExtTreeMap κ ν :=
  keys.foldl (fun rest key => rest.erase key) map

theorem lookup_eraseAll {keys : List κ} :
    (eraseAll map keys)[other]? = if other ∈ keys then none else map[other]? := by
  unfold eraseAll
  induction keys generalizing map with
  | nil => simp
  | cons head tail ih =>
    rw [List.foldl_cons, ih, lookup_erase]
    by_cases same : head = other
    · simp [same]
    · simp [same, Ne.symm same]

/-- Installs bindings one after the other; the last one of a key wins. -/
def insertAll (map : ExtTreeMap κ ν) (bindings : List (κ × ν)) : ExtTreeMap κ ν :=
  bindings.foldl (fun rest binding => rest.insert binding.1 binding.2) map

theorem lookup_insertAll_of_not_mem {bindings : List (κ × ν)}
    (absent : other ∉ bindings.map Prod.fst) : (insertAll map bindings)[other]? = map[other]? := by
  unfold insertAll
  induction bindings generalizing map with
  | nil => rfl
  | cons head tail ih =>
    simp only [List.map_cons, List.mem_cons, not_or] at absent
    rw [List.foldl_cons, ih absent.2, lookup_insert, if_neg (Ne.symm absent.1)]

theorem lookup_insertAll_of_mem {bindings : List (κ × ν)}
    (distinct : (bindings.map Prod.fst).Nodup) (member : (other, value) ∈ bindings) :
    (insertAll map bindings)[other]? = some value := by
  unfold insertAll
  induction bindings generalizing map with
  | nil => cases member
  | cons head tail ih =>
    obtain ⟨fresh, rest⟩ := List.nodup_cons.mp distinct
    rcases List.mem_cons.mp member with same | later
    · subst same
      rw [List.foldl_cons]
      exact (lookup_insertAll_of_not_mem fresh).trans (by simp)
    · exact ih rest later

theorem lookup_insertAll {bindings : List (κ × ν)} (distinct : (bindings.map Prod.fst).Nodup) :
    (insertAll map bindings)[other]? = some value ↔
      (other, value) ∈ bindings ∨ other ∉ bindings.map Prod.fst ∧ map[other]? = some value := by
  by_cases member : other ∈ bindings.map Prod.fst
  · obtain ⟨⟨key, found⟩, present, rfl⟩ := List.mem_map.mp member
    rw [lookup_insertAll_of_mem distinct present]
    constructor
    · intro same
      exact .inl (Option.some.inj same ▸ present)
    · rintro (again | ⟨absent, _⟩)
      · have same := List.inj_on_of_nodup_map distinct present again rfl
        exact congrArg (fun binding => some binding.2) same
      · exact absurd member absent
  · rw [lookup_insertAll_of_not_mem member]
    constructor
    · exact fun found => .inr ⟨member, found⟩
    · rintro (present | ⟨_, found⟩)
      · exact absurd (List.mem_map_of_mem present) member
      · exact found

theorem lookup_insertAll_map {keys : List κ} {install : κ → ν} :
    (insertAll map (keys.map (fun key => (key, install key))))[other]? =
      if other ∈ keys then some (install other) else map[other]? := by
  unfold insertAll
  induction keys generalizing map with
  | nil => simp
  | cons head tail ih =>
    rw [List.map_cons, List.foldl_cons, ih, lookup_insert]
    by_cases same : head = other
    · simp [same]
    · simp [same, Ne.symm same]

theorem isSome_insertAll {bindings : List (κ × ν)} :
    (insertAll map bindings)[other]?.isSome = true ↔
      other ∈ bindings.map Prod.fst ∨ map[other]?.isSome = true := by
  unfold insertAll
  induction bindings generalizing map with
  | nil => simp
  | cons head tail ih =>
    rw [List.foldl_cons, ih, lookup_insert]
    by_cases same : head.1 = other
    · simp [same]
    · simp [same, Ne.symm same]

section Inverse

variable [Ord ν] [TransOrd ν] [LawfulEqOrd ν] [DecidableEq ν]
variable {backward : ExtTreeMap ν κ}

/-- Two maps that are each other's inverse. -/
def Inverse (map : ExtTreeMap κ ν) (backward : ExtTreeMap ν κ) : Prop :=
  ∀ (key : κ) (value : ν), map[key]? = some value ↔ backward[value]? = some key

omit [LawfulEqOrd κ] [DecidableEq κ] [LawfulEqOrd ν] [DecidableEq ν] in
theorem Inverse.injective (inverse : Inverse map backward) (left : map[key]? = some value)
    (right : map[other]? = some value) : key = other := by
  have first := (inverse key value).mp left
  have second := (inverse other value).mp right
  exact Option.some.inj (first.symm.trans second)

theorem Inverse.erase (inverse : Inverse map backward) (found : backward[value]? = some key) :
    Inverse (map.erase key) (backward.erase value) := by
  intro path id
  rw [lookup_erase, lookup_erase]
  by_cases known : map[path]? = some id
  · have same : key = path ↔ value = id := by
      constructor
      · rintro rfl
        exact Option.some.inj (((inverse key value).mpr found).symm.trans known)
      · rintro rfl
        exact inverse.injective ((inverse key value).mpr found) known
    simp [same, inverse path id]
  · have unknown : backward[id]? ≠ some path := fun back => known ((inverse path id).mpr back)
    simp [known, unknown]

theorem Inverse.install (inverse : Inverse map backward) (bindings : List (κ × ν))
    (keys : (bindings.map Prod.fst).Nodup) (values : (bindings.map Prod.snd).Nodup)
    (freeKeys : ∀ key ∈ bindings.map Prod.fst, map[key]? = none)
    (freeValues : ∀ value ∈ bindings.map Prod.snd, backward[value]? = none) :
    Inverse (insertAll map bindings) (insertAll backward (bindings.map Prod.swap)) := by
  intro key value
  have swapped : (bindings.map Prod.swap).map Prod.fst = bindings.map Prod.snd := by
    rw [List.map_map]
    rfl
  have member : (value, key) ∈ bindings.map Prod.swap ↔ (key, value) ∈ bindings := by
    simp
  rw [lookup_insertAll keys, lookup_insertAll (swapped ▸ values), swapped, member, inverse key value]
  refine or_congr_right (and_congr_left ?_)
  intro found
  have known := (inverse key value).mpr found
  constructor
  · intro _ present
    simp [freeValues value present] at found
  · intro _ present
    simp [freeKeys key present] at known

/-- Moving values to new keys: the old keys go first, and a destination is free
or held by a value that moves as well. -/
theorem Inverse.move (inverse : Inverse map backward) (moves : List (κ × ν × κ))
    (held : ∀ move ∈ moves, map[move.1]? = some move.2.1)
    (values : (moves.map (·.2.1)).Nodup) (targets : (moves.map (·.2.2)).Nodup)
    (free : ∀ move ∈ moves, ∀ value, map[move.2.2]? = some value → value ∈ moves.map (·.2.1)) :
    Inverse (insertAll (eraseAll map (moves.map (·.1))) (moves.map (fun move => (move.2.2, move.2.1))))
      (insertAll backward (moves.map (·.2))) := by
  intro key value
  have forwardKeys : (moves.map (fun move => (move.2.2, move.2.1))).map Prod.fst =
      moves.map (·.2.2) := by
    rw [List.map_map]
    rfl
  have backwardKeys : (moves.map (·.2)).map Prod.fst = moves.map (·.2.1) := by
    rw [List.map_map]
    rfl
  have member : (key, value) ∈ moves.map (fun move => (move.2.2, move.2.1)) ↔
      (value, key) ∈ moves.map (·.2) := by
    simp
  have moving (known : map[key]? = some value) :
      key ∈ moves.map (·.1) ↔ value ∈ moves.map (·.2.1) := by
    constructor
    · intro present
      obtain ⟨move, listed, rfl⟩ := List.mem_map.mp present
      exact List.mem_map.mpr ⟨move, listed, Option.some.inj ((held move listed).symm.trans known)⟩
    · intro present
      obtain ⟨move, listed, rfl⟩ := List.mem_map.mp present
      exact List.mem_map.mpr ⟨move, listed, inverse.injective (held move listed) known⟩
  rw [lookup_insertAll (forwardKeys ▸ targets), lookup_insertAll (backwardKeys ▸ values),
    forwardKeys, backwardKeys, member, lookup_eraseAll, ← inverse key value]
  refine or_congr_right ?_
  constructor
  · rintro ⟨_, found⟩
    split at found
    · cases found
    · rename_i stays
      exact ⟨fun present => stays ((moving found).mpr present), found⟩
  · rintro ⟨stays, found⟩
    have unmoved : key ∉ moves.map (·.1) := fun present => stays ((moving found).mp present)
    refine ⟨?_, by rw [if_neg unmoved]; exact found⟩
    intro taken
    obtain ⟨move, listed, rfl⟩ := List.mem_map.mp taken
    exact stays (free move listed value found)

end Inverse

end Mille.Maps
