import Mathlib

/-! Maps and sets that keep their keys in insertion order. -/

namespace Mille

/-- A `Map`: its entries in the order their keys came in. -/
structure JsMap (κ ν : Type) where
  entries : List (κ × ν)
  distinct : (entries.map Prod.fst).Nodup

/-- A `Set`. -/
abbrev JsSet (κ : Type) := JsMap κ Unit

namespace JsMap

variable {κ ν : Type} [DecidableEq κ]

def empty : JsMap κ ν := ⟨[], List.nodup_nil⟩

def lookup (key : κ) : List (κ × ν) → Option ν
  | [] => none
  | first :: rest => if first.1 = key then some first.2 else lookup key rest

/-- A value under a key; a known key keeps its place. -/
def write (key : κ) (value : ν) : List (κ × ν) → List (κ × ν)
  | [] => [(key, value)]
  | first :: rest => if first.1 = key then (key, value) :: rest else first :: write key value rest

section Entries

variable (key other : κ) (value : ν) (entries : List (κ × ν))

theorem keys_write : (write key value entries).map Prod.fst =
    if key ∈ entries.map Prod.fst then entries.map Prod.fst else entries.map Prod.fst ++ [key] := by
  induction entries with
  | nil => rfl
  | cons first rest ih =>
    rw [write]
    by_cases here : first.1 = key
    · simp [here]
    · rw [if_neg here, List.map_cons, ih]
      by_cases known : key ∈ rest.map Prod.fst
      · simp only [known, List.map_cons, List.mem_cons, or_true, if_true]
      · simp only [known, List.map_cons, List.mem_cons, Ne.symm here, or_false, if_false, List.cons_append]

theorem nodup_write (distinct : (entries.map Prod.fst).Nodup) :
    ((write key value entries).map Prod.fst).Nodup := by
  rw [keys_write]
  split
  · exact distinct
  · next fresh =>
    apply distinct.append (List.nodup_singleton key)
    exact List.disjoint_singleton.mpr fresh

theorem lookup_write :
    lookup other (write key value entries) = if key = other then some value else lookup other entries := by
  induction entries with
  | nil => rfl
  | cons first rest ih =>
    rw [write]
    by_cases here : first.1 = key
    · rw [if_pos here, lookup, lookup, here]
      by_cases same : key = other
      · simp [same]
      · simp [same]
    · rw [if_neg here, lookup, ih, lookup]
      by_cases same : key = other
      · simp [← same, here]
      · simp [same]

theorem lookup_filter : lookup other (entries.filter (·.1 ≠ key)) =
    if key = other then none else lookup other entries := by
  induction entries with
  | nil => simp [lookup]
  | cons first rest ih =>
    rw [List.filter_cons]
    by_cases here : first.1 = key
    · rw [if_neg (by simpa using here), ih, lookup, here]
      by_cases same : key = other
      · simp [same]
      · simp [same]
    · rw [if_pos (by simpa using here), lookup, ih, lookup]
      by_cases same : key = other
      · simp [← same, here]
      · simp [same]

theorem isSome_lookup : (lookup key entries).isSome = true ↔ key ∈ entries.map Prod.fst := by
  induction entries with
  | nil => simp [lookup]
  | cons first rest ih =>
    rw [lookup]
    by_cases here : first.1 = key
    · simp [here]
    · rw [if_neg here, ih, List.map_cons, List.mem_cons]
      simp [Ne.symm here]

theorem lookup_map {μ : Type} (value : ν → μ) :
    lookup key (entries.map fun entry => (entry.1, value entry.2)) = (lookup key entries).map value := by
  induction entries with
  | nil => rfl
  | cons first rest ih =>
    rw [List.map_cons, lookup, lookup, ih]
    split
    · rfl
    · rfl

theorem lookup_of_mem {entries : List (κ × ν)} (distinct : (entries.map Prod.fst).Nodup)
    {entry : κ × ν} (member : entry ∈ entries) : lookup entry.1 entries = some entry.2 := by
  induction entries with
  | nil => cases member
  | cons first rest ih =>
    rw [List.map_cons, List.nodup_cons] at distinct
    rw [lookup]
    rcases List.mem_cons.mp member with rfl | later
    · rw [if_pos rfl]
    · rw [if_neg, ih distinct.2 later]
      intro same
      exact distinct.1 (same ▸ List.mem_map_of_mem later)

theorem mem_of_lookup {entries : List (κ × ν)} {key : κ} {value : ν}
    (found : lookup key entries = some value) : (key, value) ∈ entries := by
  induction entries with
  | nil => cases found
  | cons first rest ih =>
    rw [lookup] at found
    split at found
    · rename_i same
      cases found
      rw [← same]
      exact List.mem_cons_self
    · exact List.mem_cons_of_mem _ (ih found)

theorem lookup_none {entries : List (κ × ν)} {key : κ} (absent : key ∉ entries.map Prod.fst) :
    lookup key entries = none :=
  Option.not_isSome_iff_eq_none.mp ((isSome_lookup key entries).not.mpr absent)

end Entries

variable (map : JsMap κ ν)

def get (key : κ) : Option ν := lookup key map.entries

def has (key : κ) : Bool := (map.get key).isSome

def keys : List κ := map.entries.map Prod.fst

def size : Nat := map.entries.length

def set (key : κ) (value : ν) : JsMap κ ν where
  entries := write key value map.entries
  distinct := nodup_write key value map.entries map.distinct

def delete (key : κ) : JsMap κ ν where
  entries := map.entries.filter (·.1 ≠ key)
  distinct := map.distinct.sublist (List.filter_sublist.map Prod.fst)

def add (set : JsSet κ) (key : κ) : JsSet κ := set.set key ()

def ofList (keys : List κ) : JsSet κ := keys.foldl add empty

variable {map} {key other : κ} {value : ν}

@[simp] theorem get_empty : (empty : JsMap κ ν).get key = none := rfl

@[simp] theorem has_empty : (empty : JsMap κ ν).has key = false := rfl

theorem get_set : (map.set key value).get other = if key = other then some value else map.get other :=
  lookup_write key other value map.entries

theorem get_delete : (map.delete key).get other = if key = other then none else map.get other :=
  lookup_filter key other map.entries

theorem has_add {set : JsSet κ} : (set.add key).has other = true ↔ key = other ∨ set.has other = true := by
  rw [has, add, get_set]
  by_cases same : key = other
  · simp [same]
  · simp [same, has]

theorem has_delete : (map.delete key).has other = true ↔ key ≠ other ∧ map.has other = true := by
  rw [has, get_delete]
  by_cases same : key = other
  · simp [same]
  · simp [same, has]

theorem has_foldl_add (keys : List κ) (set : JsSet κ) :
    (keys.foldl add set).has key = true ↔ key ∈ keys ∨ set.has key = true := by
  induction keys generalizing set with
  | nil => simp
  | cons first rest ih =>
    rw [List.foldl_cons, ih, has_add, List.mem_cons]
    tauto

theorem has_ofList {keys : List κ} : (ofList keys).has key = true ↔ key ∈ keys := by
  simp [ofList, has_foldl_add]

theorem has_foldl_delete (keys : List κ) (map : JsMap κ ν) :
    (keys.foldl delete map).has key = true ↔ key ∉ keys ∧ map.has key = true := by
  induction keys generalizing map with
  | nil => simp
  | cons first rest ih =>
    rw [List.foldl_cons, ih, has_delete, List.mem_cons]
    tauto

theorem mem_keys : key ∈ map.keys ↔ map.has key = true :=
  (isSome_lookup key map.entries).symm

end JsMap

end Mille
