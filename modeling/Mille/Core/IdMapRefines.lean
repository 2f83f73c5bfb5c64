import Mille.Lib.Maps
import Mille.Core.IdMapWrites

/-! `IdMap` against a finite ordered map: whole sequences of operations return
the same results and leave maps that hold the same bindings. -/

namespace Mille.Radix

open Std

variable {ν σ : Type}

/-- A call that changes a map; writes through a returned reference come with the call. -/
inductive MapOp (ν σ : Type) where
  | insert (key : UInt64) (value : ν)
  | remove (key : UInt64)
  | getMut (key : UInt64) (change : ν → ν)
  | orInsert (key : UInt64) (fallback : ν) (change : ν → ν)
  | orDefault (key : UInt64) (change : ν → ν)
  | clear
  | forEachValueMut (visit : σ → ν → ν × σ) (state : σ)

/-- What a call returns: the value it found, or a visitor's last state. -/
inductive Reply (ν σ : Type) where
  | value (found : Option ν)
  | visited (state : σ)
  | done

namespace IdMap

def step [Inhabited ν] (map : IdMap ν) : MapOp ν σ → Reply ν σ × IdMap ν
  | .insert key value => (.value (map.insert key value).1, (map.insert key value).2)
  | .remove key => (.value (map.remove key).1, (map.remove key).2)
  | .getMut key change => (.value (map.getMut key change).1, (map.getMut key change).2)
  | .orInsert key fallback change =>
    (.value (map.orInsert key fallback change).1, (map.orInsert key fallback change).2)
  | .orDefault key change => (.value (map.orDefault key change).1, (map.orDefault key change).2)
  | .clear => (.done, map.clear)
  | .forEachValueMut visit state =>
    (.visited (map.forEachValueMut visit state).2, (map.forEachValueMut visit state).1)

def run [Inhabited ν] : IdMap ν → List (MapOp ν σ) → List (Reply ν σ) × IdMap ν
  | map, [] => ([], map)
  | map, op :: ops => ((map.step op).1 :: (run (map.step op).2 ops).1, (run (map.step op).2 ops).2)

end IdMap

namespace Ordered

/-- The same call on a finite ordered map. -/
def step [Inhabited ν] (map : ExtTreeMap UInt64 ν) : MapOp ν σ → Reply ν σ × ExtTreeMap UInt64 ν
  | .insert key value => (.value map[key]?, map.insert key value)
  | .remove key => (.value map[key]?, map.erase key)
  | .getMut key change => (.value map[key]?, map.modify key change)
  | .orInsert key fallback change =>
    (.value (some (map[key]?.getD fallback)), map.insert key (change (map[key]?.getD fallback)))
  | .orDefault key change =>
    (.value (some (map[key]?.getD default)), map.insert key (change (map[key]?.getD default)))
  | .clear => (.done, ∅)
  | .forEachValueMut visit state =>
    let values := Node.visitAll visit (map.toList.map Prod.snd) state
    (.visited values.2, Maps.insertAll map ((map.toList.map Prod.fst).zip values.1))

def run [Inhabited ν] : ExtTreeMap UInt64 ν → List (MapOp ν σ) → List (Reply ν σ) × ExtTreeMap UInt64 ν
  | map, [] => ([], map)
  | map, op :: ops => ((step map op).1 :: (run (step map op).2 ops).1, (run (step map op).2 ops).2)

end Ordered

/-- A valid trie that answers every query as an ordered map does. -/
structure Refines (map : IdMap ν) (contents : ExtTreeMap UInt64 ν) : Prop where
  valid : map.Valid
  get : ∀ key, map.get key = contents[key]?
  containsKey : ∀ key, map.containsKey key = contents.contains key
  len : map.len = contents.size
  iter : ∀ count, map.iter.collect count = contents.toList.take count
  ascending : ∀ count, (map.iter.collect count).Pairwise (fun left right => left.1 < right.1)

namespace Refines

variable {map : IdMap ν} {contents : ExtTreeMap UInt64 ν}

/-- The bindings of an ordered map under their keys as numbers. -/
def numbered (bindings : List (UInt64 × ν)) : List (Nat × ν) :=
  bindings.map (fun binding => (binding.1.toNat, binding.2))

theorem numbered_inj {left right : List (UInt64 × ν)} (same : numbered left = numbered right) : left = right := by
  refine List.map_injective_iff.mpr (fun first second equal => ?_) same
  rw [Prod.mk.injEq] at equal
  exact Prod.ext (UInt64.toNat_inj.mp equal.1) equal.2

theorem mem_numbered {list : List (UInt64 × ν)} {key : UInt64} {value : ν} :
    (key.toNat, value) ∈ numbered list ↔ (key, value) ∈ list := by
  unfold numbered
  rw [List.mem_map]
  constructor
  · rintro ⟨⟨other, found⟩, member, same⟩
    rw [Prod.mk.injEq] at same
    rwa [← UInt64.toNat_inj.mp same.1, ← same.2]
  · exact fun member => ⟨(key, value), member, rfl⟩

theorem toList_sorted : contents.toList.Pairwise (fun left right => left.1 < right.1) :=
  ExtTreeMap.ordered_keys_toList.imp fun less => compare_eq_lt.mp less

theorem eq_of_sorted {left right : List (Nat × ν)} (first : left.Pairwise (fun one two => one.1 < two.1))
    (second : right.Pairwise (fun one two => one.1 < two.1)) (same : ∀ binding, binding ∈ left ↔ binding ∈ right) :
    left = right := by
  have : Std.Irrefl (fun one two : Nat × ν => one.1 < two.1) := ⟨fun _ => Nat.lt_irrefl _⟩
  have : Std.Antisymm (fun one two : Nat × ν => one.1 < two.1) :=
    ⟨fun _ _ less more => absurd (Nat.lt_trans less more) (Nat.lt_irrefl _)⟩
  exact first.eq_of_mem_iff second same

theorem bindings_eq (valid : map.Valid) (get : ∀ key, map.get key = contents[key]?) :
    map.bindings = numbered contents.toList := by
  have ordered : (numbered contents.toList).Pairwise (fun left right => left.1 < right.1) :=
    List.pairwise_map.mpr (toList_sorted.imp fun less => UInt64.lt_iff_toNat_lt.mp less)
  have agree (key : UInt64) (value : ν) :
      (key.toNat, value) ∈ map.bindings ↔ (key.toNat, value) ∈ numbered contents.toList := by
    rw [valid.mem_bindings, mem_numbered, ExtTreeMap.mem_toList_iff_getElem?_eq_some, get]
  refine eq_of_sorted valid.sorted ordered fun binding => ⟨fun member => ?_, fun member => ?_⟩
  · obtain ⟨key, same, _⟩ := valid.fitting binding member
    obtain ⟨number, value⟩ := binding
    subst same
    exact (agree key value).mp member
  · obtain ⟨⟨key, value⟩, _, rfl⟩ := List.mem_map.mp member
    exact (agree key value).mpr member

theorem of_get (valid : map.Valid) (get : ∀ key, map.get key = contents[key]?) : Refines map contents := by
  have same := bindings_eq valid get
  have items (count : Nat) : map.iter.collect count = contents.toList.take count := by
    apply numbered_inj
    have collected := valid.collect count
    rw [same, numbered, ← List.map_take] at collected
    exact collected
  refine ⟨valid, get, fun key => ?_, ?_, items, fun count => ?_⟩
  · unfold IdMap.containsKey
    rw [get, ExtTreeMap.contains_eq_isSome_getElem?]
  · rw [← valid.length_bindings, same, numbered, List.length_map, ExtTreeMap.length_toList]
  · rw [items]
    exact toList_sorted.sublist (List.take_sublist _ _)

theorem new_empty : Refines (IdMap.new : IdMap ν) ∅ :=
  of_get IdMap.new_valid fun key => by simp [IdMap.get, IdMap.new]

theorem of_written {after : IdMap ν} {next : ExtTreeMap UInt64 ν} {key : UInt64} {value : Option ν}
    (refines : Refines map contents) (written : map.Written after key value)
    (same : ∀ other, next[other]? = if key = other then value else contents[other]?) : Refines after next :=
  of_get written.valid fun other => by rw [written.get refines.valid, same, refines.get]

theorem forEachValueMut (refines : Refines map contents) (visit : σ → ν → ν × σ) (state : σ) :
    (map.forEachValueMut visit state).2 = (Node.visitAll visit (contents.toList.map Prod.snd) state).2 ∧
      Refines (map.forEachValueMut visit state).1 (Maps.insertAll contents ((contents.toList.map Prod.fst).zip
        (Node.visitAll visit (contents.toList.map Prod.snd) state).1)) := by
  obtain ⟨valid, shown, last⟩ := refines.valid.forEachValueMut visit state
  have same := bindings_eq refines.valid refines.get
  have values : map.bindings.map Prod.snd = contents.toList.map Prod.snd := by
    rw [same, numbered, List.map_map]
    rfl
  have keys : map.bindings.map Prod.fst = (contents.toList.map Prod.fst).map UInt64.toNat := by
    rw [same, numbered, List.map_map, List.map_map]
    rfl
  have length : (contents.toList.map Prod.fst).length =
      (Node.visitAll visit (contents.toList.map Prod.snd) state).1.length := by
    rw [Node.visitAll_length, List.length_map, List.length_map]
  have after : (map.forEachValueMut visit state).1.bindings = numbered ((contents.toList.map Prod.fst).zip
      (Node.visitAll visit (contents.toList.map Prod.snd) state).1) := by
    rw [shown, Node.revalued, keys, values, List.zip_map_left]
    rfl
  have distinct : (((contents.toList.map Prod.fst).zip
      (Node.visitAll visit (contents.toList.map Prod.snd) state).1).map Prod.fst).Nodup := by
    rw [List.map_fst_zip (Nat.le_of_eq length)]
    exact List.pairwise_map.mpr (toList_sorted.imp fun less => UInt64.ne_of_lt less)
  rw [values] at last
  refine ⟨last, of_get valid fun key => Option.ext fun value => ?_⟩
  rw [← valid.mem_bindings, after, mem_numbered, Maps.lookup_insertAll distinct]
  constructor
  · exact .inl
  · rintro (member | ⟨absent, found⟩)
    · exact member
    · -- Every key of the map is visited, so none is left with its old value.
      rw [List.map_fst_zip (Nat.le_of_eq length)] at absent
      have listed := ExtTreeMap.mem_toList_iff_getElem?_eq_some.mpr found
      exact absurd (List.mem_map_of_mem listed) absent

/-- One call. -/
theorem step [Inhabited ν] (refines : Refines map contents) (op : MapOp ν σ) :
    (map.step op).1 = (Ordered.step contents op).1 ∧
      Refines (map.step op).2 (Ordered.step contents op).2 := by
  have or_insert (key : UInt64) (fallback : ν) (change : ν → ν) :
      (map.orInsert key fallback change).1 = some (contents[key]?.getD fallback) ∧
        Refines (map.orInsert key fallback change).2
          (contents.insert key (change (contents[key]?.getD fallback))) := by
    obtain ⟨reply, valid, lookups⟩ := refines.valid.orInsert key fallback change
    rw [refines.get] at reply
    refine ⟨reply, of_get valid fun other => ?_⟩
    rw [lookups, Maps.lookup_insert, refines.get, refines.get]
  cases op with
  | insert key value =>
    obtain ⟨reply, written⟩ := refines.valid.insert key value
    exact ⟨congrArg Reply.value (reply.trans (refines.get key)),
      refines.of_written written fun other => Maps.lookup_insert⟩
  | remove key =>
    obtain ⟨reply, written⟩ := refines.valid.remove key
    exact ⟨congrArg Reply.value (reply.trans (refines.get key)),
      refines.of_written written fun other => Maps.lookup_erase⟩
  | getMut key change =>
    obtain ⟨reply, written⟩ := refines.valid.getMut key change
    refine ⟨congrArg Reply.value (reply.trans (refines.get key)), refines.of_written written fun other => ?_⟩
    refine Maps.lookup_modify.trans ?_
    by_cases same : key = other
    · simp [same, refines.get]
    · simp [same]
  | orInsert key fallback change =>
    obtain ⟨reply, after⟩ := or_insert key fallback change
    exact ⟨congrArg Reply.value reply, after⟩
  | orDefault key change =>
    obtain ⟨reply, after⟩ := or_insert key default change
    exact ⟨congrArg Reply.value reply, after⟩
  | clear => exact ⟨rfl, new_empty⟩
  | forEachValueMut visit state =>
    obtain ⟨last, after⟩ := refines.forEachValueMut visit state
    exact ⟨congrArg Reply.visited last, after⟩

theorem run [Inhabited ν] (refines : Refines map contents) (ops : List (MapOp ν σ)) :
    (map.run ops).1 = (Ordered.run contents ops).1 ∧ Refines (map.run ops).2 (Ordered.run contents ops).2 := by
  induction ops generalizing map contents with
  | nil => exact ⟨rfl, refines⟩
  | cons op ops ih =>
    obtain ⟨reply, after⟩ := refines.step op
    obtain ⟨replies, last⟩ := ih after
    refine ⟨?_, last⟩
    simp only [IdMap.run, Ordered.run]
    rw [reply, replies]

end Refines

/-- Every sequence of calls on a new map returns what an ordered map returns and leaves one that
answers alike, with its representation invariants intact. -/
theorem run_refines_ordered_map [Inhabited ν] (ops : List (MapOp ν σ)) :
    ((IdMap.new : IdMap ν).run ops).1 = (Ordered.run ∅ ops).1 ∧
      Refines ((IdMap.new : IdMap ν).run ops).2 (Ordered.run ∅ ops).2 :=
  Refines.new_empty.run ops

end Mille.Radix
