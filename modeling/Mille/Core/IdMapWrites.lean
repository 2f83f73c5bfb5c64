import Mille.Core.IdMapIter

/-! What each operation of `IdMap` does to the list of its bindings, and the
representation invariants it keeps. -/

namespace Mille.Radix

variable {ν σ : Type} {key other : UInt64} {height : Nat} {value : ν}

theorem fits_iff (shallow : height ≤ top) : fits key height = true ↔ key.toNat < 32 ^ (height + 1) := by
  unfold top at shallow
  have power : 2 ^ (5 * (height + 1)) = 32 ^ (height + 1) := by rw [Nat.pow_mul]
  by_cases tall : height = 12
  · have room : 2 ^ 64 ≤ 32 ^ (12 + 1) := by decide
    subst tall
    exact ⟨fun _ => key.toNat_lt.trans_le room, fun _ => fits_top (Nat.le_refl _)⟩
  · have shift : (UInt64.ofNat (bits * (height + 1))).toNat % 64 = 5 * (height + 1) := by
      unfold bits
      rw [UInt64.toNat_ofNat']
      omega
    have short : ¬ bits * (height + 1) ≥ 64 := by
      unfold bits
      omega
    unfold fits
    rw [Bool.or_eq_true, decide_eq_true_iff, decide_eq_true_iff, ← UInt64.toNat_inj, UInt64.toNat_shiftRight,
      shift, Nat.shiftRight_eq_div_pow, power]
    constructor
    · rintro (wide | zero)
      · exact absurd wide short
      · exact (Nat.div_eq_zero_iff.mp zero).resolve_left (Nat.pow_pos (by omega)).ne'
    · exact fun small => .inr (Nat.div_eq_of_lt small)

theorem residue_fits (shallow : height ≤ top) (room : fits key height = true) : residue key height = key.toNat :=
  Nat.mod_eq_of_lt ((fits_iff shallow).mp room)

theorem short_of_not_fits (tight : ¬ fits key height = true) : height + 1 ≤ top := by
  have short : ¬ 12 ≤ height := fun deep => tight (fits_top deep)
  unfold top
  omega

theorem heightFor_spec (shallow : height ≤ top) :
    heightFor key height ≤ top ∧ fits key (heightFor key height) = true := by
  fun_induction heightFor key height with
  | case1 height room => exact ⟨shallow, room⟩
  | case2 height tight ih => exact ih (short_of_not_fits tight)

theorem grow_spec {root : Node ν} (shallow : height ≤ top) (shaped : root.Shaped height) :
    (grow key height root).1 ≤ top ∧ fits key (grow key height root).1 = true ∧
      (grow key height root).2.Shaped (grow key height root).1 ∧
      (grow key height root).2.bindings (grow key height root).1 = root.bindings height := by
  fun_induction grow key height root with
  | case1 height root room => exact ⟨shallow, room, shaped, rfl⟩
  | case2 height root tight ih =>
    obtain ⟨packed, shown⟩ := @Slots.single_packed _ 0 root (by omega)
    have taller : (Node.branch (.single 0 root)).Shaped (height + 1) :=
      .branch packed (by simp [Slots.single]) (by simpa [Slots.single] using shaped)
    have same : (Node.branch (.single 0 root)).bindings (height + 1) = root.bindings height := by
      rw [Node.bindings_branch, shown, ← Node.spread, Node.spread_single]
      simp [lift]
    obtain ⟨short, room, grown, kept⟩ := ih (short_of_not_fits tight) taller
    exact ⟨short, room, grown, kept.trans same⟩

/-- A list of bindings around one key, with what it holds for that key. -/
structure Cut (list : List (Nat × ν)) (key : Nat) (found : Option ν) (low high : List (Nat × ν)) : Prop where
  lows : ∀ binding ∈ low, binding.1 < key
  highs : ∀ binding ∈ high, key < binding.1
  split : list = low ++ (found.toList.map (key, ·) ++ high)

namespace Cut

variable {list written low high : List (Nat × ν)} {key other : Nat} {found next : Option ν}

theorem mem_found (cut : Cut list key found low high) : (key, value) ∈ list ↔ found = some value := by
  rw [cut.split, List.mem_append, List.mem_append]
  constructor
  · rintro (early | here | late)
    · exact absurd (cut.lows _ early) (Nat.lt_irrefl _)
    · simpa using here
    · exact absurd (cut.highs _ late) (Nat.lt_irrefl _)
  · rintro rfl
    right
    left
    simp

theorem mem_other (cut : Cut list key found low high) (after : Cut written key next low high)
    (different : key ≠ other) : (other, value) ∈ written ↔ (other, value) ∈ list := by
  rw [cut.split, after.split]
  simp [different]

theorem length_eq (cut : Cut list key found low high) :
    list.length = low.length + found.toList.length + high.length := by
  rw [cut.split]
  simp
  omega

theorem rewrite (cut : Cut list key found low high) (next : Option ν) :
    Cut (low ++ (next.toList.map (key, ·) ++ high)) key next low high :=
  ⟨cut.lows, cut.highs, rfl⟩

end Cut

namespace Node

/-- Values in the leaves of a subtrie. -/
def leafValues : Nat → Node ν → Nat
  | _, leaf slots => slots.items.length
  | level + 1, branch slots => (slots.items.map (leafValues level)).sum
  | 0, branch _ => 0

theorem Shaped.length_bindings {level : Nat} {node : Node ν} (shaped : Shaped level node) :
    (bindings level node).length = leafValues level node := by
  induction shaped with
  | @leaf slots packed _ =>
    have length := congrArg List.length packed.view_items
    rwa [List.length_map] at length
  | @branch level slots packed _ _ ih =>
    have each : slots.view.map (fun child => (lift level child.1 (bindings level child.2)).length) =
        slots.view.map (fun child => leafValues level child.2) := by
      refine List.map_congr_left fun child shown => ?_
      rw [lift, List.length_map]
      exact ih child.2 (List.of_mem_zip shown).2
    have values : slots.view.map (fun child => leafValues level child.2) =
        slots.items.map (leafValues level) := by
      rw [← packed.view_items, List.map_map]
      rfl
    rw [bindings_branch, List.length_flatMap, each, values]
    rfl

end Node

namespace IdMap

variable {map : IdMap ν}

/-- Stored values with the keys their slot paths spell, ascending. -/
def bindings (map : IdMap ν) : List (Nat × ν) :=
  match map.root with
  | none => []
  | some root => root.bindings map.height

/-- Values in the leaves of the trie. -/
def leafValues (map : IdMap ν) : Nat :=
  match map.root with
  | none => 0
  | some root => root.leafValues map.height

/-- The representation invariants. -/
structure Valid (map : IdMap ν) : Prop where
  /-- Bitmaps count their items, no node is empty, and an empty map has no root. -/
  shaped : match map.root with
    | none => map.height = 0
    | some root => map.height ≤ top ∧ root.Shaped map.height
  /-- Every stored key is a 64-bit key that fits the recorded height. -/
  fitting : ∀ binding ∈ map.bindings,
    ∃ key : UInt64, key.toNat = binding.1 ∧ fits key map.height = true
  counted : map.len = map.leafValues

theorem Valid.length_bindings (valid : map.Valid) : map.bindings.length = map.len := by
  obtain ⟨shaped, _, counted⟩ := valid
  rw [counted]
  unfold bindings leafValues
  cases present : map.root with
  | none => rfl
  | some root =>
    rw [present] at shaped
    exact shaped.2.length_bindings

theorem Valid.sorted (valid : map.Valid) : map.bindings.Pairwise (fun left right => left.1 < right.1) := by
  have shaped := valid.shaped
  unfold bindings
  cases present : map.root with
  | none => exact .nil
  | some root =>
    rw [present] at shaped
    exact shaped.2.bindings_sorted

theorem valid_of_root {root : Node ν} {len : Nat} (shallow : height ≤ top) (shaped : root.Shaped height)
    (small : ∀ binding ∈ root.bindings height, binding.1 < 2 ^ 64)
    (counted : len = (root.bindings height).length) : (IdMap.mk (some root) height len).Valid where
  shaped := ⟨shallow, shaped⟩
  fitting binding member := by
    have value : (UInt64.ofNat binding.1).toNat = binding.1 := by
      rw [UInt64.toNat_ofNat', Nat.mod_eq_of_lt (small binding member)]
    refine ⟨UInt64.ofNat binding.1, value, (fits_iff shallow).mpr ?_⟩
    rw [value]
    exact Node.bindings_lt member
  counted := counted.trans shaped.length_bindings

theorem new_valid : (new : IdMap ν).Valid :=
  ⟨rfl, by simp [bindings, new], rfl⟩

theorem Valid.small (valid : map.Valid) (binding : Nat × ν) (member : binding ∈ map.bindings) :
    binding.1 < 2 ^ 64 := by
  obtain ⟨key, same, _⟩ := valid.fitting binding member
  exact same ▸ key.toNat_lt

theorem Valid.cut (valid : map.Valid) (key : UInt64) :
    ∃ low high, Cut map.bindings key.toNat (map.get key) low high := by
  have shaped := valid.shaped
  unfold bindings get
  cases present : map.root with
  | none => exact ⟨[], [], by simp, by simp, by simp⟩
  | some root =>
    rw [present] at shaped
    by_cases room : fits key map.height = true
    · obtain ⟨low, high, around⟩ := shaped.2.around shaped.1 key
      have digits := residue_fits shaped.1 room
      refine ⟨low, high, fun binding early => ?_, fun binding late => ?_, ?_⟩
      · exact digits ▸ around.lows binding early
      · exact digits ▸ around.highs binding late
      · simpa [room, digits] using around.here
    · refine ⟨root.bindings map.height, [], fun binding early => ?_, by simp, by simp [room]⟩
      have large : ¬ key.toNat < 32 ^ (map.height + 1) := fun small => room ((fits_iff shaped.1).mpr small)
      exact (Node.bindings_lt early).trans_le (Nat.le_of_not_lt large)

theorem Valid.mem_bindings (valid : map.Valid) : (key.toNat, value) ∈ map.bindings ↔ map.get key = some value := by
  obtain ⟨low, high, cut⟩ := valid.cut key
  exact cut.mem_found

/-- The map after one key's value has become another. -/
structure Written (map after : IdMap ν) (key : UInt64) (next : Option ν) : Prop where
  valid : after.Valid
  around : ∃ low high, Cut map.bindings key.toNat (map.get key) low high ∧
    Cut after.bindings key.toNat next low high

theorem Written.get {after : IdMap ν} {next : Option ν} (written : map.Written after key next)
    (valid : map.Valid) : after.get other = if key = other then next else map.get other := by
  obtain ⟨low, high, before, behind⟩ := written.around
  refine Option.ext fun value => ?_
  rw [← written.valid.mem_bindings]
  split
  · next same =>
    rw [← same]
    exact behind.mem_found
  · next different =>
    have distinct : key.toNat ≠ other.toNat := fun same => different (UInt64.toNat_inj.mp same)
    rw [before.mem_other behind distinct, valid.mem_bindings]

theorem Valid.written (valid : map.Valid) {low high : List (Nat × ν)} {next : Option ν} {root : Node ν} {len : Nat}
    (shallow : height ≤ top) (shaped : root.Shaped height)
    (cut : Cut map.bindings key.toNat (map.get key) low high)
    (shown : root.bindings height = low ++ (next.toList.map (key.toNat, ·) ++ high))
    (counted : len = low.length + next.toList.length + high.length) :
    map.Written ⟨some root, height, len⟩ key next := by
  have after : Cut (root.bindings height) key.toNat next low high := shown ▸ cut.rewrite next
  refine ⟨valid_of_root shallow shaped ?_ (counted.trans after.length_eq.symm), low, high, cut, after⟩
  intro binding member
  rw [shown, List.mem_append, List.mem_append] at member
  rcases member with early | here | late
  · exact valid.small binding (cut.split ▸ List.mem_append_left _ early)
  · obtain ⟨value, _, rfl⟩ := List.mem_map.mp here
    exact key.toNat_lt
  · exact valid.small binding (cut.split ▸ List.mem_append_right _ (List.mem_append_right _ late))

theorem cut_of_around {root : Node ν} {low high : List (Nat × ν)} (shallow : height ≤ top)
    (room : fits key height = true) (around : root.Around height key low high) :
    Cut (root.bindings height) key.toNat (root.get key height) low high := by
  have digits := residue_fits shallow room
  exact ⟨digits ▸ around.lows, digits ▸ around.highs, digits ▸ around.here⟩

theorem Valid.insert (valid : map.Valid) (key : UInt64) (value : ν) :
    (map.insert key value).1 = map.get key ∧ map.Written (map.insert key value).2 key (some value) := by
  have shaped := valid.shaped
  unfold IdMap.insert
  cases present : map.root with
  | none =>
    obtain ⟨shallow, room⟩ := @heightFor_spec key 0 (Nat.zero_le _)
    obtain ⟨path, alone⟩ := @Node.pathTo_shaped ν key (heightFor key 0) value shallow
    have missing : map.get key = none := by simp [get, present]
    have cut : Cut map.bindings key.toNat (map.get key) [] [] :=
      ⟨by simp, by simp, by simp [bindings, present, missing]⟩
    refine ⟨missing.symm, valid.written shallow path cut ?_ rfl⟩
    rw [alone, residue_fits shallow room]
    rfl
  | some root =>
    rw [present] at shaped
    obtain ⟨shallow, room, grown, kept⟩ := @grow_spec ν key map.height root shaped.1 shaped.2
    have whole : map.bindings = root.bindings map.height := by simp [bindings, present]
    obtain ⟨low, high, around⟩ := grown.around shallow key
    have inner := cut_of_around shallow room around
    rw [kept, ← whole] at inner
    -- The walk down the grown trie finds what a lookup in the map finds.
    have same : (grow key map.height root).2.get key (grow key map.height root).1 = map.get key :=
      Option.ext fun found => inner.mem_found.symm.trans valid.mem_bindings
    obtain ⟨previous, written, shown⟩ := around.inserted value
    have length := inner.length_eq
    rw [residue_fits shallow room] at shown
    rw [same] at inner previous length
    rw [valid.length_bindings] at length
    refine ⟨previous, valid.written shallow written inner shown ?_⟩
    rw [previous]
    cases found : map.get key with
    | none => simp [found] at length ⊢; omega
    | some old => simp [found] at length ⊢; omega

theorem root_of_get {found : ν} (here : map.get key = some found) :
    ∃ root, map.root = some root ∧ fits key map.height = true ∧ root.get key map.height = some found := by
  unfold get at here
  by_cases room : fits key map.height = true
  · cases present : map.root with
    | none => simp [present] at here
    | some root => exact ⟨root, rfl, room, by simpa [room, present] using here⟩
  · simp [room] at here

theorem Valid.unchanged (valid : map.Valid) (missing : map.get key = none) : map.Written map key none := by
  obtain ⟨low, high, cut⟩ := valid.cut key
  exact ⟨valid, low, high, cut, missing ▸ cut⟩

theorem Valid.getMut (valid : map.Valid) (key : UInt64) (change : ν → ν) :
    (map.getMut key change).1 = map.get key ∧
      map.Written (map.getMut key change).2 key ((map.get key).map change) := by
  unfold IdMap.getMut containsKey
  cases here : map.get key with
  | none => exact ⟨rfl, valid.unchanged here⟩
  | some found =>
    obtain ⟨root, present, room, inside⟩ := root_of_get here
    have shaped := valid.shaped
    rw [present] at shaped
    have whole : map.bindings = root.bindings map.height := by simp [bindings, present]
    obtain ⟨low, high, around⟩ := shaped.2.around shaped.1 key
    have inner := cut_of_around shaped.1 room around
    rw [← whole, inside, ← here] at inner
    obtain ⟨previous, written, shown⟩ := around.changed change
    have length := inner.length_eq
    rw [inside] at previous shown
    rw [residue_fits shaped.1 room] at shown
    rw [valid.length_bindings, here] at length
    simp only [present, Option.isSome_some, Bool.not_true, Bool.false_eq_true, if_false]
    exact ⟨previous, valid.written shaped.1 written inner shown length⟩

theorem Valid.remove (valid : map.Valid) (key : UInt64) :
    (map.remove key).1 = map.get key ∧ map.Written (map.remove key).2 key none := by
  unfold IdMap.remove containsKey
  cases here : map.get key with
  | none => exact ⟨rfl, valid.unchanged here⟩
  | some found =>
    obtain ⟨root, present, room, inside⟩ := root_of_get here
    have shaped := valid.shaped
    rw [present] at shaped
    have whole : map.bindings = root.bindings map.height := by simp [bindings, present]
    obtain ⟨low, high, around⟩ := shaped.2.around shaped.1 key
    have inner := cut_of_around shaped.1 room around
    rw [← whole, inside, ← here] at inner
    obtain ⟨previous, shown, left⟩ := around.removed
    have length := inner.length_eq
    rw [inside] at previous
    rw [valid.length_bindings, here] at length
    have counted : map.len - 1 = low.length + high.length := by
      simp at length
      omega
    simp only [present, previous, Option.isSome_some, Bool.not_true, Bool.false_eq_true, if_false, if_true]
    by_cases last : map.len - 1 = 0
    · rw [if_pos last]
      have nothing : low = [] ∧ high = [] := by
        rw [← List.length_eq_zero_iff, ← List.length_eq_zero_iff]
        omega
      refine ⟨rfl, ⟨rfl, by simp [bindings], last⟩, low, high, inner, inner.lows, inner.highs, ?_⟩
      simp [bindings, nothing]
    · rw [if_neg last]
      rcases left with ⟨_, empty⟩ | ⟨_, kept⟩
      · have none := congrArg List.length empty
        rw [List.length_append, List.length_nil] at none
        exact absurd (counted.trans none) last
      · exact ⟨rfl, valid.written shaped.1 kept inner shown counted⟩

theorem Valid.orInsert (valid : map.Valid) (key : UInt64) (fallback : ν) (change : ν → ν) :
    (map.orInsert key fallback change).1 = some ((map.get key).getD fallback) ∧
      (map.orInsert key fallback change).2.Valid ∧
      ∀ other, (map.orInsert key fallback change).2.get other =
        if key = other then some (change ((map.get key).getD fallback)) else map.get other := by
  unfold IdMap.orInsert containsKey
  cases here : map.get key with
  | some found =>
    obtain ⟨reply, written⟩ := valid.getMut key change
    rw [here] at reply written
    exact ⟨reply, written.valid, fun other => written.get valid⟩
  | none =>
    obtain ⟨_, inserted⟩ := valid.insert key fallback
    obtain ⟨reply, written⟩ := inserted.valid.getMut key change
    have stored : (map.insert key fallback).2.get key = some fallback := by
      rw [inserted.get valid, if_pos rfl]
    rw [stored] at reply written
    refine ⟨reply, written.valid, fun other => ?_⟩
    have outer := @Written.get ν key other _ _ _ written inserted.valid
    have inner := @Written.get ν key other _ _ _ inserted valid
    refine outer.trans ?_
    rw [inner]
    by_cases same : key = other
    · simp [same]
    · simp [same]

theorem Valid.forEachValueMut (valid : map.Valid) (visit : σ → ν → ν × σ) (state : σ) :
    (map.forEachValueMut visit state).1.Valid ∧
      (map.forEachValueMut visit state).1.bindings = Node.revalued visit map.bindings state ∧
      (map.forEachValueMut visit state).2 = (Node.visitAll visit (map.bindings.map Prod.snd) state).2 := by
  have shaped := valid.shaped
  have length := valid.length_bindings
  have small := valid.small
  unfold IdMap.forEachValueMut
  unfold bindings at length small ⊢
  cases present : map.root with
  | none =>
    simp only [present]
    exact ⟨valid, rfl, rfl⟩
  | some root =>
    rw [present] at shaped length small
    obtain ⟨kept, shown, last⟩ := shaped.2.visited visit state
    have keys : (root.forEachMut visit state).1.bindings map.height =
        ((root.bindings map.height).map Prod.fst).zip
          (Node.visitAll visit ((root.bindings map.height).map Prod.snd) state).1 := shown
    refine ⟨valid_of_root shaped.1 kept ?_ ?_, shown, last⟩
    · intro binding member
      rw [keys] at member
      obtain ⟨old, stored, same⟩ := List.mem_map.mp (List.of_mem_zip member).1
      exact same ▸ small old stored
    · rw [keys, List.length_zip, Node.visitAll_length, List.length_map, List.length_map, Nat.min_self]
      exact length.symm

theorem Valid.collect (valid : map.Valid) (count : Nat) :
    (map.iter.collect count).map (fun item => (item.1.toNat, item.2)) = map.bindings.take count := by
  have shaped := valid.shaped
  have small := valid.small
  unfold bindings at small ⊢
  cases present : map.root with
  | none =>
    rw [Iter.collect_spec (by simp [iter, present])]
    simp [iter, present]
  | some root =>
    rw [present] at shaped small
    have whole : (Frame.new root map.height 0).rest = root.bindings map.height := by
      simp [Frame.new_rest shaped.2]
    have sound : (Frame.new root map.height 0).Sound :=
      Frame.new_sound shaped.2 shaped.1 (by simp) (whole ▸ small)
    rw [Iter.collect_spec (by simpa [iter, present] using sound)]
    simp [iter, present, whole]

end IdMap

end Mille.Radix
