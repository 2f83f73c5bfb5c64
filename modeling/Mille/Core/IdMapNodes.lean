import Mille.Core.IdMapSlots

/-! A subtrie as the ascending list of its bindings: what each walk down the
trie does to that list. -/

namespace Mille.Radix

open Bitmap

variable {ν σ : Type} {key : UInt64} {level slot : Nat} {node : Node ν} {value : ν}

/-- Levels a 64-bit key can ask for. -/
def top : Nat := 12

theorem slotOf_eq (shallow : level ≤ top) : slotOf key level = key.toNat / 32 ^ level % 32 := by
  unfold top at shallow
  have shift : (UInt64.ofNat (bits * level)).toNat % 64 = 5 * level := by
    unfold bits
    rw [UInt64.toNat_ofNat']
    omega
  have power : 2 ^ (5 * level) = 32 ^ level := by rw [Nat.pow_mul]
  have low : mask.toNat = 2 ^ 5 - 1 := rfl
  unfold slotOf
  rw [UInt64.toNat_and, UInt64.toNat_shiftRight, shift, low, Nat.and_two_pow_sub_one_eq_mod,
    Nat.shiftRight_eq_div_pow, power]

theorem slotOf_lt (shallow : level ≤ top) : slotOf key level < 32 := by
  rw [slotOf_eq shallow]
  exact Nat.mod_lt _ (by omega)

/-- The digits of a key up to a level. -/
def residue (key : UInt64) (level : Nat) : Nat :=
  key.toNat % 32 ^ (level + 1)

theorem residue_zero : residue key 0 = slotOf key 0 := by
  rw [slotOf_eq (Nat.zero_le _)]
  simp [residue]

theorem residue_succ (shallow : level + 1 ≤ top) :
    residue key (level + 1) = slotOf key (level + 1) * 32 ^ (level + 1) + residue key level := by
  rw [slotOf_eq shallow]
  unfold residue
  rw [Nat.mod_pow_succ, Nat.mul_comm, Nat.add_comm]

theorem residue_lt : residue key level < 32 ^ (level + 1) :=
  Nat.mod_lt _ (Nat.pow_pos (by omega))

/-- The bindings of one child, behind the digit of its slot. -/
def lift (level slot : Nat) (bindings : List (Nat × ν)) : List (Nat × ν) :=
  bindings.map (fun binding => (slot * 32 ^ (level + 1) + binding.1, binding.2))

namespace Node

/-- The stored values with their key digits, ascending. -/
def bindings : Nat → Node ν → List (Nat × ν)
  | _, leaf slots => slots.view
  | level + 1, branch slots => slots.view.flatMap (fun child => lift level child.1 (bindings level child.2))
  | 0, branch _ => []

/-- Packed nodes, none of them empty, with their leaves at level 0. -/
inductive Shaped : Nat → Node ν → Prop where
  | leaf {slots : Slots ν} (packed : slots.Packed) (occupied : slots.items ≠ []) : Shaped 0 (leaf slots)
  | branch {level : Nat} {slots : Slots (Node ν)} (packed : slots.Packed) (occupied : slots.items ≠ [])
      (below : ∀ child ∈ slots.items, Shaped level child) : Shaped (level + 1) (branch slots)

theorem bindings_branch {slots : Slots (Node ν)} : bindings (level + 1) (branch slots) =
    slots.view.flatMap (fun child => lift level child.1 (bindings level child.2)) := rfl

theorem mem_lift {slot : Nat} {list : List (Nat × ν)} {binding : Nat × ν} :
    binding ∈ lift level slot list ↔
      ∃ low ∈ list, binding = (slot * 32 ^ (level + 1) + low.1, low.2) := by
  simp [lift, eq_comm]

theorem bindings_lt {binding : Nat × ν} (member : binding ∈ bindings level node) :
    binding.1 < 32 ^ (level + 1) := by
  induction level generalizing node binding with
  | zero =>
    cases node with
    | leaf slots => exact Slots.view_lt member
    | branch slots => cases member
  | succ level ih =>
    cases node with
    | leaf slots =>
      have least : 32 ^ 1 ≤ 32 ^ (level + 1 + 1) := Nat.pow_le_pow_right (by omega) (by omega)
      exact (Slots.view_lt member).trans_le least
    | branch slots =>
      obtain ⟨child, shown, inside⟩ := List.mem_flatMap.mp member
      obtain ⟨low, stored, rfl⟩ := mem_lift.mp inside
      have digit : child.1 + 1 ≤ 32 := Slots.view_lt shown
      have product : (child.1 + 1) * 32 ^ (level + 1) ≤ 32 * 32 ^ (level + 1) := Nat.mul_le_mul_right _ digit
      have small := ih stored
      have expand : 32 ^ (level + 1 + 1) = 32 * 32 ^ (level + 1) := Nat.pow_succ'
      rw [Nat.add_mul, Nat.one_mul] at product
      rw [expand]
      exact (Nat.add_lt_add_left small _).trans_le product

theorem lift_lt {left right : Nat} (less : left < right) {first second : List (Nat × ν)}
    (small : ∀ binding ∈ first, binding.1 < 32 ^ (level + 1)) {one two : Nat × ν}
    (here : one ∈ lift level left first) (there : two ∈ lift level right second) : one.1 < two.1 := by
  obtain ⟨low, stored, rfl⟩ := mem_lift.mp here
  obtain ⟨high, _, rfl⟩ := mem_lift.mp there
  have bound := small low stored
  have product : (left + 1) * 32 ^ (level + 1) ≤ right * 32 ^ (level + 1) := Nat.mul_le_mul_right _ less
  rw [Nat.add_mul, Nat.one_mul] at product
  exact (Nat.add_lt_add_left bound _).trans_le (product.trans (Nat.le_add_right _ _))

theorem Shaped.bindings_sorted (shaped : Shaped level node) :
    (bindings level node).Pairwise (fun left right => left.1 < right.1) := by
  induction shaped with
  | leaf packed _ => exact packed.view_sorted
  | @branch level slots packed _ _ ih =>
    rw [bindings_branch, List.pairwise_flatMap]
    constructor
    · intro child shown
      have item : child.2 ∈ slots.items := (List.of_mem_zip shown).2
      refine List.pairwise_map.mpr ((ih child.2 item).imp fun less => ?_)
      dsimp only
      omega
    · refine packed.view_sorted.imp fun less one here two there => ?_
      exact lift_lt less (fun _ => bindings_lt) here there

/-- The bindings of several children, in slot order. -/
def spread (level : Nat) (children : List (Nat × Node ν)) : List (Nat × ν) :=
  children.flatMap (fun child => lift level child.1 (bindings level child.2))

theorem spread_append (first second : List (Nat × Node ν)) :
    spread level (first ++ second) = spread level first ++ spread level second :=
  List.flatMap_append

theorem spread_single (slot : Nat) (child : Node ν) :
    spread level [(slot, child)] = lift level slot (bindings level child) := by
  simp [spread]

theorem lift_append (slot : Nat) (first second : List (Nat × ν)) :
    lift level slot (first ++ second) = lift level slot first ++ lift level slot second :=
  List.map_append

theorem pathTo_shaped (shallow : level ≤ top) : Shaped level (pathTo key value level) ∧
    bindings level (pathTo key value level) = [(residue key level, value)] := by
  induction level with
  | zero =>
    obtain ⟨packed, shown⟩ := @Slots.single_packed ν (slotOf key 0) value (slotOf_lt shallow)
    refine ⟨.leaf packed (by simp [Slots.single]), ?_⟩
    rw [residue_zero]
    exact shown
  | succ level ih =>
    obtain ⟨shaped, alone⟩ := ih (Nat.le_of_succ_le shallow)
    obtain ⟨packed, shown⟩ := @Slots.single_packed (Node ν) (slotOf key (level + 1)) (pathTo key value level)
      (slotOf_lt shallow)
    refine ⟨.branch packed (by simp [Slots.single]) (by simpa [Slots.single] using shaped), ?_⟩
    rw [pathTo, bindings_branch, shown, ← spread, spread_single, alone, residue_succ shallow]
    rfl

/-- The bindings around one key. -/
structure Around (level : Nat) (node : Node ν) (key : UInt64) (low high : List (Nat × ν)) : Prop where
  lows : ∀ binding ∈ low, binding.1 < residue key level
  highs : ∀ binding ∈ high, residue key level < binding.1
  here : bindings level node = low ++ ((get key level node).toList.map (residue key level, ·) ++ high)
  inserted : ∀ value, (insert key value level node).1 = get key level node ∧
    Shaped level (insert key value level node).2 ∧
    bindings level (insert key value level node).2 = low ++ ([(residue key level, value)] ++ high)
  changed : ∀ change, (getMut key change level node).1 = get key level node ∧
    Shaped level (getMut key change level node).2 ∧
    bindings level (getMut key change level node).2 =
      low ++ ((get key level node).toList.map (fun value => (residue key level, change value)) ++ high)
  removed : (removeAt key level node).1 = get key level node ∧
    bindings level (removeAt key level node).2 = low ++ high ∧
    ((removeAt key level node).2.isEmpty = true ∧ low ++ high = [] ∨
      (removeAt key level node).2.isEmpty = false ∧ Shaped level (removeAt key level node).2)

theorem Shaped.around_leaf {slots : Slots ν} (packed : slots.Packed) (occupied : slots.items ≠ []) :
    Around 0 (.leaf slots) key (slots.before (slotOf key 0)) (slots.behind (slotOf key 0)) where
  lows binding member := by
    rw [residue_zero]
    exact Slots.before_lt member
  highs binding member := by
    rw [residue_zero]
    exact Slots.behind_gt member
  here := by
    rw [residue_zero]
    exact packed.view_eq (slotOf_lt (Nat.zero_le _))
  inserted value := by
    obtain ⟨previous, kept, shown⟩ := @Slots.Packed.insert ν slots _ value packed (slotOf_lt (Nat.zero_le _))
    rw [residue_zero]
    exact ⟨previous, .leaf kept (kept.items_ne_nil (by simp [shown])), shown⟩
  changed change := by
    obtain ⟨kept, shown⟩ := @Slots.Packed.modify ν slots _ change packed (slotOf_lt (Nat.zero_le _))
    rw [residue_zero]
    exact ⟨rfl, .leaf kept (Slots.modify_ne_nil occupied), shown⟩
  removed := by
    obtain ⟨previous, kept, shown⟩ := @Slots.Packed.remove ν slots _ packed (slotOf_lt (Nat.zero_le _))
    refine ⟨previous, shown, ?_⟩
    by_cases none : (slots.remove (slotOf key 0)).2.items = []
    · left
      refine ⟨kept.isEmpty_iff.mpr none, ?_⟩
      rw [← shown]
      exact Slots.view_eq_nil none
    · right
      exact ⟨Bool.eq_false_iff.mpr fun empty => none (kept.isEmpty_iff.mp empty), .leaf kept none⟩

theorem lift_below {left right : Nat} (less : left < right) {list : List (Nat × ν)}
    (small : ∀ binding ∈ list, binding.1 < 32 ^ (level + 1)) {binding : Nat × ν}
    (member : binding ∈ lift level left list) : binding.1 < right * 32 ^ (level + 1) := by
  obtain ⟨low, stored, rfl⟩ := mem_lift.mp member
  have product : (left + 1) * 32 ^ (level + 1) ≤ right * 32 ^ (level + 1) := Nat.mul_le_mul_right _ less
  rw [Nat.add_mul, Nat.one_mul] at product
  exact (Nat.add_lt_add_left (small low stored) _).trans_le product

theorem lift_above {left right : Nat} (less : left < right) {list : List (Nat × ν)} {binding : Nat × ν}
    (member : binding ∈ lift level right list) : left * 32 ^ (level + 1) + residue key level < binding.1 := by
  obtain ⟨low, stored, rfl⟩ := mem_lift.mp member
  have product : (left + 1) * 32 ^ (level + 1) ≤ right * 32 ^ (level + 1) := Nat.mul_le_mul_right _ less
  rw [Nat.add_mul, Nat.one_mul] at product
  exact ((Nat.add_lt_add_left residue_lt _).trans_le product).trans_le (Nat.le_add_right _ _)

section Branch

variable {slots : Slots (Node ν)}

theorem spread_before (shallow : level + 1 ≤ top) (binding : Nat × ν)
    (member : binding ∈ spread level (slots.before (slotOf key (level + 1)))) :
    binding.1 < residue key (level + 1) := by
  obtain ⟨child, early, inside⟩ := List.mem_flatMap.mp member
  rw [residue_succ shallow]
  exact (lift_below (Slots.before_lt early) (fun _ => bindings_lt) inside).trans_le (Nat.le_add_right _ _)

theorem spread_behind (shallow : level + 1 ≤ top) (binding : Nat × ν)
    (member : binding ∈ spread level (slots.behind (slotOf key (level + 1)))) :
    residue key (level + 1) < binding.1 := by
  obtain ⟨child, late, inside⟩ := List.mem_flatMap.mp member
  rw [residue_succ shallow]
  exact lift_above (Slots.behind_gt late) inside

theorem all_shaped {written : Slots (Node ν)} (packed : written.Packed)
    (below : ∀ child ∈ slots.items, Shaped level child) {mid : List (Nat × Node ν)}
    (shown : written.view = slots.before slot ++ (mid ++ slots.behind slot))
    (here : ∀ child ∈ mid.map Prod.snd, Shaped level child) (child : Node ν) (member : child ∈ written.items) :
    Shaped level child := by
  rw [← packed.view_items, shown, List.map_append, List.map_append, List.mem_append, List.mem_append] at member
  rcases member with early | written | late
  · exact below child (Slots.before_items early)
  · exact here child written
  · exact below child (Slots.behind_items late)

/-- A branch with nothing in the slot of the key. -/
theorem Shaped.around_free (shallow : level + 1 ≤ top) (packed : slots.Packed) (occupied : slots.items ≠ [])
    (below : ∀ child ∈ slots.items, Shaped level child) (free : slots.get (slotOf key (level + 1)) = none) :
    Around (level + 1) (.branch slots) key (spread level (slots.before (slotOf key (level + 1))))
      (spread level (slots.behind (slotOf key (level + 1)))) := by
  have inside := @slotOf_lt key (level + 1) shallow
  have shown := packed.view_eq inside
  rw [free] at shown
  have missing : get key (level + 1) (.branch slots) = none := by rw [get, free]; rfl
  have whole : bindings (level + 1) (.branch slots) = spread level (slots.before (slotOf key (level + 1))) ++
      spread level (slots.behind (slotOf key (level + 1))) := by
    rw [bindings_branch, ← spread, shown]
    exact spread_append _ _
  refine ⟨spread_before shallow, spread_behind shallow, ?_, fun value => ?_, fun change => ?_, ?_⟩
  · rw [missing]
    exact whole
  · obtain ⟨_, kept, written⟩ := @Slots.Packed.insert _ slots _ (pathTo key value level) packed inside
    obtain ⟨path, alone⟩ := @pathTo_shaped ν key level value (Nat.le_of_succ_le shallow)
    rw [missing]
    simp only [insert, free]
    refine ⟨trivial, .branch kept (kept.items_ne_nil (by simp [written])) ?_, ?_⟩
    · exact all_shaped kept below written (by simpa using path)
    · rw [bindings_branch, ← spread, written, spread_append, spread_append, spread_single, alone,
        residue_succ shallow]
      rfl
  · rw [missing]
    simp only [getMut, free]
    exact ⟨trivial, .branch packed occupied below, whole⟩
  · rw [missing]
    simp only [removeAt, free]
    refine ⟨trivial, whole, .inr ⟨?_, .branch packed occupied below⟩⟩
    exact Bool.eq_false_iff.mpr fun empty => occupied (packed.isEmpty_iff.mp empty)

/-- A branch with a child in the slot of the key. -/
theorem Shaped.around_child (shallow : level + 1 ≤ top) (packed : slots.Packed) (occupied : slots.items ≠ [])
    (below : ∀ child ∈ slots.items, Shaped level child) {child : Node ν}
    (found : slots.get (slotOf key (level + 1)) = some child) {low high : List (Nat × ν)}
    (around : Around level child key low high) :
    Around (level + 1) (.branch slots) key
      (spread level (slots.before (slotOf key (level + 1))) ++ lift level (slotOf key (level + 1)) low)
      (lift level (slotOf key (level + 1)) high ++ spread level (slots.behind (slotOf key (level + 1)))) := by
  have inside := @slotOf_lt key (level + 1) shallow
  have digits := @residue_succ key level shallow
  have here : get key (level + 1) (.branch slots) = get key level child := by rw [get, found]; rfl
  -- A node with another child in this slot shows that child's bindings between the same neighbours.
  have whole {written : Slots (Node ν)} {next : Node ν} {mid : List (Nat × ν)}
      (shown : written.view = slots.before (slotOf key (level + 1)) ++
        ([(slotOf key (level + 1), next)] ++ slots.behind (slotOf key (level + 1))))
      (inner : bindings level next = low ++ (mid ++ high)) : bindings (level + 1) (.branch written) =
        (spread level (slots.before (slotOf key (level + 1))) ++ lift level (slotOf key (level + 1)) low) ++
          (lift level (slotOf key (level + 1)) mid ++ (lift level (slotOf key (level + 1)) high ++
            spread level (slots.behind (slotOf key (level + 1))))) := by
    rw [bindings_branch, ← spread, shown, spread_append, spread_append, spread_single, inner, lift_append,
      lift_append]
    simp only [List.append_assoc]
  refine ⟨?_, ?_, ?_, fun value => ?_, fun change => ?_, ?_⟩
  · intro binding member
    rcases List.mem_append.mp member with early | inner
    · exact spread_before shallow binding early
    · obtain ⟨lower, stored, rfl⟩ := mem_lift.mp inner
      rw [digits]
      exact Nat.add_lt_add_left (around.lows lower stored) _
  · intro binding member
    rcases List.mem_append.mp member with inner | late
    · obtain ⟨higher, stored, rfl⟩ := mem_lift.mp inner
      rw [digits]
      exact Nat.add_lt_add_left (around.highs higher stored) _
    · exact spread_behind shallow binding late
  · have shown := packed.view_eq inside
    rw [found] at shown
    rw [here, whole shown around.here, digits]
    cases get key level child <;> rfl
  · obtain ⟨previous, shaped, inner⟩ := around.inserted value
    obtain ⟨kept, written⟩ := @Slots.Packed.modify _ slots _
      (fun _ => (insert key value level child).2) packed inside
    rw [found] at written
    rw [here]
    simp only [insert, found]
    refine ⟨previous, .branch kept (Slots.modify_ne_nil occupied) ?_, ?_⟩
    · exact all_shaped kept below written (by simpa using shaped)
    · rw [whole written inner, digits]
      rfl
  · obtain ⟨previous, shaped, inner⟩ := around.changed change
    obtain ⟨kept, written⟩ := @Slots.Packed.modify _ slots _
      (fun _ => (getMut key change level child).2) packed inside
    rw [found] at written
    rw [here]
    simp only [getMut, found]
    refine ⟨previous, .branch kept (Slots.modify_ne_nil occupied) ?_, ?_⟩
    · exact all_shaped kept below written (by simpa using shaped)
    · rw [whole written inner, digits]
      cases get key level child <;> rfl
  · obtain ⟨previous, inner, rest⟩ := around.removed
    obtain ⟨kept, written⟩ := @Slots.Packed.modify _ slots _
      (fun _ => (removeAt key level child).2) packed inside
    obtain ⟨cleared, left⟩ := @Slots.Packed.modify_remove _ slots _
      (fun _ => (removeAt key level child).2) packed inside
    rw [found] at written
    rw [here]
    simp only [removeAt, found]
    refine ⟨previous, ?_⟩
    rcases rest with ⟨empty, none⟩ | ⟨full, shaped⟩
    · -- The child is gone: its slot goes with it, and the branch may be empty now.
      obtain ⟨rfl, rfl⟩ := List.append_eq_nil_iff.mp none
      rw [if_pos empty]
      have bare : bindings (level + 1) (.branch ((slots.modify (slotOf key (level + 1))
          (fun _ => (removeAt key level child).2)).remove (slotOf key (level + 1))).2) =
          spread level (slots.before (slotOf key (level + 1))) ++
            spread level (slots.behind (slotOf key (level + 1))) := by
        rw [bindings_branch, ← spread, left, spread_append]
      have plain : (spread level (slots.before (slotOf key (level + 1))) ++
          lift level (slotOf key (level + 1)) ([] : List (Nat × ν))) ++
          (lift level (slotOf key (level + 1)) [] ++ spread level (slots.behind (slotOf key (level + 1)))) =
          spread level (slots.before (slotOf key (level + 1))) ++
            spread level (slots.behind (slotOf key (level + 1))) := by
        simp [lift]
      rw [plain]
      refine ⟨bare, ?_⟩
      by_cases nothing : ((slots.modify (slotOf key (level + 1))
          (fun _ => (removeAt key level child).2)).remove (slotOf key (level + 1))).2.items = []
      · left
        refine ⟨cleared.isEmpty_iff.mpr nothing, ?_⟩
        have shown := left.symm.trans (Slots.view_eq_nil nothing)
        rw [← spread_append, shown]
        rfl
      · right
        refine ⟨Bool.eq_false_iff.mpr fun vacant => nothing (cleared.isEmpty_iff.mp vacant),
          .branch cleared nothing ?_⟩
        exact @all_shaped ν level _ slots _ cleared below [] left (by simp)
    · rw [if_neg (by simp [full])]
      have inner : bindings level (removeAt key level child).2 = low ++ ([] ++ high) := inner
      refine ⟨whole written inner, .inr ⟨?_, .branch kept (Slots.modify_ne_nil occupied) ?_⟩⟩
      · exact Bool.eq_false_iff.mpr fun vacant =>
          Slots.modify_ne_nil occupied (kept.isEmpty_iff.mp vacant)
      · exact all_shaped kept below written (by simpa using shaped)

end Branch

theorem Shaped.around (shaped : Shaped level node) (shallow : level ≤ top) (key : UInt64) :
    ∃ low high, Around level node key low high := by
  induction shaped with
  | leaf packed occupied => exact ⟨_, _, around_leaf packed occupied⟩
  | @branch level slots packed occupied below ih =>
    cases found : slots.get (slotOf key (level + 1)) with
    | none => exact ⟨_, _, around_free shallow packed occupied below found⟩
    | some child =>
      have shown := (packed.mem_view (slotOf_lt shallow)).mpr found
      obtain ⟨low, high, around⟩ := ih child (List.of_mem_zip shown).2 (Nat.le_of_succ_le shallow)
      exact ⟨_, _, around_child shallow packed occupied below found around⟩

theorem lift_ne_nil {list : List (Nat × ν)} (some : list ≠ []) : lift level slot list ≠ [] :=
  fun none => some (List.map_eq_nil_iff.mp none)

theorem Shaped.bindings_ne_nil (shaped : Shaped level node) : bindings level node ≠ [] := by
  induction shaped with
  | @leaf slots packed occupied =>
    intro none
    rw [← packed.view_items] at occupied
    exact occupied (List.map_eq_nil_iff.mpr none)
  | @branch level slots packed occupied _ ih =>
    intro none
    rw [← packed.view_items] at occupied
    obtain ⟨child, shown⟩ := List.exists_mem_of_ne_nil _ (fun empty => occupied (List.map_eq_nil_iff.mpr empty))
    exact lift_ne_nil (ih child.2 (List.of_mem_zip shown).2) (List.flatMap_eq_nil_iff.mp none child shown)

section Visit

variable {visit : σ → ν → ν × σ} {state : σ}

theorem visitAll_length (values : List ν) : (visitAll visit values state).1.length = values.length := by
  induction values generalizing state with
  | nil => rfl
  | cons value rest ih => simp [visitAll, ih]

theorem visitAll_append (first second : List ν) : visitAll visit (first ++ second) state =
    ((visitAll visit first state).1 ++ (visitAll visit second (visitAll visit first state).2).1,
      (visitAll visit second (visitAll visit first state).2).2) := by
  induction first generalizing state with
  | nil => rfl
  | cons value rest ih => simp [visitAll, ih]

/-- The same keys with the values a visitor leaves behind. -/
def revalued (visit : σ → ν → ν × σ) (list : List (Nat × ν)) (state : σ) : List (Nat × ν) :=
  (list.map Prod.fst).zip (visitAll visit (list.map Prod.snd) state).1

theorem revalued_append (first second : List (Nat × ν)) : revalued visit (first ++ second) state =
    revalued visit first state ++
      revalued visit second (visitAll visit (first.map Prod.snd) state).2 := by
  unfold revalued
  rw [List.map_append, List.map_append, visitAll_append, List.zip_append]
  rw [visitAll_length, List.length_map, List.length_map]

theorem revalued_lift (slot : Nat) (list : List (Nat × ν)) :
    revalued visit (lift level slot list) state = lift level slot (revalued visit list state) := by
  have values : (lift level slot list).map Prod.snd = list.map Prod.snd := by
    unfold lift
    rw [List.map_map]
    rfl
  have keys : (lift level slot list).map Prod.fst =
      (list.map Prod.fst).map (slot * 32 ^ (level + 1) + ·) := by
    unfold lift
    rw [List.map_map, List.map_map]
    rfl
  unfold revalued
  rw [values, keys, List.zip_map_left]
  rfl

/-- What visiting a subtrie does to it. -/
def Visited (level : Nat) (visit : σ → ν → ν × σ) (node : Node ν) : Prop :=
  ∀ state, Shaped level (forEachMut visit node state).1 ∧
    bindings level (forEachMut visit node state).1 = revalued visit (bindings level node) state ∧
    (forEachMut visit node state).2 = (visitAll visit ((bindings level node).map Prod.snd) state).2

theorem forEachChild_spec {slots : List Nat} {children : List (Node ν)} (same : slots.length = children.length)
    (visited : ∀ child ∈ children, Visited level visit child) :
    (forEachChild visit children state).1.length = children.length ∧
      (∀ child ∈ (forEachChild visit children state).1, Shaped level child) ∧
      spread level (slots.zip (forEachChild visit children state).1) =
        revalued visit (spread level (slots.zip children)) state ∧
      (forEachChild visit children state).2 =
        (visitAll visit ((spread level (slots.zip children)).map Prod.snd) state).2 := by
  induction children generalizing slots state with
  | nil => simp [forEachChild, spread, revalued, visitAll]
  | cons child rest ih =>
    obtain ⟨slot, slots, rfl⟩ : ∃ slot more, slots = slot :: more := by
      cases slots with
      | nil => cases same
      | cons slot more => exact ⟨slot, more, rfl⟩
    obtain ⟨shaped, inner, after⟩ := visited child List.mem_cons_self state
    obtain ⟨length, all, outer, last⟩ := @ih (forEachMut visit child state).2 slots (Nat.succ.inj same)
      (fun other member => visited other (List.mem_cons_of_mem _ member))
    have values : (lift level slot (bindings level child)).map Prod.snd = (bindings level child).map Prod.snd := by
      unfold lift
      rw [List.map_map]
      rfl
    have cons (child : Node ν) (rest : List (Node ν)) : spread level ((slot :: slots).zip (child :: rest)) =
        lift level slot (bindings level child) ++ spread level (slots.zip rest) := by
      simp [spread]
    simp only [forEachChild]
    refine ⟨by simp [length], ?_, ?_, ?_⟩
    · intro other member
      rcases List.mem_cons.mp member with rfl | later
      · exact shaped
      · exact all other later
    · rw [cons, cons, revalued_append, revalued_lift, inner, outer, values, ← after]
    · rw [cons, List.map_append, values, visitAll_append, ← after]
      exact last

theorem Shaped.visited (shaped : Shaped level node) (visit : σ → ν → ν × σ) : Visited level visit node := by
  induction shaped with
  | @leaf slots packed occupied =>
    intro state
    have length := @visitAll_length ν σ visit state slots.items
    have kept : (Slots.mk slots.bitmap (visitAll visit slots.items state).1).Packed := packed.trans length.symm
    have keys : slots.view.map Prod.fst = Bitmap.occupied slots.bitmap := packed.view_slots
    simp only [forEachMut, bindings, revalued, packed.view_items, keys]
    refine ⟨.leaf kept fun none => occupied ?_, rfl, trivial⟩
    exact List.length_eq_zero_iff.mp (length.symm.trans (congrArg List.length none))
  | @branch level slots packed occupied _ ih =>
    intro state
    have same : (Bitmap.occupied slots.bitmap).length = slots.items.length := by
      rw [← countOnes_eq]
      exact packed
    obtain ⟨length, all, inner, last⟩ := @forEachChild_spec ν σ level visit state _ _ same ih
    have kept : (Slots.mk slots.bitmap (forEachChild visit slots.items state).1).Packed := packed.trans length.symm
    simp only [forEachMut]
    refine ⟨.branch kept (fun none => occupied ?_) all, inner, last⟩
    exact List.length_eq_zero_iff.mp (length.symm.trans (congrArg List.length none))

end Visit

end Node

end Mille.Radix
