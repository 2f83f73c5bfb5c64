import Mille.Core.Snapshot

/-! The ancestor summaries as natural numbers: what each walk adds to or takes
from the slots it visits. -/

namespace Mille

open Maps

/-- `subtree_visible_count`: no slot reads as zero. -/
def StoreSnapshot.subtreeVisibleCount (snapshot : StoreSnapshot) (id : EntryId) : UInt32 :=
  snapshot.descendants.visibleCounts.getD id 0

/-- `subtree_total_size`. -/
def StoreSnapshot.subtreeTotalSize (snapshot : StoreSnapshot) (id : EntryId) : UInt64 :=
  snapshot.descendants.totalSizes.getD id 0

section Slots

variable {slots : IdMap UInt32} {totals : IdMap UInt64} {id other : EntryId}

theorem getD_insert {ν : Type} {map : IdMap ν} {value fallback : ν} :
    (map.insert id value).getD other fallback = if id = other then value else map.getD other fallback := by
  rw [Std.ExtTreeMap.getD_eq_getD_getElem?, Std.ExtTreeMap.getD_eq_getD_getElem?, lookup_insert]
  split <;> rfl

theorem getD_modify {ν : Type} {map : IdMap ν} {fallback : ν} {change : ν → ν}
    (fixed : change fallback = fallback) : (map.modify id change).getD other fallback =
      if id = other then change (map.getD other fallback) else map.getD other fallback := by
  rw [Std.ExtTreeMap.getD_eq_getD_getElem?, Std.ExtTreeMap.getD_eq_getD_getElem?, lookup_modify]
  split
  · cases map[other]? with
    | none => exact fixed.symm
    | some value => rfl
  · rfl

theorem saturatingSub32_toNat (left right : UInt32) :
    (saturatingSub32 left right).toNat = left.toNat - right.toNat := by
  unfold saturatingSub32
  split
  · rename_i less
    have := UInt32.lt_iff_toNat_lt.mp less
    simp only [UInt32.toNat_zero]
    omega
  · rename_i enough
    rw [UInt32.toNat_sub_of_le _ _ (UInt32.not_lt.mp enough)]

theorem saturatingSub64_toNat (left right : UInt64) :
    (saturatingSub64 left right).toNat = left.toNat - right.toNat := by
  unfold saturatingSub64
  split
  · rename_i less
    have := UInt64.lt_iff_toNat_lt.mp less
    simp only [UInt64.toNat_zero]
    omega
  · rename_i enough
    rw [UInt64.toNat_sub_of_le _ _ (UInt64.not_lt.mp enough)]

theorem zero_saturatingSub32 (right : UInt32) : saturatingSub32 0 right = 0 := by
  apply UInt32.toNat_inj.mp
  rw [saturatingSub32_toNat]
  simp

theorem zero_saturatingSub64 (right : UInt64) : saturatingSub64 0 right = 0 := by
  apply UInt64.toNat_inj.mp
  rw [saturatingSub64_toNat]
  simp

theorem saturatingAdd32_toNat {left right : UInt32} (fits : left.toNat + right.toNat < 2 ^ 32) :
    (saturatingAdd32 left right).toNat = left.toNat + right.toNat := by
  have sum : (left + right).toNat = left.toNat + right.toNat := by
    rw [UInt32.toNat_add, Nat.mod_eq_of_lt fits]
  unfold saturatingAdd32
  rw [if_neg, sum]
  rw [UInt32.lt_iff_toNat_lt, sum]
  omega

theorem saturatingAdd64_toNat {left right : UInt64} (fits : left.toNat + right.toNat < 2 ^ 64) :
    (saturatingAdd64 left right).toNat = left.toNat + right.toNat := by
  have sum : (left + right).toNat = left.toNat + right.toNat := by
    rw [UInt64.toNat_add, Nat.mod_eq_of_lt fits]
  unfold saturatingAdd64
  rw [if_neg, sum]
  rw [UInt64.lt_iff_toNat_lt, sum]
  omega

end Slots

namespace Summaries

variable {sums : Summaries} {chain ids : List EntryId} {id other : EntryId}

def visible (sums : Summaries) (id : EntryId) : Nat :=
  (sums.visibleCounts.getD id 0).toNat

def size (sums : Summaries) (id : EntryId) : Nat :=
  (sums.totalSizes.getD id 0).toNat

theorem visible_lt : sums.visible id < 2 ^ 32 :=
  UInt32.toNat_lt _

theorem size_lt : sums.size id < 2 ^ 64 :=
  UInt64.toNat_lt _

theorem seed_visible (counted : Bool) (size : UInt64) : (sums.seed id counted size).visible other =
    if id = other then (if counted then 1 else 0) else sums.visible other := by
  simp only [visible, seed, getD_insert]
  split
  · cases counted <;> rfl
  · rfl

theorem seed_size (counted : Bool) (total : UInt64) : (sums.seed id counted total).size other =
    if id = other then total.toNat else sums.size other := by
  simp only [size, seed, getD_insert]
  split <;> rfl

theorem erase_visible : (sums.erase ids).visible other = if other ∈ ids then 0 else sums.visible other := by
  simp only [visible, erase, Std.ExtTreeMap.getD_eq_getD_getElem?, lookup_eraseAll]
  split <;> rfl

theorem erase_size : (sums.erase ids).size other = if other ∈ ids then 0 else sums.size other := by
  simp only [size, erase, Std.ExtTreeMap.getD_eq_getD_getElem?, lookup_eraseAll]
  split <;> rfl

theorem add_visible (count : UInt32) (total : UInt64) : (sums.add chain (some count) total).visible other =
    (sums.visible other + chain.count other * count.toNat) % 2 ^ 32 := by
  unfold add
  induction chain generalizing sums with
  | nil =>
    rw [List.foldl_nil, List.count_nil, Nat.zero_mul, Nat.add_zero, Nat.mod_eq_of_lt visible_lt]
  | cons head rest ih =>
    rw [List.foldl_cons, ih, List.count_cons]
    simp only [visible, getD_insert, beq_iff_eq]
    by_cases same : head = other
    · subst same
      simp only [if_true, UInt32.toNat_add, Nat.mod_add_mod]
      congr 1
      ring
    · simp [same]

theorem add_visible_none (total : UInt64) : (sums.add chain none total).visible other = sums.visible other := by
  unfold add
  induction chain generalizing sums with
  | nil => rfl
  | cons head rest ih =>
    rw [List.foldl_cons, ih]
    rfl

theorem add_size (count : Option UInt32) (total : UInt64) : (sums.add chain count total).size other =
    (sums.size other + chain.count other * total.toNat) % 2 ^ 64 := by
  unfold add
  induction chain generalizing sums with
  | nil =>
    rw [List.foldl_nil, List.count_nil, Nat.zero_mul, Nat.add_zero, Nat.mod_eq_of_lt size_lt]
  | cons head rest ih =>
    rw [List.foldl_cons, ih, List.count_cons]
    simp only [size, getD_insert, beq_iff_eq]
    by_cases same : head = other
    · subst same
      simp only [if_true, UInt64.toNat_add, Nat.mod_add_mod]
      congr 1
      ring
    · simp [same]

theorem sub_visible (count : UInt32) (total : UInt64) : (sums.sub chain count total).visible other =
    sums.visible other - chain.count other * count.toNat := by
  unfold sub
  induction chain generalizing sums with
  | nil => simp
  | cons head rest ih =>
    rw [List.foldl_cons, ih, List.count_cons]
    have taken : (sums.visibleCounts.modify head (saturatingSub32 · count)).getD other 0 =
        if head = other then saturatingSub32 (sums.visibleCounts.getD other 0) count
        else sums.visibleCounts.getD other 0 := getD_modify (zero_saturatingSub32 count)
    simp only [visible, taken, beq_iff_eq]
    by_cases same : head = other
    · subst same
      simp only [if_true, saturatingSub32_toNat, Nat.add_mul, Nat.one_mul]
      omega
    · simp [same]

theorem sub_size (count : UInt32) (total : UInt64) : (sums.sub chain count total).size other =
    sums.size other - chain.count other * total.toNat := by
  unfold sub
  induction chain generalizing sums with
  | nil => simp
  | cons head rest ih =>
    rw [List.foldl_cons, ih, List.count_cons]
    have taken : (sums.totalSizes.modify head (saturatingSub64 · total)).getD other 0 =
        if head = other then saturatingSub64 (sums.totalSizes.getD other 0) total
        else sums.totalSizes.getD other 0 := getD_modify (zero_saturatingSub64 total)
    simp only [size, taken, beq_iff_eq]
    by_cases same : head = other
    · subst same
      simp only [if_true, saturatingSub64_toNat, Nat.add_mul, Nat.one_mul]
      omega
    · simp [same]

theorem shift_visible_same {visible size : Int} (still : visible = 0 ∨ other ∉ chain) :
    (sums.shift chain visible size).visible other = sums.visible other := by
  unfold shift
  induction chain generalizing sums with
  | nil => rfl
  | cons head rest ih =>
    rw [List.foldl_cons, ih (still.imp_right fun out => fun later => out (List.mem_cons_of_mem _ later))]
    rcases still with zero | out
    · simp [Summaries.visible, zero]
    · have distinct : head ≠ other := fun same => out (by simp [same])
      simp only [Summaries.visible]
      split
      · rfl
      · simp only [getD_insert, if_neg distinct]

theorem shift_size_same {visible size : Int} (still : size = 0 ∨ other ∉ chain) :
    (sums.shift chain visible size).size other = sums.size other := by
  unfold shift
  induction chain generalizing sums with
  | nil => rfl
  | cons head rest ih =>
    rw [List.foldl_cons, ih (still.imp_right fun out => fun later => out (List.mem_cons_of_mem _ later))]
    rcases still with zero | out
    · simp [Summaries.size, zero]
    · have distinct : head ≠ other := fun same => out (by simp [same])
      simp only [Summaries.size]
      split
      · rfl
      · simp only [getD_insert, if_neg distinct]

theorem shift_visible_moved {visible size : Int} (once : chain.Nodup) (member : other ∈ chain)
    (low : 0 ≤ (sums.visible other : Int) + visible)
    (high : (sums.visible other : Int) + visible < 2 ^ 32) :
    ((sums.shift chain visible size).visible other : Int) = sums.visible other + visible := by
  induction chain generalizing sums with
  | nil => cases member
  | cons head rest ih =>
    obtain ⟨fresh, once⟩ := List.nodup_cons.mp once
    by_cases same : head = other
    · subst same
      have stays := @shift_visible_same (sums.shift [head] visible size) rest head visible size (.inr fresh)
      have split : sums.shift (head :: rest) visible size =
          (sums.shift [head] visible size).shift rest visible size := rfl
      rw [split, stays]
      have bound := @visible_lt sums head
      simp only [shift, List.foldl_cons, List.foldl_nil, Summaries.visible] at low high bound ⊢
      split
      · simp_all
      · rw [getD_insert, if_pos rfl]
        split
        · rename_i up
          have magnitude : visible.toNat < 2 ^ 32 := by omega
          have amount : (UInt32.ofNat visible.toNat).toNat = visible.toNat :=
            UInt32.toNat_ofNat_of_lt magnitude
          rw [saturatingAdd32_toNat (by rw [amount]; omega), amount]
          omega
        · rename_i down
          have magnitude : (-visible).toNat < 2 ^ 32 := by omega
          have amount : (UInt32.ofNat (-visible).toNat).toNat = (-visible).toNat :=
            UInt32.toNat_ofNat_of_lt magnitude
          rw [saturatingSub32_toNat, amount]
          omega
    · have later := (List.mem_cons.mp member).resolve_left (Ne.symm same)
      have before : (sums.shift [head] visible size).visible other = sums.visible other :=
        shift_visible_same (.inr (by simpa using Ne.symm same))
      have split : sums.shift (head :: rest) visible size =
          (sums.shift [head] visible size).shift rest visible size := rfl
      rw [split, ih once later (by rw [before]; exact low) (by rw [before]; exact high), before]

theorem shift_size_moved {visible size : Int} (once : chain.Nodup) (member : other ∈ chain)
    (low : 0 ≤ (sums.size other : Int) + size) (high : (sums.size other : Int) + size < 2 ^ 64) :
    ((sums.shift chain visible size).size other : Int) = sums.size other + size := by
  induction chain generalizing sums with
  | nil => cases member
  | cons head rest ih =>
    obtain ⟨fresh, once⟩ := List.nodup_cons.mp once
    by_cases same : head = other
    · subst same
      have stays := @shift_size_same (sums.shift [head] visible size) rest head visible size (.inr fresh)
      have split : sums.shift (head :: rest) visible size =
          (sums.shift [head] visible size).shift rest visible size := rfl
      rw [split, stays]
      have bound := @size_lt sums head
      simp only [shift, List.foldl_cons, List.foldl_nil, Summaries.size] at low high bound ⊢
      split
      · simp_all
      · rw [getD_insert, if_pos rfl]
        split
        · rename_i up
          have magnitude : size.toNat < 2 ^ 64 := by omega
          have amount : (UInt64.ofNat size.toNat).toNat = size.toNat :=
            UInt64.toNat_ofNat_of_lt magnitude
          rw [saturatingAdd64_toNat (by rw [amount]; omega), amount]
          omega
        · rename_i down
          have magnitude : (-size).toNat < 2 ^ 64 := by omega
          have amount : (UInt64.ofNat (-size).toNat).toNat = (-size).toNat :=
            UInt64.toNat_ofNat_of_lt magnitude
          rw [saturatingSub64_toNat, amount]
          omega
    · have later := (List.mem_cons.mp member).resolve_left (Ne.symm same)
      have before : (sums.shift [head] visible size).size other = sums.size other :=
        shift_size_same (.inr (by simpa using Ne.symm same))
      have split : sums.shift (head :: rest) visible size =
          (sums.shift [head] visible size).shift rest visible size := rfl
      rw [split, ih once later (by rw [before]; exact low) (by rw [before]; exact high), before]

end Summaries

end Mille
