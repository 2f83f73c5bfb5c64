import Mathlib

/-! Bitmaps as sets of slots: the occupied slots in ascending order, how many
there are below a slot, and what setting, clearing or popping a bit does to
them. -/

namespace Mille.Bitmap

variable {w : Nat} {bitmap other : BitVec w} {slot : Nat}

/-- The slots whose bit is set, ascending. -/
def occupied (bitmap : BitVec w) : List Nat :=
  (List.range w).filter (bitmap.getLsbD ·)

/-- `count_ones`. -/
def countOnes (bitmap : BitVec w) : Nat :=
  (List.range w).countP (bitmap.getLsbD ·)

/-- `trailing_zeros`: the lowest set bit, or the width. -/
def trailingZeros (bitmap : BitVec w) : Nat :=
  ((List.range w).find? (bitmap.getLsbD ·)).getD w

/-- Occupied slots below one. -/
def lower (bitmap : BitVec w) (slot : Nat) : List Nat :=
  (List.range slot).filter (bitmap.getLsbD ·)

/-- Occupied slots above one. -/
def upper (bitmap : BitVec w) (slot : Nat) : List Nat :=
  (List.range' (slot + 1) (w - (slot + 1))).filter (bitmap.getLsbD ·)

theorem mem_occupied : slot ∈ occupied bitmap ↔ bitmap.getLsbD slot = true := by
  simp only [occupied, List.mem_filter, List.mem_range]
  exact ⟨And.right, fun set => ⟨BitVec.lt_of_getLsbD set, set⟩⟩

theorem occupied_lt (member : slot ∈ occupied bitmap) : slot < w :=
  BitVec.lt_of_getLsbD (mem_occupied.mp member)

theorem occupied_sorted : (occupied bitmap).Pairwise (· < ·) :=
  List.pairwise_lt_range.sublist List.filter_sublist

theorem countOnes_eq : countOnes bitmap = (occupied bitmap).length :=
  List.countP_eq_length_filter

theorem occupied_eq_nil : occupied bitmap = [] ↔ bitmap = 0 := by
  constructor
  · intro none
    refine BitVec.eq_of_getLsbD_eq fun slot _ => ?_
    have clear := List.eq_nil_iff_forall_not_mem.mp none slot
    rw [mem_occupied, Bool.not_eq_true] at clear
    simp [clear]
  · rintro rfl
    simp [occupied]

theorem lower_lt {low : Nat} (member : low ∈ lower bitmap slot) : low < slot :=
  List.mem_range.mp (List.mem_filter.mp member).1

theorem upper_lt {high : Nat} (member : high ∈ upper bitmap slot) : slot < high := by
  have range := List.mem_range'_1.mp (List.mem_filter.mp member).1
  omega

theorem occupied_split (inside : slot < w) : occupied bitmap =
    lower bitmap slot ++ ((if bitmap.getLsbD slot then [slot] else []) ++ upper bitmap slot) := by
  have range : List.range w = List.range slot ++ (slot :: List.range' (slot + 1) (w - (slot + 1))) := by
    have joined := @List.range'_append_1 0 slot (w - (slot + 1) + 1)
    have total : slot + (w - (slot + 1) + 1) = w := by omega
    rw [total, Nat.zero_add] at joined
    rw [List.range_eq_range', List.range_eq_range', ← List.range'_succ, joined]
  unfold occupied lower upper
  rw [range, List.filter_append, List.filter_cons]
  split <;> simp [*]

theorem lower_congr (same : ∀ low < slot, other.getLsbD low = bitmap.getLsbD low) :
    lower other slot = lower bitmap slot :=
  List.filter_congr fun low member => same low (List.mem_range.mp member)

theorem upper_congr (same : ∀ high, slot < high → other.getLsbD high = bitmap.getLsbD high) :
    upper other slot = upper bitmap slot := by
  refine List.filter_congr fun high member => same high ?_
  have range := List.mem_range'_1.mp member
  omega

theorem getLsbD_bit (inside : slot < w) (index : Nat) :
    ((1 : BitVec w) <<< slot).getLsbD index = decide (slot = index) := by
  have power : (1 : BitVec w) <<< slot = BitVec.twoPow w slot := rfl
  rw [power, BitVec.getLsbD_twoPow]
  simp [inside]

theorem getLsbD_below (inside : slot < w) (index : Nat) :
    ((1 : BitVec w) <<< slot - 1).getLsbD index = decide (index < slot) := by
  have power : (1 : BitVec w) <<< slot = BitVec.twoPow w slot := rfl
  have bound : 2 ^ slot < 2 ^ w := Nat.pow_lt_pow_right (by omega) inside
  have positive : 0 < 2 ^ slot := Nat.two_pow_pos slot
  have value : ((1 : BitVec w) <<< slot - 1).toNat = 2 ^ slot - 1 := by
    rw [power, BitVec.toNat_sub, BitVec.toNat_twoPow_of_lt inside]
    have one : (1 : BitVec w).toNat = 1 := by
      rw [BitVec.ofNat_eq_ofNat, BitVec.toNat_ofNat, Nat.mod_eq_of_lt (lt_of_le_of_lt positive bound)]
    rw [one]
    have : 2 ^ w - 1 + 2 ^ slot = 2 ^ slot - 1 + 2 ^ w := by omega
    rw [this, Nat.add_mod_right, Nat.mod_eq_of_lt (by omega)]
  rw [← BitVec.testBit_toNat, value, Nat.testBit_two_pow_sub_one]

theorem countOnes_below (inside : slot < w) :
    countOnes (bitmap &&& ((1 : BitVec w) <<< slot - 1)) = (lower bitmap slot).length := by
  rw [countOnes_eq, occupied_split inside]
  have bits (index : Nat) : (bitmap &&& ((1 : BitVec w) <<< slot - 1)).getLsbD index =
      (bitmap.getLsbD index && decide (index < slot)) := by
    rw [BitVec.getLsbD_and, getLsbD_below inside]
  have none : upper (bitmap &&& ((1 : BitVec w) <<< slot - 1)) slot = [] := by
    refine List.filter_eq_nil_iff.mpr fun high member => ?_
    have range := List.mem_range'_1.mp member
    rw [bits]
    simp only [Bool.and_eq_true, decide_eq_true_eq, not_and]
    omega
  have same : lower (bitmap &&& ((1 : BitVec w) <<< slot - 1)) slot = lower bitmap slot :=
    lower_congr fun low less => by rw [bits, decide_eq_true less, Bool.and_true]
  rw [none, same, bits]
  simp

/-- Subtracting one moves only the bits up to the lowest set one. -/
theorem testBit_and_pred {value first : Nat} (set : value.testBit first = true)
    (clear : ∀ low < first, value.testBit low = false) (index : Nat) :
    (value &&& (value - 1)).testBit index = (value.testBit index && decide (index ≠ first)) := by
  have zeros : value % 2 ^ first = 0 := by
    refine Nat.eq_of_testBit_eq fun low => ?_
    rw [Nat.testBit_mod_two_pow, Nat.zero_testBit]
    by_cases less : low < first
    · rw [clear low less, Bool.and_false]
    · simp [less]
  have odd : value / 2 ^ first % 2 = 1 := by
    rw [Nat.testBit, Nat.shiftRight_eq_div_pow] at set
    simpa [Nat.and_one_is_mod] using set
  have split : value = 2 ^ first * (value / 2 ^ first) := by
    have division := Nat.div_add_mod value (2 ^ first)
    omega
  obtain ⟨half, double⟩ : ∃ half, value / 2 ^ first = 2 * half + 1 := ⟨value / 2 ^ first / 2, by omega⟩
  have positive : 0 < 2 ^ first := Nat.two_pow_pos first
  have pred : value - 1 = 2 ^ first * (2 * half) + (2 ^ first - 1) := by
    rw [split, double, Nat.mul_add, Nat.mul_one]
    omega
  have before : (value - 1).testBit index =
      if index < first then true else (2 * half).testBit (index - first) := by
    rw [pred, Nat.testBit_two_pow_mul_add _ (by omega), Nat.testBit_two_pow_sub_one]
    split <;> simp [*]
  have here : value.testBit index =
      if index < first then false else (2 * half + 1).testBit (index - first) := by
    rw [split, double, Nat.testBit_two_pow_mul]
    split
    · rename_i less
      simp [Nat.not_le.mpr less]
    · rename_i least
      simp [Nat.not_lt.mp least]
  rw [Nat.testBit_and, before, here]
  split
  · simp
  · rename_i least
    by_cases same : index = first
    · simp [same]
    · obtain ⟨more, distance⟩ : ∃ more, index - first = more + 1 := ⟨index - first - 1, by omega⟩
      rw [distance, Nat.testBit_succ, Nat.testBit_succ]
      have up : (2 * half + 1) / 2 = half := by omega
      have down : 2 * half / 2 = half := by omega
      simp [up, same]

/-- Popping the lowest set bit drops the first occupied slot. -/
theorem occupied_pop {first : Nat} {rest : List Nat} (some : occupied bitmap = first :: rest) :
    trailingZeros bitmap = first ∧ occupied (bitmap &&& (bitmap - 1)) = rest := by
  have set : bitmap.getLsbD first = true := mem_occupied.mp (some ▸ List.mem_cons_self)
  have inside : first < w := BitVec.lt_of_getLsbD set
  have clear (low : Nat) (less : low < first) : bitmap.getLsbD low = false := by
    rw [← Bool.not_eq_true, ← mem_occupied, some]
    intro member
    rcases List.mem_cons.mp member with same | later
    · omega
    · have order := (List.pairwise_cons.mp (some ▸ occupied_sorted)).1 low later
      omega
  have lowest : lower bitmap first = [] := by
    refine List.filter_eq_nil_iff.mpr fun low member => ?_
    rw [clear low (List.mem_range.mp member)]
    simp
  have tail : upper bitmap first = rest := by
    have around := @occupied_split w bitmap first inside
    rw [some, lowest, if_pos set] at around
    exact (List.cons.inj around).2.symm
  constructor
  · have found : (List.range w).find? (bitmap.getLsbD ·) = Option.some first := by
      rw [← List.head?_filter]
      exact congrArg List.head? some
    rw [trailingZeros, found]
    rfl
  · have bits (index : Nat) : (bitmap &&& (bitmap - 1)).getLsbD index =
        (bitmap.getLsbD index && decide (index ≠ first)) := by
      have positive : 0 < bitmap.toNat := by
        by_contra none
        have zero : bitmap.toNat = 0 := by omega
        rw [← BitVec.testBit_toNat, zero, Nat.zero_testBit] at set
        cases set
      have bound := bitmap.isLt
      have pred : (bitmap - 1).toNat = bitmap.toNat - 1 := by
        have one : (1 : BitVec w).toNat = 1 := by
          rw [BitVec.ofNat_eq_ofNat, BitVec.toNat_ofNat, Nat.mod_eq_of_lt (lt_of_le_of_lt positive bound)]
        rw [BitVec.toNat_sub_of_le (by rw [BitVec.le_def, one]; omega), one]
      have popped := @testBit_and_pred bitmap.toNat first (by rw [BitVec.testBit_toNat, set])
        (fun low less => by rw [BitVec.testBit_toNat, clear low less]) index
      rw [← BitVec.testBit_toNat, BitVec.toNat_and, pred, popped, BitVec.testBit_toNat]
    rw [occupied_split inside, bits]
    have below : lower (bitmap &&& (bitmap - 1)) first = [] := by
      rw [← lowest]
      refine lower_congr fun low less => ?_
      rw [bits, clear low less, Bool.false_and]
    have above : upper (bitmap &&& (bitmap - 1)) first = rest := by
      rw [← tail]
      refine upper_congr fun high more => ?_
      rw [bits, decide_eq_true (Nat.ne_of_gt more), Bool.and_true]
    rw [below, above]
    simp

theorem countOnes_le : countOnes bitmap ≤ w :=
  List.countP_le_length.trans (Nat.le_of_eq List.length_range)

theorem countOnes_pop (some : bitmap ≠ 0) : countOnes bitmap = countOnes (bitmap &&& (bitmap - 1)) + 1 := by
  rw [countOnes_eq, countOnes_eq]
  cases slots : occupied bitmap with
  | nil => exact absurd (occupied_eq_nil.mp slots) some
  | cons first rest => rw [(occupied_pop slots).2, List.length_cons]

end Mille.Bitmap
