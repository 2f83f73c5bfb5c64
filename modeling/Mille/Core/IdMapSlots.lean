import Mille.Core.IdMap

/-! One node of the trie: its packed items against the slots they stand in. -/

namespace Mille.Radix.Slots

open Bitmap

variable {τ : Type} {slots : Slots τ} {slot other : Nat} {item : τ} {change : τ → τ}

/-- As many items as bits. -/
def Packed (slots : Slots τ) : Prop :=
  countOnes slots.bitmap = slots.items.length

/-- The items with their slots, ascending. -/
def view (slots : Slots τ) : List (Nat × τ) :=
  (occupied slots.bitmap).zip slots.items

/-- The items before a slot. -/
def before (slots : Slots τ) (slot : Nat) : List (Nat × τ) :=
  (lower slots.bitmap slot).zip slots.items

/-- The items behind a slot. -/
def behind (slots : Slots τ) (slot : Nat) : List (Nat × τ) :=
  (upper slots.bitmap slot).zip (slots.items.drop
    ((lower slots.bitmap slot).length + if slots.bitmap.getLsbD slot then 1 else 0))

theorem position_eq (inside : slot < 32) : slots.position slot =
    if slots.bitmap.getLsbD slot then .ok (lower slots.bitmap slot).length
    else .error (lower slots.bitmap slot).length := by
  have tested : slots.bitmap &&& (1 : BitVec 32) <<< slot ≠ 0 ↔ slots.bitmap.getLsbD slot = true := by
    constructor
    · intro some
      by_contra clear
      refine some (BitVec.eq_of_getLsbD_eq fun index _ => ?_)
      rw [BitVec.getLsbD_and, getLsbD_bit inside]
      by_cases same : slot = index
      · subst same
        simp [Bool.not_eq_true _ ▸ clear]
      · simp [same]
    · intro set zero
      have bit := congrArg (BitVec.getLsbD · slot) zero
      simp only [BitVec.getLsbD_and, getLsbD_bit inside, set] at bit
      simp at bit
  unfold position
  dsimp only
  rw [countOnes_below inside]
  simp only [tested]

theorem Packed.split_some (packed : slots.Packed) (inside : slot < 32)
    (set : slots.bitmap.getLsbD slot = true) : ∃ low item high, slots.items = low ++ item :: high ∧
      low.length = (lower slots.bitmap slot).length ∧ high.length = (upper slots.bitmap slot).length := by
  have total : slots.items.length =
      (lower slots.bitmap slot).length + (1 + (upper slots.bitmap slot).length) := by
    rw [← packed, countOnes_eq, occupied_split inside, if_pos set, List.length_append, List.length_append]
    rfl
  have room : (lower slots.bitmap slot).length < slots.items.length := by omega
  refine ⟨slots.items.take (lower slots.bitmap slot).length, slots.items[(lower slots.bitmap slot).length],
    slots.items.drop ((lower slots.bitmap slot).length + 1), ?_, ?_, ?_⟩
  · rw [List.getElem_cons_drop, List.take_append_drop]
  · rw [List.length_take]
    omega
  · rw [List.length_drop]
    omega

theorem Packed.split_none (packed : slots.Packed) (inside : slot < 32)
    (clear : slots.bitmap.getLsbD slot = false) : ∃ low high, slots.items = low ++ high ∧
      low.length = (lower slots.bitmap slot).length ∧ high.length = (upper slots.bitmap slot).length := by
  have total : slots.items.length = (lower slots.bitmap slot).length + (upper slots.bitmap slot).length := by
    rw [← packed, countOnes_eq, occupied_split inside, clear]
    simp
  refine ⟨slots.items.take (lower slots.bitmap slot).length, slots.items.drop (lower slots.bitmap slot).length,
    ?_, ?_, ?_⟩
  · rw [List.take_append_drop]
  · rw [List.length_take]
    omega
  · rw [List.length_drop]
    omega

theorem before_eq {low rest : List τ} (split : slots.items = low ++ rest)
    (short : low.length = (lower slots.bitmap slot).length) :
    slots.before slot = (lower slots.bitmap slot).zip low := by
  unfold before
  rw [split]
  conv => lhs; rw [← List.append_nil (lower slots.bitmap slot)]
  rw [List.zip_append short.symm, List.zip_nil_left, List.append_nil]

theorem before_lt {binding : Nat × τ} (member : binding ∈ slots.before slot) : binding.1 < slot :=
  lower_lt (List.of_mem_zip member).1

theorem behind_gt {binding : Nat × τ} (member : binding ∈ slots.behind slot) : slot < binding.1 :=
  upper_lt (List.of_mem_zip member).1

theorem around_congr {bitmap : BitVec 32}
    (same : ∀ index ≠ slot, bitmap.getLsbD index = slots.bitmap.getLsbD index) :
    lower bitmap slot = lower slots.bitmap slot ∧ upper bitmap slot = upper slots.bitmap slot :=
  ⟨lower_congr fun low less => same low (Nat.ne_of_lt less),
    upper_congr fun high more => same high (Nat.ne_of_gt more)⟩

theorem view_around {bitmap : BitVec 32} {low high mid : List τ} (inside : slot < 32)
    (same : ∀ index ≠ slot, bitmap.getLsbD index = slots.bitmap.getLsbD index)
    (short : low.length = (lower slots.bitmap slot).length)
    (rest : high.length = (upper slots.bitmap slot).length)
    (fill : mid.length = if bitmap.getLsbD slot then 1 else 0) :
    (⟨bitmap, low ++ (mid ++ high)⟩ : Slots τ).Packed ∧
      (⟨bitmap, low ++ (mid ++ high)⟩ : Slots τ).view =
        (lower slots.bitmap slot).zip low ++ (mid.map (slot, ·) ++ (upper slots.bitmap slot).zip high) := by
  obtain ⟨below, above⟩ := around_congr same
  unfold Packed view
  dsimp only
  rw [countOnes_eq, occupied_split inside, below, above]
  split at fill
  · rename_i set
    obtain ⟨item, rfl⟩ := List.length_eq_one_iff.mp fill
    rw [if_pos set, List.zip_append short.symm]
    refine ⟨?_, rfl⟩
    simp only [List.length_append, List.length_singleton]
    omega
  · rename_i clear
    rw [List.length_eq_zero_iff.mp fill, if_neg clear, List.nil_append, List.nil_append, List.map_nil,
      List.nil_append, List.zip_append short.symm]
    refine ⟨?_, rfl⟩
    simp only [List.length_append]
    omega

theorem Packed.behind_some (inside : slot < 32) (set : slots.bitmap.getLsbD slot = true) {low high : List τ}
    (split : slots.items = low ++ item :: high) (short : low.length = (lower slots.bitmap slot).length) :
    slots.get slot = some item ∧ slots.behind slot = (upper slots.bitmap slot).zip high := by
  unfold get behind
  rw [position_eq inside, if_pos set, if_pos set, split, ← short]
  constructor
  · simp
  · rw [← List.drop_drop, List.drop_left, List.drop_one, List.tail_cons]

theorem Packed.behind_none (inside : slot < 32) (clear : slots.bitmap.getLsbD slot = false) {low high : List τ}
    (split : slots.items = low ++ high) (short : low.length = (lower slots.bitmap slot).length) :
    slots.get slot = none ∧ slots.behind slot = (upper slots.bitmap slot).zip high := by
  unfold get behind
  rw [position_eq inside, clear, split, ← short]
  constructor
  · rfl
  · simp

theorem Packed.view_eq (packed : slots.Packed) (inside : slot < 32) :
    slots.view = slots.before slot ++ ((slots.get slot).toList.map (slot, ·) ++ slots.behind slot) := by
  by_cases set : slots.bitmap.getLsbD slot = true
  · obtain ⟨low, item, high, split, short, rest⟩ := packed.split_some inside set
    obtain ⟨found, tail⟩ := behind_some inside set split short
    have around := (@view_around τ slots slot slots.bitmap low high [item] inside (fun _ _ => rfl) short rest
      (by simp [set])).2
    rw [before_eq split short, found, tail]
    exact (congrArg (fun items => (Slots.mk slots.bitmap items).view) split).trans around
  · obtain ⟨low, high, split, short, rest⟩ := packed.split_none inside (Bool.not_eq_true _ ▸ set)
    obtain ⟨missing, tail⟩ := behind_none inside (Bool.not_eq_true _ ▸ set) split short
    have around := (@view_around τ slots slot slots.bitmap low high [] inside (fun _ _ => rfl) short rest
      (by simp [Bool.not_eq_true _ ▸ set])).2
    rw [before_eq split short, missing, tail]
    exact (congrArg (fun items => (Slots.mk slots.bitmap items).view) split).trans around

theorem insertIdx_middle (low high : List τ) (item : τ) :
    (low ++ high).insertIdx low.length item = low ++ item :: high := by
  induction low with
  | nil => rfl
  | cons head rest ih => rw [List.cons_append, List.length_cons, List.insertIdx_succ_cons, ih, List.cons_append]

theorem eraseIdx_middle (low high : List τ) (item : τ) :
    (low ++ item :: high).eraseIdx low.length = low ++ high := by
  rw [List.eraseIdx_append_of_length_le (Nat.le_refl _), Nat.sub_self, List.eraseIdx_cons_zero]

theorem modify_middle (low high : List τ) (item : τ) (change : τ → τ) :
    (low ++ item :: high).modify low.length change = low ++ change item :: high := by
  induction low with
  | nil => rfl
  | cons head rest ih => rw [List.cons_append, List.length_cons, List.modify_succ_cons, ih, List.cons_append]

theorem Packed.insert (packed : slots.Packed) (inside : slot < 32) :
    (slots.insert slot item).1 = slots.get slot ∧ (slots.insert slot item).2.Packed ∧
      (slots.insert slot item).2.view = slots.before slot ++ ([(slot, item)] ++ slots.behind slot) := by
  by_cases set : slots.bitmap.getLsbD slot = true
  · obtain ⟨low, old, high, split, short, rest⟩ := packed.split_some inside set
    obtain ⟨found, tail⟩ := behind_some inside set split short
    have around := @view_around τ slots slot slots.bitmap low high [item] inside (fun _ _ => rfl) short rest
      (by simp [set])
    have result : slots.insert slot item = (some old, ⟨slots.bitmap, low ++ ([item] ++ high)⟩) := by
      unfold Slots.insert
      rw [position_eq inside, if_pos set, split, ← short]
      simp
    rw [result, before_eq split short, found, tail]
    exact ⟨rfl, around⟩
  · obtain ⟨low, high, split, short, rest⟩ := packed.split_none inside (Bool.not_eq_true _ ▸ set)
    obtain ⟨missing, tail⟩ := behind_none inside (Bool.not_eq_true _ ▸ set) split short
    have bits (index : Nat) : (slots.bitmap ||| (1 : BitVec 32) <<< slot).getLsbD index =
        (slots.bitmap.getLsbD index || decide (slot = index)) := by
      rw [BitVec.getLsbD_or, getLsbD_bit inside]
    have around := @view_around τ slots slot (slots.bitmap ||| (1 : BitVec 32) <<< slot) low high [item] inside
      (fun index distinct => by rw [bits, decide_eq_false (Ne.symm distinct), Bool.or_false]) short rest
      (by rw [bits, decide_eq_true rfl, Bool.or_true, if_pos rfl, List.length_singleton])
    have result : slots.insert slot item =
        (none, ⟨slots.bitmap ||| (1 : BitVec 32) <<< slot, low ++ ([item] ++ high)⟩) := by
      unfold Slots.insert
      rw [position_eq inside, if_neg set, split, ← short]
      dsimp only
      rw [insertIdx_middle]
      rfl
    rw [result, before_eq split short, missing, tail]
    exact ⟨rfl, around⟩

theorem Packed.remove (packed : slots.Packed) (inside : slot < 32) :
    (slots.remove slot).1 = slots.get slot ∧ (slots.remove slot).2.Packed ∧
      (slots.remove slot).2.view = slots.before slot ++ slots.behind slot := by
  by_cases set : slots.bitmap.getLsbD slot = true
  · obtain ⟨low, old, high, split, short, rest⟩ := packed.split_some inside set
    obtain ⟨found, tail⟩ := behind_some inside set split short
    have bits (index : Nat) : (slots.bitmap &&& ~~~((1 : BitVec 32) <<< slot)).getLsbD index =
        (slots.bitmap.getLsbD index && !decide (slot = index)) := by
      rw [BitVec.getLsbD_and, BitVec.getLsbD_not, getLsbD_bit inside]
      by_cases short : index < 32
      · rw [decide_eq_true short, Bool.true_and]
      · rw [BitVec.getLsbD_of_ge _ _ (Nat.not_lt.mp short), Bool.false_and, Bool.false_and]
    have around := @view_around τ slots slot (slots.bitmap &&& ~~~((1 : BitVec 32) <<< slot)) low high [] inside
      (fun index distinct => by rw [bits, decide_eq_false (Ne.symm distinct), Bool.not_false, Bool.and_true])
      short rest (by rw [bits, decide_eq_true rfl]; simp)
    have result : slots.remove slot =
        (some old, ⟨slots.bitmap &&& ~~~((1 : BitVec 32) <<< slot), low ++ ([] ++ high)⟩) := by
      unfold Slots.remove
      rw [position_eq inside, if_pos set, split, ← short]
      simp [eraseIdx_middle]
    rw [result, before_eq split short, found, tail]
    exact ⟨rfl, around⟩
  · obtain ⟨low, high, split, short, rest⟩ := packed.split_none inside (Bool.not_eq_true _ ▸ set)
    obtain ⟨missing, tail⟩ := behind_none inside (Bool.not_eq_true _ ▸ set) split short
    have result : slots.remove slot = (none, slots) := by
      unfold Slots.remove
      rw [position_eq inside, if_neg set]
    have shown := packed.view_eq inside
    rw [missing] at shown
    rw [result, missing]
    exact ⟨rfl, packed, shown⟩

theorem Packed.modify (packed : slots.Packed) (inside : slot < 32) : (slots.modify slot change).Packed ∧
    (slots.modify slot change).view =
      slots.before slot ++ ((slots.get slot).toList.map (fun item => (slot, change item)) ++ slots.behind slot) := by
  by_cases set : slots.bitmap.getLsbD slot = true
  · obtain ⟨low, old, high, split, short, rest⟩ := packed.split_some inside set
    obtain ⟨found, tail⟩ := behind_some inside set split short
    have around := @view_around τ slots slot slots.bitmap low high [change old] inside (fun _ _ => rfl) short rest
      (by simp [set])
    have result : slots.modify slot change = ⟨slots.bitmap, low ++ ([change old] ++ high)⟩ := by
      unfold Slots.modify
      rw [position_eq inside, if_pos set, split, ← short]
      simp [modify_middle]
    rw [result, before_eq split short, found, tail]
    exact around
  · obtain ⟨low, high, split, short, rest⟩ := packed.split_none inside (Bool.not_eq_true _ ▸ set)
    obtain ⟨missing, tail⟩ := behind_none inside (Bool.not_eq_true _ ▸ set) split short
    have result : slots.modify slot change = slots := by
      unfold Slots.modify
      rw [position_eq inside, if_neg set]
    have shown := packed.view_eq inside
    rw [missing] at shown
    rw [result, missing]
    exact ⟨packed, shown⟩

theorem Packed.mem_view (packed : slots.Packed) (inside : slot < 32) :
    (slot, item) ∈ slots.view ↔ slots.get slot = some item := by
  rw [packed.view_eq inside]
  simp only [List.mem_append, List.mem_map, Option.mem_toList, Prod.mk.injEq, true_and,
    exists_eq_right]
  constructor
  · rintro (early | here | late)
    · exact absurd (before_lt early) (Nat.lt_irrefl _)
    · exact here
    · exact absurd (behind_gt late) (Nat.lt_irrefl _)
  · exact fun here => .inr (.inl here)

theorem view_lt {binding : Nat × τ} (member : binding ∈ slots.view) : binding.1 < 32 :=
  occupied_lt (List.of_mem_zip member).1

theorem Packed.view_slots (packed : slots.Packed) : slots.view.map Prod.fst = occupied slots.bitmap := by
  unfold view
  refine List.map_fst_zip ?_
  rw [← countOnes_eq, packed]

theorem Packed.view_sorted (packed : slots.Packed) :
    slots.view.Pairwise (fun left right => left.1 < right.1) := by
  refine List.pairwise_map.mp ?_
  rw [packed.view_slots]
  exact occupied_sorted

theorem Packed.view_items (packed : slots.Packed) : slots.view.map Prod.snd = slots.items := by
  unfold view
  refine List.map_snd_zip ?_
  rw [← countOnes_eq, packed]

theorem Packed.isEmpty_iff (packed : slots.Packed) : slots.isEmpty = true ↔ slots.items = [] := by
  unfold isEmpty
  rw [decide_eq_true_iff, ← occupied_eq_nil, ← List.length_eq_zero_iff, ← countOnes_eq, packed,
    List.length_eq_zero_iff]

theorem single_packed (inside : slot < 32) : (single slot item).Packed ∧ (single slot item).view = [(slot, item)] := by
  have alone : occupied ((1 : BitVec 32) <<< slot) = [slot] := by
    rw [occupied_split inside, getLsbD_bit inside, decide_eq_true rfl, if_pos rfl]
    have below : lower ((1 : BitVec 32) <<< slot) slot = [] := by
      refine List.filter_eq_nil_iff.mpr fun low member => ?_
      rw [getLsbD_bit inside]
      have := List.mem_range.mp member
      simp only [decide_eq_true_eq]
      omega
    have above : upper ((1 : BitVec 32) <<< slot) slot = [] := by
      refine List.filter_eq_nil_iff.mpr fun high member => ?_
      rw [getLsbD_bit inside]
      have := List.mem_range'_1.mp member
      simp only [decide_eq_true_eq]
      omega
    rw [below, above]
    rfl
  unfold Packed view single
  rw [countOnes_eq]
  dsimp only
  rw [alone]
  exact ⟨rfl, rfl⟩

theorem Packed.around_eq (packed : slots.Packed) (inside : slot < 32) {low mid high : List (Nat × τ)}
    (shown : slots.view = low ++ (mid ++ high)) (lows : ∀ binding ∈ low, binding.1 < slot)
    (mids : ∀ binding ∈ mid, binding.1 = slot) (highs : ∀ binding ∈ high, slot < binding.1) :
    slots.before slot = low ∧ slots.behind slot = high := by
  have cut (low mid high : List (Nat × τ)) (lows : ∀ binding ∈ low, binding.1 < slot)
      (mids : ∀ binding ∈ mid, binding.1 = slot) (highs : ∀ binding ∈ high, slot < binding.1) :
      (low ++ (mid ++ high)).filter (·.1 < slot) = low ∧ (low ++ (mid ++ high)).filter (slot < ·.1) = high := by
    have lowAll : low.filter (·.1 < slot) = low :=
      List.filter_eq_self.mpr fun binding member => by simpa using lows binding member
    have lowNone : low.filter (slot < ·.1) = [] :=
      List.filter_eq_nil_iff.mpr fun binding member => by simpa using (lows binding member).le
    have midNone : mid.filter (·.1 < slot) = [] ∧ mid.filter (slot < ·.1) = [] :=
      ⟨List.filter_eq_nil_iff.mpr fun binding member => by simp [mids binding member],
        List.filter_eq_nil_iff.mpr fun binding member => by simp [mids binding member]⟩
    have highNone : high.filter (·.1 < slot) = [] :=
      List.filter_eq_nil_iff.mpr fun binding member => by simpa using (highs binding member).le
    have highAll : high.filter (slot < ·.1) = high :=
      List.filter_eq_self.mpr fun binding member => by simpa using highs binding member
    rw [List.filter_append, List.filter_append, List.filter_append, List.filter_append, lowAll, lowNone,
      midNone.1, midNone.2, highNone, highAll]
    exact ⟨by simp, rfl⟩
  have own := cut (slots.before slot) ((slots.get slot).toList.map (slot, ·)) (slots.behind slot)
    (fun _ => before_lt) (by simp) (fun _ => behind_gt)
  rw [← packed.view_eq inside, shown] at own
  have given := cut low mid high lows mids highs
  exact ⟨own.1.symm.trans given.1, own.2.symm.trans given.2⟩

theorem Packed.modify_remove (packed : slots.Packed) (inside : slot < 32) :
    ((slots.modify slot change).remove slot).2.Packed ∧
      ((slots.modify slot change).remove slot).2.view = slots.before slot ++ slots.behind slot := by
  obtain ⟨kept, shown⟩ := @modify τ slots slot change packed inside
  obtain ⟨_, cleared, left⟩ := kept.remove inside
  obtain ⟨low, high⟩ := kept.around_eq inside shown (fun _ => before_lt) (by simp) (fun _ => behind_gt)
  rw [low, high] at left
  exact ⟨cleared, left⟩

theorem Packed.items_ne_nil (packed : slots.Packed) (some : slots.view ≠ []) : slots.items ≠ [] := by
  rw [← packed.view_items]
  exact fun none => some (List.map_eq_nil_iff.mp none)

theorem view_eq_nil (none : slots.items = []) : slots.view = [] := by
  rw [view, none, List.zip_nil_right]

theorem modify_ne_nil (some : slots.items ≠ []) : (slots.modify slot change).items ≠ [] := by
  unfold Slots.modify
  split
  · intro none
    have length := congrArg List.length none
    dsimp only at length
    rw [List.length_modify] at length
    exact some (List.length_eq_zero_iff.mp length)
  · exact some

theorem before_items (member : item ∈ (slots.before slot).map Prod.snd) : item ∈ slots.items := by
  obtain ⟨binding, early, rfl⟩ := List.mem_map.mp member
  exact (List.of_mem_zip early).2

theorem behind_items (member : item ∈ (slots.behind slot).map Prod.snd) : item ∈ slots.items := by
  obtain ⟨binding, late, rfl⟩ := List.mem_map.mp member
  exact List.mem_of_mem_drop (List.of_mem_zip late).2

end Mille.Radix.Slots
