import Mathlib

/-! Lists sorted by an order of their elements with repeats dropped: each set of
elements has one such list. -/

namespace Mille

open Std

variable {α : Type} [Ord α] [DecidableEq α]

/-- `Vec::dedup`: of equal neighbours the first stays. -/
def dropRepeats : List α → List α
  | [] => []
  | [last] => [last]
  | first :: second :: rest =>
    if first = second then dropRepeats (second :: rest) else first :: dropRepeats (second :: rest)

/-- `sort` and then `dedup`. -/
def sortDistinct (list : List α) : List α :=
  dropRepeats (list.mergeSort fun first second => (compare first second).isLE)

/-- Every element lies strictly before the ones behind it. -/
def Ascending (list : List α) : Prop :=
  list.Pairwise fun first second => compare first second = .lt

omit [Ord α] in
theorem mem_dropRepeats {list : List α} {element : α} : element ∈ dropRepeats list ↔ element ∈ list := by
  induction list with
  | nil => exact Iff.rfl
  | cons first rest ih =>
    cases rest with
    | nil => exact Iff.rfl
    | cons second rest =>
      rw [dropRepeats]
      split_ifs with same
      · rw [ih, same]
        simp
      · rw [List.mem_cons, ih]
        simp only [List.mem_cons]

theorem mem_sortDistinct {list : List α} {element : α} : element ∈ sortDistinct list ↔ element ∈ list := by
  rw [sortDistinct, mem_dropRepeats, List.mem_mergeSort]

variable [TransOrd α] [LawfulEqOrd α]

theorem dropRepeats_ascending {list : List α}
    (sorted : list.Pairwise fun first second => (compare first second).isLE = true) :
    Ascending (dropRepeats list) := by
  induction list with
  | nil => exact List.Pairwise.nil
  | cons first rest ih =>
    cases rest with
    | nil => exact List.pairwise_singleton _ _
    | cons second rest =>
      obtain ⟨least, sorted⟩ := List.pairwise_cons.mp sorted
      rw [dropRepeats]
      split_ifs with same
      · exact ih sorted
      · apply List.pairwise_cons.mpr
        refine ⟨?_, ih sorted⟩
        intro element member
        have below : (compare first second) = .lt := by
          have le := least second List.mem_cons_self
          cases order : compare first second with
          | lt => rfl
          | eq => exact absurd (LawfulEqOrd.eq_of_compare order) same
          | gt => simp [order] at le
        rcases List.mem_cons.mp (mem_dropRepeats.mp member) with isSecond | later
        · exact isSecond ▸ below
        · exact TransCmp.lt_of_lt_of_isLE below (List.rel_of_pairwise_cons sorted later)

theorem sortDistinct_ascending (list : List α) : Ascending (sortDistinct list) := by
  apply dropRepeats_ascending
  apply List.pairwise_mergeSort
  · intro first second third
    exact TransCmp.isLE_trans
  · intro first second
    cases order : compare first second with
    | lt => rfl
    | eq => rfl
    | gt =>
      rw [OrientedCmp.gt_iff_lt.mp order]
      rfl

omit [DecidableEq α] in
theorem Ascending.eq {first second : List α} (left : Ascending first) (right : Ascending second)
    (same : ∀ element, element ∈ first ↔ element ∈ second) : first = second := by
  have : Std.Irrefl (fun one two : α => compare one two = .lt) :=
    ⟨fun one less => absurd (ReflCmp.compare_self.symm.trans less) (by decide)⟩
  have : Std.Antisymm (fun one two : α => compare one two = .lt) :=
    ⟨fun one two less more => absurd (TransCmp.lt_trans less more)
      (fun loop => absurd (ReflCmp.compare_self.symm.trans loop) (by decide))⟩
  exact List.Pairwise.eq_of_mem_iff left right same

theorem sortDistinct_congr {first second : List α}
    (same : ∀ element, element ∈ first ↔ element ∈ second) : sortDistinct first = sortDistinct second := by
  apply (sortDistinct_ascending first).eq (sortDistinct_ascending second)
  intro element
  rw [mem_sortDistinct, mem_sortDistinct, same]

end Mille
