import Mathlib

/-! Cutting a list into consecutive pieces of at most a given size. -/

namespace Mille

variable {α : Type}

/-- Pieces of at most `size` elements, in order. The bound on their number only
makes the recursion structural: a list has no more pieces than elements. -/
def chunksWithin (size : Nat) : Nat → List α → List (List α)
  | 0, _ => []
  | _ + 1, [] => []
  | bound + 1, head :: tail =>
    (head :: tail).take size :: chunksWithin size bound ((head :: tail).drop size)

def chunks (size : Nat) (values : List α) : List (List α) := chunksWithin size values.length values

namespace chunks

variable {size : Nat}

private theorem cut_length (positive : 0 < size) (head : α) (tail : List α) :
    ((head :: tail).drop size).length ≤ tail.length := by
  simp only [List.length_drop, List.length_cons]
  omega

private theorem flatten_within (positive : 0 < size) (bound : Nat) (values : List α)
    (enough : values.length ≤ bound) : (chunksWithin size bound values).flatten = values := by
  induction bound generalizing values with
  | zero =>
    have empty : values = [] := List.eq_nil_of_length_eq_zero (Nat.le_zero.mp enough)
    rw [empty]
    rfl
  | succ bound ih =>
    cases values with
    | nil => rfl
    | cons head tail =>
      have shorter := cut_length positive head tail
      rw [chunksWithin, List.flatten_cons, ih _ (by simp at enough ⊢; omega), List.take_append_drop]

theorem flatten_eq (positive : 0 < size) (values : List α) : (chunks size values).flatten = values :=
  flatten_within positive _ values le_rfl

private theorem piece_within (positive : 0 < size) (bound : Nat) (values piece : List α)
    (member : piece ∈ chunksWithin size bound values) : piece ≠ [] ∧ piece.length ≤ size := by
  induction bound generalizing values with
  | zero => cases member
  | succ bound ih =>
    cases values with
    | nil => cases member
    | cons head tail =>
      rcases List.mem_cons.mp member with same | later
      · subst same
        obtain ⟨less, rfl⟩ := Nat.exists_eq_succ_of_ne_zero positive.ne'
        simp
      · exact ih _ later

theorem piece_bounds (positive : 0 < size) {values piece : List α}
    (member : piece ∈ chunks size values) : piece ≠ [] ∧ piece.length ≤ size :=
  piece_within positive _ values piece member

theorem mem_iff (positive : 0 < size) {values : List α} {value : α} :
    (∃ piece ∈ chunks size values, value ∈ piece) ↔ value ∈ values := by
  rw [← List.mem_flatten, flatten_eq positive]

private theorem length_within (positive : 0 < size) (bound : Nat) (values : List α)
    (enough : values.length ≤ bound) :
    (chunksWithin size bound values).length = (values.length + size - 1) / size := by
  induction bound generalizing values with
  | zero =>
    have empty : values.length = 0 := Nat.le_zero.mp enough
    rw [chunksWithin, empty, Nat.div_eq_of_lt (by omega)]
    rfl
  | succ bound ih =>
    cases values with
    | nil =>
      rw [chunksWithin, List.length_nil, List.length_nil, Nat.div_eq_of_lt (by omega)]
    | cons head tail =>
      have shorter := cut_length positive head tail
      rw [chunksWithin, List.length_cons, ih _ (by simp at enough ⊢; omega), List.length_drop,
        List.length_cons]
      by_cases more : size ≤ tail.length + 1
      · rw [← Nat.add_div_right _ positive]
        congr 1
        omega
      · have none_left : tail.length + 1 - size + size - 1 = size - 1 := by omega
        have one : tail.length + 1 + size - 1 = tail.length + size := by omega
        rw [none_left, Nat.div_eq_of_lt (by omega), one, Nat.add_div_right _ positive,
          Nat.div_eq_of_lt (by omega)]

theorem length_eq (positive : 0 < size) (values : List α) :
    (chunks size values).length = (values.length + size - 1) / size :=
  length_within positive _ values le_rfl

theorem take_mem {values : List α} (some_left : values ≠ []) : values.take size ∈ chunks size values := by
  cases values with
  | nil => exact absurd rfl some_left
  | cons head tail =>
    unfold chunks
    rw [List.length_cons, chunksWithin]
    exact List.mem_cons_self

end chunks

end Mille
