import Mathlib

/-! Parts written one after the other with a separator behind each: what such a text
says about the parts. -/

namespace Mille

variable {α : Type} [DecidableEq α] {separator : α}

/-- Every part with the separator behind it. -/
def terminated (separator : α) (parts : List (List α)) : List α :=
  parts.flatMap (· ++ [separator])

/-- The parts, cut at every separator within them. -/
def pieces (separator : α) (parts : List (List α)) : List (List α) :=
  parts.flatMap (·.splitOn separator)

omit [DecidableEq α] in
theorem terminated_append (parts more : List (List α)) :
    terminated separator (parts ++ more) = terminated separator parts ++ terminated separator more :=
  List.flatMap_append

theorem splitOn_terminated_append (parts : List (List α)) (last : List α) :
    (terminated separator parts ++ last).splitOn separator =
      pieces separator parts ++ last.splitOn separator := by
  induction parts with
  | nil => rfl
  | cons part rest ih =>
    have cut : terminated separator (part :: rest) ++ last =
        part ++ separator :: (terminated separator rest ++ last) := by
      rw [terminated, List.flatMap_cons, List.append_assoc, List.append_assoc]
      rfl
    rw [cut, List.splitOn_append_cons_self, ih, ← List.append_assoc]
    rfl

theorem splitOn_terminated (parts : List (List α)) :
    (terminated separator parts).splitOn separator = pieces separator parts ++ [[]] := by
  have whole := @splitOn_terminated_append _ _ separator parts []
  rwa [List.append_nil, List.splitOn_nil] at whole

theorem terminated_inj {parts others : List (List α)} :
    terminated separator parts = terminated separator others ↔
      pieces separator parts = pieces separator others := by
  constructor
  · intro same
    have split := congrArg (List.splitOn separator) same
    rw [splitOn_terminated, splitOn_terminated] at split
    exact List.append_cancel_right split
  · intro same
    rw [← @List.intercalate_splitOn α (terminated separator parts) _ _ separator, splitOn_terminated, same,
      ← splitOn_terminated, List.intercalate_splitOn]

theorem pieces_of_unbroken {parts : List (List α)} (unbroken : ∀ part ∈ parts, separator ∉ part) :
    pieces separator parts = parts := by
  induction parts with
  | nil => rfl
  | cons part rest ih =>
    obtain ⟨first, others⟩ := List.forall_mem_cons.mp unbroken
    have whole := ih others
    unfold pieces at whole ⊢
    rw [List.flatMap_cons, List.splitOn_eq_singleton first, whole]
    rfl

end Mille
