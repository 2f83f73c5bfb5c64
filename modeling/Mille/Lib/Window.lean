import Mathlib

/-! Sliding windows over a list of times that never go back, and the last elements
that a bounded buffer keeps of one. -/

namespace Mille.Window

variable {α : Type}

/-- The last `size` elements of a list, or all of it. -/
def lastN (size : Nat) (list : List α) : List α :=
  list.drop (list.length - size)

theorem length_lastN (size : Nat) (list : List α) : (lastN size list).length = min size list.length := by
  rw [lastN, List.length_drop]
  omega

theorem lastN_append (size : Nat) (front back : List α) :
    lastN size (front ++ back) = lastN (size - back.length) front ++ lastN size back := by
  have behind : front.length + back.length - size - front.length = back.length - size := by omega
  rw [lastN, lastN, lastN, List.drop_append, List.length_append, behind]
  by_cases fits : size ≤ back.length
  · rw [Nat.sub_eq_zero_of_le fits, List.drop_eq_nil_of_le (by omega : front.length ≤ _),
      Nat.sub_zero, List.drop_length]
  · rw [show front.length + back.length - size = front.length - (size - back.length) by omega]

theorem lastN_push (size : Nat) (list : List α) (last : α) :
    lastN size (lastN size list ++ [last]) = lastN size (list ++ [last]) := by
  have again : lastN (size - 1) (lastN size list) = lastN (size - 1) list := by
    rw [lastN, length_lastN, lastN, lastN, List.drop_drop]
    congr 1
    omega
  rw [lastN_append, lastN_append, List.length_singleton, again]

/-- The times that have not fallen behind the cutoff. -/
def recent (cutoff : Nat) (times : List Nat) : List Nat :=
  times.dropWhile (· < cutoff)

theorem recent_zero (times : List Nat) : recent 0 times = times := by
  cases times with
  | nil => rfl
  | cons first rest => simp [recent]

theorem recent_eq_filter {times : List Nat} (ordered : times.Pairwise (· ≤ ·)) (cutoff : Nat) :
    recent cutoff times = times.filter (cutoff ≤ ·) := by
  induction times with
  | nil => rfl
  | cons first rest ih =>
    obtain ⟨after, ordered⟩ := List.pairwise_cons.mp ordered
    rw [recent, List.dropWhile_cons]
    by_cases stale : first < cutoff
    · rw [if_pos (by simpa using stale), List.filter_cons_of_neg (by simpa using stale)]
      exact ih ordered
    · have kept : rest.filter (cutoff ≤ ·) = rest := by
        apply List.filter_eq_self.mpr
        intro time member
        have later := after time member
        simp only [decide_eq_true_eq]
        omega
      rw [if_neg (by simpa using stale), List.filter_cons_of_pos (by simpa using stale), kept]

theorem recent_recent {earlier later : Nat} (advances : earlier ≤ later) (times : List Nat) :
    recent later (recent earlier times) = recent later times := by
  induction times with
  | nil => rfl
  | cons first rest ih =>
    by_cases stale : first < earlier
    · have drops : recent earlier (first :: rest) = recent earlier rest := by
        simp [recent, stale]
      have behind : recent later (first :: rest) = recent later rest := by
        simp [recent, Nat.lt_of_lt_of_le stale advances]
      rw [drops, behind, ih]
    · have keeps : recent earlier (first :: rest) = first :: rest := by
        simp [recent, stale]
      rw [keeps]

theorem recent_lastN {times : List Nat} (ordered : times.Pairwise (· ≤ ·)) (cutoff size : Nat) :
    recent cutoff (lastN size times) = lastN size (recent cutoff times) := by
  have split : times = times.takeWhile (· < cutoff) ++ recent cutoff times :=
    (List.takeWhile_append_dropWhile).symm
  have stale : ∀ time ∈ times.takeWhile (· < cutoff), time < cutoff := by
    intro time member
    simpa using List.mem_takeWhile_imp member
  have fresh : ∀ time ∈ recent cutoff times, cutoff ≤ time := by
    intro time member
    rw [recent_eq_filter ordered] at member
    simpa using (List.mem_filter.mp member).2
  have last_ordered : (lastN size times).Pairwise (· ≤ ·) := ordered.sublist (List.drop_sublist _ _)
  rw [recent_eq_filter last_ordered]
  conv_lhs => rw [split, lastN_append, List.filter_append]
  have none_left : (lastN (size - (recent cutoff times).length) (times.takeWhile (· < cutoff))).filter
      (cutoff ≤ ·) = [] := by
    apply List.filter_eq_nil_iff.mpr
    intro time member above
    have below := stale time (List.mem_of_mem_drop member)
    simp only [decide_eq_true_eq] at above
    omega
  have all_left : (lastN size (recent cutoff times)).filter (cutoff ≤ ·) =
      lastN size (recent cutoff times) := by
    apply List.filter_eq_self.mpr
    intro time member
    simpa using fresh time (List.mem_of_mem_drop member)
  rw [none_left, all_left, List.nil_append]

theorem recent_snoc {times : List Nat} {last cutoff : Nat} (inside : cutoff ≤ last) :
    recent cutoff (times ++ [last]) = recent cutoff times ++ [last] := by
  induction times with
  | nil => simp [recent, Nat.not_lt.mpr inside]
  | cons first rest ih =>
    by_cases stale : first < cutoff
    · simpa [recent, stale] using ih
    · simp [recent, stale]

theorem slide {times : List Nat} (ordered : times.Pairwise (· ≤ ·)) {earlier later last : Nat}
    (advances : earlier ≤ later) (inside : later ≤ last) (size : Nat) :
    lastN size (recent later (lastN size (recent earlier times)) ++ [last]) =
      lastN size (recent later (times ++ [last])) := by
  have kept : (recent earlier times).Pairwise (· ≤ ·) := ordered.sublist (List.dropWhile_sublist _)
  rw [recent_lastN kept, recent_recent advances, lastN_push, recent_snoc inside]

end Mille.Window
