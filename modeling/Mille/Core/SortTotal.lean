import Mathlib
import Mille.Core.SortLaws

/-! The natural comparison tells any two names apart, so without a locale only equal names
compare equal. -/

namespace Mille

namespace SiblingOrder

/-- `natural_name_cmp_case` on the bytes of two names. -/
def naturalBytesCmp (caseSensitive : Bool) (a b : List UInt8) : Ordering :=
  (naturalScan caseSensitive a.length a b).then (compare a.length b.length)

theorem naturalNameCmpCase_bytes (left right : String) (caseSensitive : Bool) :
    naturalNameCmpCase left right caseSensitive =
      naturalBytesCmp caseSensitive (asBytes left) (asBytes right) := rfl

theorem naturalBytesCmp_tokens (caseSensitive : Bool) (a b : List UInt8) :
    naturalBytesCmp caseSensitive a b = List.compareLex (compareTokens caseSensitive)
      (tokens a.length a) (tokens b.length b) :=
  naturalScan_tokens caseSensitive (le_refl _) (le_refl _)

theorem eq_of_significant {first second : List UInt8}
    (value : significant first = significant second) (length : first.length = second.length) :
    first = second := by
  have zeros (token : List UInt8) : token =
      List.replicate (token.length - (significant token).length) 48 ++ significant token := by
    induction token with
    | nil => rfl
    | cons byte rest ih =>
      unfold significant at ih ⊢
      by_cases zero : byte = 48
      · subst zero
        have shorter := (List.dropWhile_suffix (fun byte : UInt8 => decide (byte = 48)) (l := rest)).length_le
        rw [List.dropWhile_cons_of_pos (by decide), List.length_cons, Nat.succ_sub shorter,
          List.replicate_succ, List.cons_append, ← ih]
      · rw [List.dropWhile_cons_of_neg (by simpa using zero)]
        simp
  calc
    first = List.replicate (first.length - (significant first).length) 48 ++ significant first :=
      zeros first
    _ = List.replicate (second.length - (significant second).length) 48 ++ significant second := by
      rw [value, length]
    _ = second := (zeros second).symm

instance (caseSensitive : Bool) : Std.LawfulEqCmp (compareTokens caseSensitive) where
  eq_of_compare := by
    intro first second equal
    rw [compareTokens_eq] at equal
    simp only [Ordering.then_eq_eq] at equal
    obtain ⟨_, _, value, length⟩ := equal
    exact eq_of_significant (Std.LawfulEqOrd.eq_of_compare value) (Nat.compare_eq_eq.mp length)

theorem tokens_flatten {fuel : Nat} {bytes : List UInt8} (enough : bytes.length ≤ fuel) :
    (tokens fuel bytes).flatten = bytes := by
  induction fuel generalizing bytes with
  | zero =>
    obtain rfl := List.length_eq_zero_iff.mp (Nat.le_zero.mp enough)
    rfl
  | succ fuel ih =>
    cases bytes with
    | nil => rfl
    | cons byte rest =>
      simp only [List.length_cons, Nat.add_le_add_iff_right] at enough
      rw [tokens_cons]
      by_cases digit : isAsciiDigit byte = true
      · have shorter : ((byte :: rest).dropWhile isAsciiDigit).length ≤ fuel := by
          rw [List.dropWhile_cons_of_pos digit]
          exact (List.length_dropWhile_le ..).trans enough
        rw [if_pos digit, List.flatten_cons, ih shorter, List.takeWhile_append_dropWhile]
      · rw [if_neg digit, List.flatten_cons, ih enough]
        rfl

instance (caseSensitive : Bool) : Std.LawfulEqCmp (naturalBytesCmp caseSensitive) where
  compare_self := by
    intro bytes
    rw [naturalBytesCmp_tokens]
    exact Std.ReflCmp.compare_self
  eq_of_compare := by
    intro a b equal
    rw [naturalBytesCmp_tokens] at equal
    have same : tokens a.length a = tokens b.length b := Std.LawfulEqCmp.eq_of_compare equal
    rw [← tokens_flatten (le_refl a.length), same, tokens_flatten (le_refl b.length)]

instance (caseSensitive : Bool) : Std.TransCmp (naturalBytesCmp caseSensitive) := by
  have map := @transCmp_map _ _ (List.compareLex (compareTokens caseSensitive))
    (fun bytes : List UInt8 => tokens bytes.length bytes) inferInstance
  have same : naturalBytesCmp caseSensitive = fun a b => List.compareLex (compareTokens caseSensitive)
      (tokens a.length a) (tokens b.length b) := by
    funext a b
    exact naturalBytesCmp_tokens caseSensitive a b
  rwa [same]

theorem asBytes_injective {left right : String} (same : asBytes left = asBytes right) :
    left = right := by
  unfold asBytes at same
  apply String.toByteArray_inj.mp
  exact ByteArray.ext (Array.toList_inj.mp same)

theorem name_eq_of_compareEntries {order : SiblingOrder} (plain : order.localeCollation = none)
    {left right : Entry} (equal : order.compareEntries left right = .eq) : left.name = right.name := by
  unfold compareEntries at equal
  simp only [Ordering.then_eq_eq] at equal
  have names := equal.2.2
  simp only [compareNames, plain, naturalNameCmpCase_bytes] at names
  exact asBytes_injective (Std.LawfulEqCmp.eq_of_compare names)

/-- The natural comparison is a strict total order on byte strings in both case modes, and
the sibling order without a locale is a total preorder that tells names apart. -/
theorem naturalNameCmpCase_total (caseSensitive : Bool) :
    (∀ a b, naturalBytesCmp caseSensitive a b = .eq ↔ a = b) ∧
    (∀ a b, naturalBytesCmp caseSensitive b a = (naturalBytesCmp caseSensitive a b).swap) ∧
    (∀ a b c, naturalBytesCmp caseSensitive a b = .lt → naturalBytesCmp caseSensitive b c = .lt →
      naturalBytesCmp caseSensitive a c = .lt) ∧
    ∀ (sortBy : SortBy) (foldersOnTop : Bool),
      let order : SiblingOrder := ⟨sortBy, caseSensitive, foldersOnTop, none⟩
      (∀ left right, order.compareEntries right left = (order.compareEntries left right).swap) ∧
      (∀ first second third, (order.compareEntries first second).isLE →
        (order.compareEntries second third).isLE → (order.compareEntries first third).isLE) ∧
      ∀ left right, order.compareEntries left right = .eq → left.name = right.name := by
  refine ⟨fun a b => ?_, fun a b => ?_, fun a b c first second => ?_, fun sortBy foldersOnTop => ?_⟩
  · exact Std.LawfulEqCmp.compare_eq_iff_eq
  · exact Std.OrientedCmp.eq_swap
  · exact Std.TransCmp.lt_trans first second
  · intro order
    have lawful : order.Lawful := fun _ collated => by cases collated
    have preorder := lawful.entries
    exact ⟨fun left right => Std.OrientedCmp.eq_swap, fun first second third => Std.TransCmp.isLE_trans,
      fun left right => name_eq_of_compareEntries rfl⟩

end SiblingOrder

end Mille
