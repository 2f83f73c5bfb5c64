import Mathlib

/-! Double-precision numbers by their bits: the value of finite ones, and the bits of the
integers below 2^53, which are represented exactly. -/

namespace Mille.Float64

/-- The value of the bits of a double; infinities and NaNs have none. -/
def value? (bits : Nat) : Option ℚ :=
  let exponent : Nat := bits / 2 ^ 52 % 2 ^ 11
  let fraction : Nat := bits % 2 ^ 52
  if exponent = 2047 then none
  else
    let size : ℚ :=
      if exponent = 0 then fraction * 2 ^ (-1074 : ℤ)
      else (2 ^ 52 + fraction) * 2 ^ ((exponent : ℤ) - 1075)
    some (if bits / 2 ^ 63 % 2 = 1 then -size else size)

/-- The bits of an integer below 2^53. -/
def ofNat (value : Nat) : Nat :=
  if value = 0 then 0
  else (Nat.log2 value + 1023) * 2 ^ 52 + (value * 2 ^ (52 - Nat.log2 value) - 2 ^ 52)

/-- The value as a non-negative safe integer, if it is one. -/
def safeNat? (bits : Nat) : Option Nat :=
  match value? bits with
  | some value => if value.den = 1 ∧ 0 ≤ value.num ∧ value.num < 2 ^ 53 then some value.num.toNat else none
  | none => none

theorem shifted_bounds {value : Nat} (positive : value ≠ 0) (small : value < 2 ^ 53) :
    Nat.log2 value ≤ 52 ∧ 2 ^ 52 ≤ value * 2 ^ (52 - Nat.log2 value) ∧
      value * 2 ^ (52 - Nat.log2 value) < 2 ^ 53 := by
  have above := (Nat.le_log2 positive).mp le_rfl
  have below := (Nat.log2_lt positive).mp (Nat.lt_succ_self (Nat.log2 value))
  have bound : Nat.log2 value ≤ 52 := by
    have := (Nat.log2_lt positive).mpr small
    omega
  have low : 2 ^ 52 = 2 ^ Nat.log2 value * 2 ^ (52 - Nat.log2 value) := by
    rw [← pow_add]
    congr 1
    omega
  have high : 2 ^ 53 = 2 ^ (Nat.log2 value).succ * 2 ^ (52 - Nat.log2 value) := by
    rw [← pow_add]
    congr 1
    omega
  refine ⟨bound, ?_, ?_⟩
  · rw [low]
    exact Nat.mul_le_mul_right _ above
  · rw [high]
    exact Nat.mul_lt_mul_of_pos_right below (Nat.two_pow_pos _)

theorem ofNat_lt {value : Nat} (small : value < 2 ^ 53) : ofNat value < 2 ^ 64 := by
  rw [ofNat]
  split
  · decide
  · next positive =>
    obtain ⟨bound, low, high⟩ := shifted_bounds positive small
    omega

theorem value?_ofNat {value : Nat} (small : value < 2 ^ 53) : value? (ofNat value) = some (value : ℚ) := by
  rw [ofNat]
  split
  · next zero =>
    subst zero
    norm_num [value?]
  · next positive =>
    obtain ⟨bound, low, high⟩ := shifted_bounds positive small
    have exact_shift : (value * 2 ^ (52 - Nat.log2 value) : ℚ) * 2 ^ (((Nat.log2 value + 1023 : Nat) : ℤ) - 1075) = value := by
      have split : ((Nat.log2 value + 1023 : Nat) : ℤ) - 1075 = -((52 - Nat.log2 value : Nat) : ℤ) := by omega
      rw [split, zpow_neg, zpow_natCast, mul_assoc, mul_inv_cancel₀ (by positivity), mul_one]
    generalize hshift : value * 2 ^ (52 - Nat.log2 value) = shifted at low high
    have cast : (value * 2 ^ (52 - Nat.log2 value) : ℚ) = (shifted : ℚ) := by
      rw [← hshift]
      push_cast
      rfl
    rw [cast] at exact_shift
    generalize Nat.log2 value = exponent at bound exact_shift
    have exponentBits : ((exponent + 1023) * 2 ^ 52 + (shifted - 2 ^ 52)) / 2 ^ 52 % 2 ^ 11 = exponent + 1023 := by omega
    have fractionBits : ((exponent + 1023) * 2 ^ 52 + (shifted - 2 ^ 52)) % 2 ^ 52 = shifted - 2 ^ 52 := by omega
    have signBit : ((exponent + 1023) * 2 ^ 52 + (shifted - 2 ^ 52)) / 2 ^ 63 % 2 = 0 := by omega
    have significand : (2 ^ 52 + ((shifted - 2 ^ 52 : Nat) : ℚ)) = shifted := by
      rw [Nat.cast_sub low]
      push_cast
      ring
    rw [value?]
    simp only [exponentBits, fractionBits, signBit]
    rw [if_neg (by omega), if_neg (by omega), if_neg (by omega), significand, exact_shift]

theorem safeNat?_ofNat {value : Nat} (small : value < 2 ^ 53) : safeNat? (ofNat value) = some value := by
  rw [safeNat?, value?_ofNat small]
  simpa using small

theorem safeNat?_lt {bits value : Nat} (safe : safeNat? bits = some value) : value < 2 ^ 53 := by
  rw [safeNat?] at safe
  split at safe
  · split at safe
    · next bounds =>
      cases safe
      omega
    · cases safe
  · cases safe

end Mille.Float64
