import Mathlib.Data.Int.Log
import Mathlib.Data.Rat.Floor

namespace RiskApp.Lib.Binary64

def roundEven (q : ℚ) : ℤ :=
  if 2 * (q - ⌊q⌋) < 1 then ⌊q⌋ else if 1 < 2 * (q - ⌊q⌋) then ⌊q⌋ + 1 else ⌊q⌋ + ⌊q⌋ % 2

/-- The exponent of the last of 53 significant bits. -/
def exponent (q : ℚ) : ℤ := Int.log 2 |q| - 52

/-- The double nearest to a number within the range of normal doubles. -/
def nearest (q : ℚ) : ℚ := roundEven (q / 2 ^ exponent q) * 2 ^ exponent q

@[simp] theorem roundEven_intCast (n : ℤ) : roundEven n = n := by
  unfold roundEven
  rw [Int.floor_intCast, sub_self, mul_zero, if_pos one_pos]

theorem exponent_natCast_nonpos {n : ℕ} (h : n < 2 ^ 53) : exponent n ≤ 0 := by
  have hlog : Nat.log 2 n ≤ 52 := by
    by_cases hn : n = 0
    · simp [hn]
    · have := Nat.log_lt_of_lt_pow hn h
      omega
  have habs : |(n : ℚ)| = n := Nat.abs_cast n
  unfold exponent
  rw [habs, Int.log_natCast]
  omega

theorem nearest_natCast {n : ℕ} (h : n < 2 ^ 53) : nearest n = n := by
  obtain ⟨k, hk⟩ := Int.eq_ofNat_of_zero_le (neg_nonneg.mpr (exponent_natCast_nonpos h))
  have hexp : exponent n = -(k : ℤ) := by omega
  have hscaled : (n : ℚ) / 2 ^ (-(k : ℤ)) = ((n * 2 ^ k : ℤ) : ℚ) := by
    rw [zpow_neg, div_inv_eq_mul, zpow_natCast]
    push_cast
    rfl
  have hpow : (2 : ℚ) ^ k ≠ 0 := pow_ne_zero k two_ne_zero
  unfold nearest
  rw [hexp, hscaled, roundEven_intCast, zpow_neg, zpow_natCast]
  push_cast
  exact mul_inv_cancel_right₀ hpow _

end RiskApp.Lib.Binary64
