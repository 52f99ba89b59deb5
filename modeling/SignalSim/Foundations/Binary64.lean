import Mathlib.Algebra.Order.Round
import Mathlib.Data.Int.Log
import Mathlib.Data.Rat.Floor
import Mathlib.Tactic.Linarith
import Mathlib.Tactic.Positivity
import SignalSim.Foundations.Floating

/-!
# Rounding to floating-point numbers

The finite floating-point numbers of 64 bits as rational numbers, with a significand of 53 bits and
an exponent without bounds. An operation gives the number nearest to the exact result, and of two
that are equally near the one with the even significand.

## Main definitions

* `roundHalfEven` — the nearest integer
* `Binary64` — the numbers
* `Binary64.round`, `Binary64.excess` — the nearest of them, and how much more it is

## Main results

* `abs_roundHalfEven_sub_le` — an integer is nearest if it is half away
* `Binary64.abs_excess_le` — how far the nearest number can be
-/

namespace SignalSim

variable {x : ℚ}

/-! ### Integers -/

/-- The nearest integer, the even one of two. -/
def roundHalfEven (x : ℚ) : ℤ :=
  if 2 * Int.fract x = 1 ∧ Even ⌊x⌋ then ⌊x⌋ else round x

theorem abs_roundHalfEven_sub_le (x : ℚ) : |(roundHalfEven x : ℚ) - x| ≤ 1 / 2 := by
  unfold roundHalfEven
  split
  · rename_i htie
    have hfract : (⌊x⌋ : ℚ) - x = -(1 / 2) := by
      have h := Int.self_sub_floor x
      linarith [htie.1]
    rw [hfract, abs_neg, abs_of_nonneg (by norm_num)]
  · rw [abs_sub_comm]
    exact abs_sub_round x

/-- An integer bound of a number bounds the nearest integer. -/
theorem abs_roundHalfEven_le {n : ℤ} (h : |x| < n) : |roundHalfEven x| ≤ n := by
  have hnear := abs_le.mp (abs_roundHalfEven_sub_le x)
  have hx := abs_lt.mp h
  have hlt : |(roundHalfEven x : ℚ)| < (n + 1 : ℤ) := by
    push_cast
    exact abs_lt.mpr ⟨by linarith, by linarith⟩
  rw [← Int.cast_abs, Int.cast_lt] at hlt
  exact Int.lt_add_one_iff.mp hlt

/-! ### Floating-point numbers -/

/-- The distance of the floating-point numbers around a number. -/
def ulp (x : ℚ) : ℚ := 2 ^ (Int.log 2 |x| - 52)

theorem ulp_pos (x : ℚ) : 0 < ulp x := zpow_pos (by norm_num) _

theorem abs_div_ulp_lt (x : ℚ) : |x / ulp x| < (2 ^ 53 : ℤ) := by
  have hlog : |x| < (2 : ℚ) ^ (Int.log 2 |x| + 1) := Int.lt_zpow_succ_log_self (by decide) |x|
  have hsplit : (2 : ℚ) ^ (Int.log 2 |x| + 1) = 2 ^ (53 : ℤ) * ulp x := by
    rw [ulp, ← zpow_add₀ (by norm_num)]
    congr 1
    ring
  have hcast : ((2 ^ 53 : ℤ) : ℚ) = 2 ^ (53 : ℤ) := by norm_num
  rwa [abs_div, abs_of_pos (ulp_pos x), div_lt_iff₀ (ulp_pos x), hcast, ← hsplit]

/-- A number with a significand of 53 bits. -/
structure Binary64 where
  value : ℚ
  isBinary : ∃ n e : ℤ, |n| ≤ 2 ^ 53 ∧ value = n * 2 ^ e
  deriving DecidableEq

namespace Binary64

/-- The nearest floating-point number. -/
def round (x : ℚ) : Binary64 where
  value := roundHalfEven (x / ulp x) * ulp x
  isBinary := ⟨_, _, abs_roundHalfEven_le (abs_div_ulp_lt x), rfl⟩

/-- The exact operations, rounded. Nothing is divided by zero. -/
instance : Floating Binary64 where
  le x y := x.value ≤ y.value
  lt x y := x.value < y.value
  zero := round 0
  natCast n := round n
  add x y := round (x.value + y.value)
  sub x y := round (x.value - y.value)
  mul x y := round (x.value * y.value)
  div x y := round (x.value / y.value)
  decidableLE x y := inferInstanceAs (Decidable (x.value ≤ y.value))
  decidableLT x y := inferInstanceAs (Decidable (x.value < y.value))

/-- The nearest number is at most half the distance of two away. -/
theorem abs_value_round_sub_le (x : ℚ) : |(round x).value - x| ≤ ulp x / 2 := by
  have hexact : (round x).value - x = (roundHalfEven (x / ulp x) - x / ulp x) * ulp x := by
    rw [sub_mul, div_mul_cancel₀ _ (ulp_pos x).ne']
    rfl
  rw [hexact, abs_mul, abs_of_pos (ulp_pos x)]
  have hle := mul_le_mul_of_nonneg_right (abs_roundHalfEven_sub_le (x / ulp x)) (ulp_pos x).le
  linarith

/-- What rounding adds to a number, which is negative if the number is rounded down. -/
def excess (x : ℚ) : ℚ := (round x).value - x

theorem value_round (x : ℚ) : (round x).value = x + excess x := (add_sub_cancel x _).symm

/-- The smaller a number, the less it is rounded. -/
theorem abs_excess_le {k : ℤ} (h : |x| < 2 ^ k) : |excess x| ≤ 2 ^ (k - 54) := by
  rcases eq_or_ne x 0 with rfl | hx
  · have hzero : excess 0 = 0 := by decide +kernel
    rw [hzero, abs_zero]
    exact zpow_nonneg (by norm_num) _
  · have hlog : Int.log 2 |x| < k := by
      have hle := Int.zpow_log_le_self (b := 2) (by decide) (abs_pos.mpr hx)
      exact (zpow_lt_zpow_iff_right₀ (by norm_num : (1 : ℚ) < 2)).mp (hle.trans_lt h)
    have hulp : ulp x ≤ 2 ^ (k - 53) := zpow_le_zpow_right₀ (by norm_num) (by omega)
    have hhalf : (2 : ℚ) ^ (k - 53) = 2 ^ (k - 54) * 2 := by
      rw [← zpow_add_one₀ (by norm_num)]
      congr 1
      ring
    have hle := abs_value_round_sub_le x
    rw [← excess] at hle
    linarith

end Binary64

end SignalSim
