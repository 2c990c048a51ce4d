import DecimalPi.Proofs.Series.Weights
import Mathlib.Analysis.SpecialFunctions.Integrals.Basic
import Mathlib.Analysis.SpecialFunctions.Trigonometric.ArctanDeriv

/-!
# The sum of the series

The partial sums of the series tend to `π / 2`. Each term is an integral,
`2 ^ (i + 1) · wᵢ₊₁ = ∫₀^π (sin x) ^ (2i + 1)`, so that a partial sum is the integral of a
finite geometric sum. What it lacks of `∫₀^π sin x / (1 + cos² x) = π / 2` is the integral of
the geometric remainder, which halves with every term.

## Main results

* `abs_pi_div_two_sub_partialSum_le`: the error of a partial sum;
* `tendsto_partialSum`: the limit.
-/

namespace DecimalPi.Series

open Finset Filter Real
open scoped Topology

theorem weight_succ_eq_integral (i : ℕ) :
    (weight (i + 1) : ℝ) = (1 / 2) ^ (i + 1) * ∫ x in 0..π, sin x ^ (2 * i + 1) := by
  rw [integral_sin_pow_odd]
  induction i with
  | zero => norm_num [weight]
  | succ i ih =>
    rw [weight, prod_range_succ]
    push_cast
    rw [ih]
    field_simp
    ring

theorem integral_sin_div_one_add_cos_sq :
    ∫ x in 0..π, sin x / (1 + cos x ^ 2) = π / 2 := by
  -- An antiderivative is `-arctan (cos x)`.
  have hderiv : ∀ x ∈ Set.uIcc 0 π,
      HasDerivAt (fun x => -arctan (cos x)) (sin x / (1 + cos x ^ 2)) x := by
    intro x _
    refine ((hasDerivAt_cos x).arctan.neg).congr_deriv ?_
    ring
  have hcontinuous : Continuous fun x : ℝ => sin x / (1 + cos x ^ 2) :=
    continuous_sin.div (by fun_prop) fun x => by positivity
  rw [intervalIntegral.integral_eq_sub_of_hasDerivAt hderiv
    (hcontinuous.intervalIntegrable 0 π)]
  rw [cos_pi, cos_zero, arctan_neg, arctan_one]
  ring

/-- The geometric sum under the integral and the remainder it lacks. -/
theorem sum_half_pow_mul_sin_pow (terms : ℕ) (x : ℝ) :
    ∑ i ∈ range terms, (1 / 2) ^ (i + 1) * sin x ^ (2 * i + 1) =
      sin x / (1 + cos x ^ 2) - sin x / (1 + cos x ^ 2) * (sin x ^ 2 / 2) ^ terms := by
  induction terms with
  | zero => simp
  | succ terms ih =>
    have hpow : (1 / 2) ^ (terms + 1) * sin x ^ (2 * terms + 1) =
        sin x / 2 * (sin x ^ 2 / 2) ^ terms := by
      rw [div_pow (sin x ^ 2), one_div_pow, ← pow_mul]
      ring
    -- One minus the ratio of the geometric sum is half its denominator.
    have hratio : sin x / 2 = sin x / (1 + cos x ^ 2) * (1 - sin x ^ 2 / 2) := by
      have hpos : 1 + cos x ^ 2 ≠ 0 := by positivity
      rw [sin_sq]
      field_simp
      ring
    rw [sum_range_succ, ih, hpow, hratio]
    ring

/-- A partial sum is the integral of a finite geometric sum. -/
theorem partialSum_eq_integral (terms : ℕ) :
    (partialSum terms : ℝ) =
      ∫ x in 0..π, ∑ i ∈ range terms, (1 / 2) ^ (i + 1) * sin x ^ (2 * i + 1) := by
  rw [intervalIntegral.integral_finsetSum fun i _ =>
    Continuous.intervalIntegrable (by fun_prop) _ _]
  induction terms with
  | zero => simp [partialSum]
  | succ terms ih =>
    rw [partialSum_succ, Rat.cast_add, ih, sum_range_succ, weight_succ_eq_integral,
      intervalIntegral.integral_const_mul]

/-- The error of a partial sum halves with every term. -/
theorem abs_pi_div_two_sub_partialSum_le (terms : ℕ) :
    |π / 2 - partialSum terms| ≤ π * (1 / 2) ^ terms := by
  have hcontinuous : Continuous fun x : ℝ => sin x / (1 + cos x ^ 2) :=
    continuous_sin.div (by fun_prop) fun x => by positivity
  have hproduct : Continuous fun x : ℝ =>
      sin x / (1 + cos x ^ 2) * (sin x ^ 2 / 2) ^ terms := hcontinuous.mul (by fun_prop)
  -- The error is the integral of the remainder of the geometric sum ...
  have hremainder : π / 2 - partialSum terms =
      ∫ x in 0..π, sin x / (1 + cos x ^ 2) * (sin x ^ 2 / 2) ^ terms := by
    rw [← integral_sin_div_one_add_cos_sq, partialSum_eq_integral]
    simp only [sum_half_pow_mul_sin_pow]
    rw [intervalIntegral.integral_sub (hcontinuous.intervalIntegrable 0 π)
      (hproduct.intervalIntegrable 0 π)]
    ring
  -- ... and that is at most the power of one half, everywhere on the interval.
  have hbound : ∀ x ∈ Set.uIoc 0 π,
      ‖sin x / (1 + cos x ^ 2) * (sin x ^ 2 / 2) ^ terms‖ ≤ (1 / 2) ^ terms := by
    intro x _
    have hfirst : |sin x / (1 + cos x ^ 2)| ≤ 1 := by
      rw [abs_div, abs_of_pos (by positivity : 0 < 1 + cos x ^ 2), div_le_one (by positivity)]
      nlinarith [abs_sin_le_one x, sq_nonneg (cos x)]
    have hsecond : |(sin x ^ 2 / 2) ^ terms| ≤ (1 / 2) ^ terms := by
      rw [abs_of_nonneg (by positivity)]
      gcongr
      exact sin_sq_le_one x
    rw [norm_eq_abs, abs_mul]
    calc |sin x / (1 + cos x ^ 2)| * |(sin x ^ 2 / 2) ^ terms|
        ≤ 1 * (1 / 2) ^ terms := by gcongr
      _ = (1 / 2) ^ terms := one_mul _
  have h := intervalIntegral.norm_integral_le_of_norm_le_const hbound
  rw [← hremainder, norm_eq_abs, sub_zero, abs_of_pos pi_pos] at h
  linarith

/-- The partial sums tend to `π / 2`. -/
theorem tendsto_partialSum :
    Tendsto (fun terms => (partialSum terms : ℝ)) atTop (𝓝 (π / 2)) := by
  have hzero : Tendsto (fun terms : ℕ => π * (1 / 2 : ℝ) ^ terms) atTop (𝓝 0) := by
    simpa using (tendsto_pow_atTop_nhds_zero_of_lt_one (by norm_num : (0 : ℝ) ≤ 1 / 2)
      (by norm_num)).const_mul π
  rw [tendsto_iff_dist_tendsto_zero]
  refine squeeze_zero (fun _ => dist_nonneg) (fun terms => ?_) hzero
  rw [dist_comm, dist_eq]
  exact abs_pi_div_two_sub_partialSum_le terms

end DecimalPi.Series
