import Mathlib.Algebra.BigOperators.Intervals
import Mathlib.Algebra.BigOperators.Ring.Finset
import Mathlib.Data.Nat.Factorial.DoubleFactorial
import Mathlib.Data.Rat.Lemmas
import Mathlib.Order.Interval.Finset.Nat
import Mathlib.Tactic.FieldSimp
import Mathlib.Tactic.GCongr
import Mathlib.Tactic.Linarith
import Mathlib.Tactic.NormNum
import Mathlib.Tactic.Positivity
import Mathlib.Tactic.Ring

/-!
# The weights of the series

The terms `wᵢ` of `π / 2 = w₁ + w₂ + ⋯` are the place values of a mixed radix system: a
remainder at the term `i` counts `wᵢ` times. This file fixes them as rational numbers,
together with the place values `sᵢ` of what a pass carries from one term down to the next,
and says what remainders are worth.

## Main definitions

* `weight`: the term `wᵢ`, from `w₁ = 1` and `wᵢ = wᵢ₋₁ · (i - 1) / (2i - 1)`;
* `scale`: `sᵢ`, the worth of one unit that arrives at the term `i` from above;
* `partialSum`: the sum of the first terms;
* `worth`: the worth of the remainders of a range of terms.

## Main results

* `weight_eq_factorial`: the closed form `wᵢ = (i - 1)! / (1 · 3 · 5 ⋯ (2i - 1))`;
* `sum_largest_remainder`: the largest remainders a pass can leave telescope, so that those
  of the terms from `a + 1` to `b` are worth `2 (s_a - s_b)`;
* `partialSum_sub_le`: a tail of the series is at most twice its first term;
* `scale_add_le`: from the fourteenth term on, each term takes a factor `15 / 29` off.
-/

namespace DecimalPi.Series

open Finset
open scoped Nat

/-- The term `wᵢ` of the series. There is no term `0`. -/
def weight : ℕ → ℚ
  | 0 => 0
  | 1 => 1
  | i + 2 => weight (i + 1) * (i + 1) / (2 * i + 3)

/-- The worth of one unit that arrives at the term `i` from above, where it is still to be
multiplied by `i`; below the first term it is a whole number. -/
def scale : ℕ → ℚ
  | 0 => 1
  | i + 1 => scale i * (i + 1) / (2 * i + 1)

/-- The sum of the terms up to `last`. -/
def partialSum (last : ℕ) : ℚ := ∑ i ∈ Icc 1 last, weight i

/-- What the given remainders of the terms after `first` up to `last` are worth. -/
def worth (remainder : ℕ → ℕ) (first last : ℕ) : ℚ :=
  ∑ i ∈ Ioc first last, remainder i * weight i

/-! ## Single terms -/

/-- A unit carried down to the term `i` is worth the divisor `2i + 1` at the term `i + 1`. -/
theorem scale_eq (i : ℕ) : scale i = (2 * i + 1) * weight (i + 1) := by
  induction i with
  | zero => simp [scale, weight]
  | succ i ih =>
    have hdivisor : (2 * i + 1 : ℚ) ≠ 0 := by positivity
    rw [scale, ih, weight]
    push_cast
    field_simp
    ring

/-- A unit carried down to the term `i + 1` is worth that term times `i + 1`. -/
theorem scale_succ_eq (i : ℕ) : scale (i + 1) = (i + 1) * weight (i + 1) := by
  have hdivisor : (2 * i + 1 : ℚ) ≠ 0 := by positivity
  rw [scale, scale_eq]
  field_simp

theorem scale_pos (i : ℕ) : 0 < scale i := by
  induction i with
  | zero => norm_num [scale]
  | succ i ih =>
    rw [scale]
    positivity

theorem weight_succ_pos (i : ℕ) : 0 < weight (i + 1) := by
  have hscale := scale_pos (i + 1)
  rw [scale_succ_eq] at hscale
  exact pos_of_mul_pos_right hscale (by positivity)

theorem weight_nonneg (i : ℕ) : 0 ≤ weight i := by
  cases i with
  | zero => exact le_refl 0
  | succ i => exact (weight_succ_pos i).le

/-- The closed form of the terms. -/
theorem weight_eq_factorial (i : ℕ) : weight (i + 1) = (i ! : ℚ) / ((2 * i + 1)‼ : ℚ) := by
  induction i with
  | zero => simp [weight]
  | succ i ih =>
    have hdouble : ((2 * i + 1)‼ : ℚ) ≠ 0 := by
      exact_mod_cast (Nat.doubleFactorial_pos (2 * i + 1)).ne'
    rw [weight, ih, show 2 * (i + 1) + 1 = 2 * i + 1 + 2 by ring, Nat.doubleFactorial_add_two,
      Nat.factorial_succ]
    push_cast
    field_simp
    ring

/-- The closed form of their sums. -/
theorem partialSum_eq_factorial (last : ℕ) :
    partialSum last = ∑ i ∈ Icc 1 last, ((i - 1)! : ℚ) / ((2 * i - 1)‼ : ℚ) := by
  refine sum_congr rfl fun i hi => ?_
  obtain ⟨j, rfl⟩ : ∃ j, i = j + 1 := ⟨i - 1, by have := (mem_Icc.mp hi).1; omega⟩
  rw [weight_eq_factorial, Nat.add_sub_cancel, show 2 * (j + 1) - 1 = 2 * j + 1 by omega]

/-- A term is at most half the one before it. -/
theorem two_mul_weight_succ_le {i : ℕ} (hi : 1 ≤ i) : 2 * weight (i + 1) ≤ weight i := by
  obtain ⟨j, rfl⟩ : ∃ j, i = j + 1 := ⟨i - 1, by omega⟩
  rw [weight, ← mul_div_assoc, div_le_iff₀ (by positivity)]
  nlinarith [weight_nonneg (j + 1)]

/-! ## Sums of terms -/

theorem worth_const {remainder : ℕ → ℕ} {entry last : ℕ}
    (h : ∀ i, 1 ≤ i → i ≤ last → remainder i = entry) :
    worth remainder 0 last = entry * partialSum last := by
  rw [worth, partialSum, mul_sum, ← Icc_add_one_left_eq_Ioc, zero_add]
  refine sum_congr rfl fun i hi => ?_
  rw [mem_Icc] at hi
  rw [h i hi.1 hi.2]

theorem worth_self (remainder : ℕ → ℕ) (first : ℕ) : worth remainder first first = 0 := by
  simp [worth]

theorem worth_succ (remainder : ℕ → ℕ) {first last : ℕ} (h : first ≤ last) :
    worth remainder first (last + 1) =
      worth remainder first last + remainder (last + 1) * weight (last + 1) := by
  rw [worth, sum_Ioc_succ_top h, worth]

theorem worth_congr {remainder remainder' : ℕ → ℕ} {first last : ℕ}
    (h : ∀ i, first < i → i ≤ last → remainder i = remainder' i) :
    worth remainder first last = worth remainder' first last := by
  refine sum_congr rfl fun i hi => ?_
  rw [mem_Ioc] at hi
  rw [h i hi.1 hi.2]

theorem worth_add_worth (remainder : ℕ → ℕ) {first middle last : ℕ} (h : first ≤ middle)
    (h' : middle ≤ last) :
    worth remainder first middle + worth remainder middle last = worth remainder first last :=
  sum_Ioc_consecutive _ h h'

theorem worth_nonneg (remainder : ℕ → ℕ) (first last : ℕ) : 0 ≤ worth remainder first last := by
  refine sum_nonneg fun i _ => ?_
  have := weight_nonneg i
  positivity

/-- The largest remainders that a pass can leave at the terms after `first` up to `last`
telescope. -/
theorem sum_largest_remainder {first last : ℕ} (h : first ≤ last) :
    ∑ i ∈ Ioc first last, (2 * i - 2 : ℚ) * weight i = 2 * (scale first - scale last) := by
  induction last, h using Nat.le_induction with
  | base => simp
  | succ last h ih =>
    rw [sum_Ioc_succ_top h, ih, scale_succ_eq, scale_eq last]
    push_cast
    ring

/-- Remainders smaller than the divisors `2i - 1` are worth at most what telescopes. -/
theorem worth_le_of_le {remainder : ℕ → ℕ} {first last : ℕ} (h : first ≤ last)
    (hremainder : ∀ i, first < i → i ≤ last → remainder i ≤ 2 * i - 2) :
    worth remainder first last ≤ 2 * (scale first - scale last) := by
  rw [← sum_largest_remainder h]
  refine sum_le_sum fun i hi => ?_
  rw [mem_Ioc] at hi
  have hcast : (remainder i : ℚ) + 2 ≤ 2 * i := by
    have := hremainder i hi.1 hi.2
    exact_mod_cast show remainder i + 2 ≤ 2 * i by omega
  exact mul_le_mul_of_nonneg_right (by linarith) (weight_nonneg i)

theorem partialSum_succ (last : ℕ) :
    partialSum (last + 1) = partialSum last + weight (last + 1) :=
  sum_Icc_succ_top (Nat.le_add_left 1 last) weight

theorem partialSum_mono {last last' : ℕ} (h : last ≤ last') :
    partialSum last ≤ partialSum last' :=
  sum_le_sum_of_subset_of_nonneg (Icc_subset_Icc_right h) fun i _ _ => weight_nonneg i

/-- The terms after `first` are together at most twice the next one: each is at most twice
what separates it from its successor. -/
theorem partialSum_sub_le {first last : ℕ} (h : first ≤ last) :
    partialSum last - partialSum first ≤ 2 * weight (first + 1) := by
  -- The sum of the terms left is not bounded by induction as it stands; less the last one, it is.
  have htelescope :
      partialSum last - partialSum first ≤ 2 * (weight (first + 1) - weight (last + 1)) := by
    induction last, h using Nat.le_induction with
    | base => simp
    | succ last h ih =>
      have hhalf : 2 * weight (last + 1 + 1) ≤ weight (last + 1) :=
        two_mul_weight_succ_le (by omega)
      rw [partialSum_succ]
      linarith
  linarith [weight_nonneg (last + 1)]

/-! ## Decay -/

/-- From the fourteenth term on, a unit loses the factor `15 / 29` with each term. -/
theorem scale_succ_le {i : ℕ} (hi : 14 ≤ i) : scale (i + 1) ≤ 15 / 29 * scale i := by
  have hcast : (14 : ℚ) ≤ i := by exact_mod_cast hi
  rw [scale, div_le_iff₀ (by positivity)]
  nlinarith [scale_pos i]

theorem scale_add_le {i : ℕ} (hi : 14 ≤ i) (terms : ℕ) :
    scale (i + terms) ≤ (15 / 29) ^ terms * scale i := by
  induction terms with
  | zero => simp
  | succ terms ih =>
    calc scale (i + (terms + 1))
        ≤ 15 / 29 * scale (i + terms) := scale_succ_le (i := i + terms) (by omega)
      _ ≤ 15 / 29 * ((15 / 29) ^ terms * scale i) := by gcongr
      _ = (15 / 29) ^ (terms + 1) * scale i := by ring

theorem scale_fourteen : scale 14 = 2048 / 5014575 := by
  norm_num [scale]

end DecimalPi.Series
