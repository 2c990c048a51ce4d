import DecimalPi.CommandLine.Parser
import Mathlib.Data.Int.Notation

/-!
# From options to a plan

There is a plan for options exactly if they ask for a positive number of digits. The plan takes
over what they ask for as it is, and whoever else asks for the number of digits is refused for the
same reason.

## Main results

* `Options.plan_of_le` and `Options.plan_of_lt`: the plan for options, or the reason why there is
  none.
-/

namespace DecimalPi.Options

variable {options : Options}

theorem digits_le_zero_iff : options.digits ≤ 0 ↔ options.digits.toInt < 1 := by
  rw [Int64.le_iff_toInt_le, Int64.toInt_zero]
  omega

theorem toNat_toUInt64_digits (h : 1 ≤ options.digits.toInt) :
    (options.digits.toUInt64.toNat : ℤ) = options.digits.toInt := by
  have hle : (0 : Int64) ≤ options.digits := by
    rw [Int64.le_iff_toInt_le]
    exact Int.le_trans (by decide) h
  rw [Int64.toNat_toUInt64_of_le hle]
  exact Int.toNat_of_nonneg (by omega)

section Accepted

variable (h : 1 ≤ options.digits.toInt)

include h

theorem count_of_le : options.count = .ok options.digits.toUInt64 := by
  rw [count, if_neg (by rw [digits_le_zero_iff]; omega)]

theorem check_of_le : options.check = .ok () := by
  rw [check, count_of_le h]
  rfl

/-- A positive number of digits makes a plan, which takes over all that is asked for. -/
theorem plan_of_le :
    options.plan = .ok
      { digits := options.digits.toUInt64, timeout := options.timeout,
        audited := options.audited } := by
  rw [plan, count_of_le h]
  rfl

end Accepted

section Refused

variable (h : options.digits.toInt < 1)

include h

theorem count_of_lt : options.count = .error (.nonPositiveCount options.digits) := by
  rw [count, if_pos (digits_le_zero_iff.mpr h)]

theorem check_of_lt : options.check = .error (.nonPositiveCount options.digits) := by
  rw [check, count_of_lt h]
  rfl

/-- No other number of digits makes a plan. -/
theorem plan_of_lt : options.plan = .error (.nonPositiveCount options.digits) := by
  rw [plan, count_of_lt h]
  rfl

end Refused

end DecimalPi.Options
