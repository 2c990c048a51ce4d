import DecimalPi.ExactStream
import DecimalPi.Proofs.Series.Weights
import Mathlib.Tactic.LinearCombination

/-!
# One pass in unbounded arithmetic

A pass is a division with remainder in the mixed radix of the series. It multiplies what the
live remainders are worth by ten thousand, keeps a whole number of it and leaves the rest
behind as remainders smaller than the divisors. Nothing gets lost: at every term the running
total is split into a quotient, which goes on to the term below, and a remainder, which stays.

## Main definitions

* `remainder`: the entry of a table at a term, as a function on all terms;
* `total`: the running total at a term, just before it is divided.

## Main results

* `remainder_divideDown_of_lt`: a pass leaves alone the terms above the one it starts at;
* `remainder_divideDown_le`: it leaves at most `2i - 2` at the term `i`;
* `divideDown_conserves`: what comes out and what is left behind is what went in;
* `divideDown_bounds`: what comes out is less than two below what went in;
* `fst_divideDown_mono`: more going in, at any term, does not make less come out.
-/

namespace DecimalPi.ExactStream

open Series

/-- The remainder of the term `index`. -/
def remainder (table : Array ℕ) (index : ℕ) : ℕ := table.getD index 0

/-- The running total at the term `index`, where `carried` arrives from above. -/
def total (index carried : ℕ) (table : Array ℕ) : ℕ :=
  carried * index + remainder table index * 10000

theorem remainder_setIfInBounds_self {table : Array ℕ} {index : ℕ} (h : index < table.size)
    (value : ℕ) : remainder (table.setIfInBounds index value) index = value := by
  simp [remainder, h]

theorem remainder_setIfInBounds_of_ne (table : Array ℕ) {index other : ℕ} (h : index ≠ other)
    (value : ℕ) :
    remainder (table.setIfInBounds index value) other = remainder table other := by
  rw [remainder, remainder, Array.getD_eq_getD_getElem?, Array.getD_eq_getD_getElem?,
    Array.getElem?_setIfInBounds_ne h]

theorem remainder_setIfInBounds_self_le (table : Array ℕ) (index value : ℕ) :
    remainder (table.setIfInBounds index value) index ≤ value := by
  -- Where the table has no room for it, nothing is written and zero is read.
  by_cases h : index < table.size
  · rw [remainder_setIfInBounds_self h]
  · simp [remainder, Nat.not_lt.mp h]

theorem remainder_replicate {entries index : ℕ} (h : index < entries) (entry : ℕ) :
    remainder (Array.replicate entries entry) index = entry := by
  simp [remainder, h]

theorem divideDown_succ (index carried : ℕ) (table : Array ℕ) :
    divideDown (index + 1) carried table =
      divideDown index (total (index + 1) carried table / (2 * index + 1))
        (table.setIfInBounds (index + 1)
          (total (index + 1) carried table % (2 * index + 1))) := rfl

@[simp]
theorem size_divideDown (index carried : ℕ) (table : Array ℕ) :
    (divideDown index carried table).2.size = table.size := by
  induction index generalizing carried table with
  | zero => rfl
  | succ index ih => rw [divideDown_succ, ih, Array.size_setIfInBounds]

/-- A pass leaves alone the terms above the one it starts at. -/
theorem remainder_divideDown_of_lt {index term : ℕ} (h : index < term) (carried : ℕ)
    (table : Array ℕ) :
    remainder (divideDown index carried table).2 term = remainder table term := by
  induction index generalizing carried table with
  | zero => rfl
  | succ index ih =>
    rw [divideDown_succ, ih (by omega), remainder_setIfInBounds_of_ne _ (by omega)]

/-- What a pass leaves at the term `i` is smaller than the divisor `2i - 1`. -/
theorem remainder_divideDown_le {index term : ℕ} (hpos : 1 ≤ term) (hle : term ≤ index)
    (carried : ℕ) (table : Array ℕ) :
    remainder (divideDown index carried table).2 term ≤ 2 * term - 2 := by
  induction index generalizing carried table with
  | zero => omega
  | succ index ih =>
    rw [divideDown_succ]
    -- The first term gets its remainder now, and the rest of the pass leaves it alone.
    rcases Nat.lt_or_eq_of_le hle with hlt | rfl
    · exact ih (by omega) _ _
    · have hmod : total (index + 1) carried table % (2 * index + 1) < 2 * index + 1 :=
        Nat.mod_lt _ (by omega)
      have hself := remainder_setIfInBounds_self_le table (index + 1)
        (total (index + 1) carried table % (2 * index + 1))
      rw [remainder_divideDown_of_lt (Nat.lt_add_one index)]
      omega

/-- Conservation in a pass: the whole number that comes out, together with what the new
remainders are worth, is ten thousand times what the old remainders were worth, together with
what arrived from above. -/
theorem divideDown_conserves {index : ℕ} (carried : ℕ) {table : Array ℕ}
    (h : index < table.size) :
    ((divideDown index carried table).1 : ℚ) +
        worth (remainder (divideDown index carried table).2) 0 index =
      carried * scale index + 10000 * worth (remainder table) 0 index := by
  induction index generalizing carried table with
  | zero => simp [divideDown, worth_self, scale]
  | succ index ih =>
    set quotient := total (index + 1) carried table / (2 * index + 1) with hquotient
    set rest := total (index + 1) carried table % (2 * index + 1) with hrest
    set written := table.setIfInBounds (index + 1) rest with hwritten
    have hsize : index < written.size := by
      rw [hwritten, Array.size_setIfInBounds]
      omega
    have hbelow : worth (remainder written) 0 index = worth (remainder table) 0 index := by
      refine worth_congr fun term _ hterm => ?_
      exact remainder_setIfInBounds_of_ne table (by omega) rest
    have htop : remainder (divideDown index quotient written).2 (index + 1) = rest := by
      rw [remainder_divideDown_of_lt (Nat.lt_add_one index), hwritten,
        remainder_setIfInBounds_self h]
    -- The division at this term, in the units of the term.
    have hdivision : (quotient * (2 * index + 1) + rest : ℚ) =
        carried * (index + 1) + remainder table (index + 1) * 10000 := by
      exact_mod_cast Nat.div_add_mod' (total (index + 1) carried table) (2 * index + 1)
    rw [divideDown_succ, ← hquotient, ← hrest, ← hwritten, worth_succ _ (Nat.zero_le index),
      worth_succ _ (Nat.zero_le index), htop, ← add_assoc, ih quotient hsize, hbelow,
      scale_eq, scale_succ_eq]
    linear_combination weight (index + 1) * hdivision

/-- What comes out of a pass falls short of what went in by less than two. -/
theorem divideDown_bounds {index : ℕ} (carried : ℕ) {table : Array ℕ} (h : index < table.size) :
    ((divideDown index carried table).1 : ℚ) ≤
        carried * scale index + 10000 * worth (remainder table) 0 index ∧
      carried * scale index + 10000 * worth (remainder table) 0 index <
        (divideDown index carried table).1 + 2 := by
  -- What the pass leaves behind is all that it falls short by.
  have hconserves := divideDown_conserves carried h
  have hnonneg := worth_nonneg (remainder (divideDown index carried table).2) 0 index
  have hle : worth (remainder (divideDown index carried table).2) 0 index ≤
      2 * (scale 0 - scale index) :=
    worth_le_of_le (Nat.zero_le index) fun term hpos hterm =>
      remainder_divideDown_le hpos hterm carried table
  have hpos := scale_pos index
  rw [show scale 0 = 1 from rfl] at hle
  constructor <;> linarith

theorem total_mono {index carried carried' : ℕ} {table table' : Array ℕ}
    (hcarried : carried ≤ carried') (h : remainder table index ≤ remainder table' index) :
    total index carried table ≤ total index carried' table' :=
  Nat.add_le_add (Nat.mul_le_mul_right index hcarried) (Nat.mul_le_mul_right 10000 h)

/-- Where no remainder is smaller and no less arrives from above, no less comes out of a pass. The
remainders that are left behind do not follow any such order. -/
theorem fst_divideDown_mono {index carried carried' : ℕ} {table table' : Array ℕ}
    (hcarried : carried ≤ carried')
    (h : ∀ term, 1 ≤ term → term ≤ index → remainder table term ≤ remainder table' term) :
    (divideDown index carried table).1 ≤ (divideDown index carried' table').1 := by
  induction index generalizing carried carried' table table' with
  | zero => exact hcarried
  | succ index ih =>
    have htop := h (index + 1) (Nat.le_add_left 1 index) le_rfl
    rw [divideDown_succ, divideDown_succ]
    refine ih (Nat.div_le_div_right (total_mono hcarried htop)) ?_
    -- what is written at this term is not looked at any more
    intro term hpos hterm
    rw [remainder_setIfInBounds_of_ne _ (by omega), remainder_setIfInBounds_of_ne _ (by omega)]
    exact h term hpos (by omega)

end DecimalPi.ExactStream
