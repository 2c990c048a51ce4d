import DecimalPi.Proofs.Accuracy
import DecimalPi.Proofs.Places
import DecimalPi.Audit

/-!
# The reference digits are those of the series

The reference is a text, and the series knows nothing of it. What connects them is one pass over
entries so large that eight hundred and four places come out of it at once. The pass is small
enough to be carried out, so that the reference can be compared with its result; and by the
conservation law its result is the series, up to less than three units of the last place.

For the places that an audit looks at that is enough only because none of the blocks of four
places is close to zero: a run may fall short of the series by almost three, which takes a block
below zero only if the block is less than two.

## Main definitions

* `uniformPass`: what comes out of a pass over equal entries;
* `longDivision`: the pass whose result the reference is compared with;
* `leading`: the number that the first groups of `π` spell.

## Main results

* `reference_eq_places` and `two_le_block`: the comparison with the reference, and the smallest
  block;
* `reference_block`: a block of the reference is a block of what the pass yields;
* `target_bounds`: the series has the leading groups of `π` for its places, and its next block
  is at least two.
-/

namespace DecimalPi

open Series

/-- What comes out of a pass over entries that are all the same. -/
def uniformPass (entry : ℕ) : (index carried : ℕ) → ℕ
  | 0, carried => carried
  | i + 1, carried => uniformPass entry i ((carried * (i + 1) + entry * 10000) / (2 * i + 1))

/-- The pass that yields eight hundred and four digits of `π`. -/
def longDivision : ℕ := uniformPass (2000 * 10000 ^ 199) 2828 0

/-- The number that the first `groups` groups of `π` spell, up to two hundred of them. -/
def leading (groups : ℕ) : ℕ := longDivision / 10000 ^ (201 - groups)

/-! ## What is computed -/

/-- The reference is the first eight hundred places of the long division. -/
theorem reference_eq_places : reference = places 800 (longDivision / 10000) := by
  -- The only proof that reads the text of the reference; all others read this number.
  decide +kernel

/-- No block of the long division is close to zero. -/
theorem two_le_block :
    ∀ groups ≤ 200, 2 ≤ longDivision / 10000 ^ (200 - groups) % 10000 := by
  decide +kernel

/-- Nor is the last one close to the next place. -/
theorem last_block_le : longDivision % 10000 ≤ 9997 := by
  decide +kernel

theorem leading_zero : leading 0 = 0 := by
  decide +kernel

/-! ## Blocks -/

theorem leading_eq_div {groups : ℕ} (h : groups ≤ 200) :
    leading groups = longDivision / 10000 ^ (200 - groups) / 10000 := by
  rw [leading, show 201 - groups = 200 - groups + 1 by omega, pow_succ, Nat.div_div_eq_div_mul]

/-- Another group moves the ones before it up by one place. -/
theorem leading_succ_div {groups : ℕ} (h : groups ≤ 200) :
    leading (groups + 1) / 10000 = leading groups := by
  rw [leading_eq_div h, leading, show 201 - (groups + 1) = 200 - groups by omega]

/-- Four characters of the reference are four places of the long division. -/
theorem reference_block {index : ℕ} (h : index < 200) :
    (reference.drop (4 * index)).take 4 = places 4 (leading (index + 1)) := by
  have hwidth : 800 = 4 * index + (4 + 4 * (199 - index)) := by omega
  have hquotient : longDivision / 10000 / 10 ^ (4 * (199 - index)) = leading (index + 1) := by
    rw [leading, Nat.div_div_eq_div_mul, pow_mul, show (10 ^ 4 : ℕ) = 10000 by norm_num,
      ← pow_succ', show 199 - index + 1 = 201 - (index + 1) by omega]
  rw [reference_eq_places, hwidth, places_add, List.drop_left' (length_places _ _), places_add,
    List.take_left' (length_places _ _), hquotient]

/-- Below the first groups the long division has a block of at least two. -/
theorem le_longDivision {groups : ℕ} (h : groups ≤ 200) :
    10000 ^ (200 - groups) * (10000 * leading groups + 2) ≤ longDivision := by
  have hblock := two_le_block groups h
  calc 10000 ^ (200 - groups) * (10000 * leading groups + 2)
      ≤ 10000 ^ (200 - groups) * (longDivision / 10000 ^ (200 - groups)) := by
        rw [leading_eq_div h]
        exact Nat.mul_le_mul_left _ (by omega)
    _ ≤ longDivision := Nat.mul_div_le _ _

/-- The long division stays three short of the number that is one more in the first groups. -/
theorem longDivision_add_three_le {groups : ℕ} (h : groups ≤ 200) :
    longDivision + 3 ≤ 10000 ^ (200 - groups) * (10000 * (leading groups + 1)) := by
  have hlast := last_block_le
  have hleading : longDivision / 10000 / 10000 ^ (200 - groups) = leading groups := by
    rw [Nat.div_right_comm, leading_eq_div h]
  have hnext := Nat.lt_mul_div_succ (longDivision / 10000)
    (pow_pos (by norm_num) (200 - groups) : 0 < 10000 ^ (200 - groups))
  rw [hleading, ← Nat.add_one_le_iff] at hnext
  calc longDivision + 3
      ≤ 10000 * (longDivision / 10000 + 1) := by omega
    _ ≤ 10000 * (10000 ^ (200 - groups) * (leading groups + 1)) := Nat.mul_le_mul_left _ hnext
    _ = 10000 ^ (200 - groups) * (10000 * (leading groups + 1)) := by ring

/-! ## The series -/

theorem divideDown_eq_uniformPass {entry index : ℕ} {table : Array ℕ}
    (h : ∀ term, 1 ≤ term → term ≤ index → ExactStream.remainder table term = entry)
    (carried : ℕ) :
    (ExactStream.divideDown index carried table).1 = uniformPass entry index carried := by
  induction index generalizing carried table with
  | zero => rfl
  | succ index ih =>
    rw [ExactStream.divideDown_succ, ih ?_, ExactStream.total, h (index + 1) (by omega) le_rfl,
      uniformPass]
    -- What has been written is above all the terms that are still to come.
    intro term hpos hterm
    rw [ExactStream.remainder_setIfInBounds_of_ne _ (by omega)]
    exact h term hpos (by omega)

/-- A pass over equal entries falls short of the series by less than two. -/
theorem uniformPass_bounds (entry terms : ℕ) :
    (uniformPass entry terms 0 : ℚ) ≤ 10000 * (entry * partialSum terms) ∧
      10000 * (entry * partialSum terms) < uniformPass entry terms 0 + 2 := by
  have hentry : ∀ term, 1 ≤ term → term ≤ terms →
      ExactStream.remainder (Array.replicate (terms + 1) entry) term = entry :=
    fun term _ hterm => ExactStream.remainder_replicate (by omega) entry
  have hsize : terms < (Array.replicate (terms + 1) entry).size := by simp
  have hbounds := ExactStream.divideDown_bounds 0 hsize
  rw [divideDown_eq_uniformPass hentry, worth_const hentry, Nat.cast_zero, zero_mul,
    zero_add] at hbounds
  exact hbounds

/-- The terms that the long division leaves out are worth less than one of its last places. -/
theorem longDivision_bounds {last : ℕ} (hlast : 2828 ≤ last) :
    (longDivision : ℚ) ≤ target 200 last ∧ target 200 last < longDivision + 3 := by
  obtain ⟨hle, hlt⟩ := uniformPass_bounds (2000 * 10000 ^ 199) 2828
  have hmono := partialSum_mono hlast
  have hterms : 2828 = 14 * 202 := by norm_num
  have hmissing : 2000 * (partialSum last - partialSum 2828) ≤ 140 * scale 2828 := by
    rw [hterms] at hlast ⊢
    exact ExactStream.missing_le (by norm_num) hlast
  have hscaled : 10000 ^ 200 * scale 2828 ≤ scale 28 :=
    ExactStream.pow_mul_scale_le (by norm_num) 200
  have hsmall : scale 28 ≤ 1 / 2000 := ExactStream.scale_le_of_fourteen_le (by norm_num)
  have htarget : target 200 last =
      10000 * ((2000 * 10000 ^ 199 : ℕ) * partialSum 2828) +
        10000 ^ 200 * (2000 * (partialSum last - partialSum 2828)) := by
    rw [target_eq, Nat.cast_mul, Nat.cast_pow]
    ring
  -- Two hundred passes over a table for two hundred and two groups lose little at its cursor.
  have htail : 10000 ^ 200 * (2000 * (partialSum last - partialSum 2828)) ≤ 140 / 2000 :=
    calc 10000 ^ 200 * (2000 * (partialSum last - partialSum 2828))
        ≤ 10000 ^ 200 * (140 * scale 2828) := by gcongr
      _ = 140 * (10000 ^ 200 * scale 2828) := by ring
      _ ≤ 140 / 2000 := by linarith
  have hnonneg : 0 ≤ 10000 ^ 200 * (2000 * (partialSum last - partialSum 2828)) := by
    have : 0 ≤ partialSum last - partialSum 2828 := by linarith
    positivity
  rw [htarget, longDivision]
  constructor <;> linarith

/-- The places of the series are the leading groups of `π`, and its next block is at least two:
a number that falls short of it by less than three has the same groups. -/
theorem target_bounds {groups last : ℕ} (hle : groups ≤ 200) (hlast : 2828 ≤ last) :
    (10000 * leading groups + 2 : ℚ) ≤ target groups last ∧
      target groups last < 10000 * (leading groups + 1) := by
  obtain ⟨hlower, hupper⟩ := longDivision_bounds hlast
  have hscale : target 200 last = 10000 ^ (200 - groups) * target groups last := by
    rw [target_eq, target_eq, ← mul_assoc, ← mul_assoc, ← pow_add, Nat.sub_add_cancel hle]
  have hpos : (0 : ℚ) < 10000 ^ (200 - groups) := by positivity
  rw [hscale] at hlower hupper
  constructor
  · have hblock : (10000 ^ (200 - groups) * (10000 * leading groups + 2) : ℚ) ≤ longDivision := by
      exact_mod_cast le_longDivision hle
    exact le_of_mul_le_mul_left (hblock.trans hlower) hpos
  · have hblock : (longDivision + 3 : ℚ) ≤
        10000 ^ (200 - groups) * (10000 * (leading groups + 1)) := by
      exact_mod_cast longDivision_add_three_le hle
    exact lt_of_mul_lt_mul_left (hupper.trans_le hblock) hpos.le

end DecimalPi
