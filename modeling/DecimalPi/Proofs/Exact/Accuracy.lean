import DecimalPi.Proofs.Exact.Run

/-!
# Accuracy in unbounded arithmetic

What a run has written out falls short of the scaled series, and never by much. Three things
are missing from the account: the terms that the table has no entries for, the entries
abandoned so far, and the live remainders. The first two grow by the factor ten thousand with
each pass; but at the same time the cursor goes down by fourteen terms, and a unit at the
cursor gains a little more than that factor. So the loss, measured at the cursor, stays below a
constant until the cursor reaches the first terms.

## Main definitions

* `excess`: how much the scaled series exceeds what has been written out;
* `lossBound`: the bound on what the missing terms and the abandoned entries contribute to it.

## Main results

* `lossBound_le`: the loss is at most `140` units at the cursor;
* `excess_nonneg`, `excess_lt_three` and `excess_lt_thousand`: the excess is never negative,
  less than three before the last pass and less than a thousand after it.
-/

namespace DecimalPi.ExactStream

open Series

variable {groups passes last : ℕ}

/-- How much the first `last` terms of the series, scaled to the place of so many passes, exceed
what a new stream of `groups` groups has written out by then. -/
def excess (groups last passes : ℕ) : ℚ :=
  10000 ^ passes * 2000 * partialSum last - (seeded (14 * groups + 1)).account passes

/-- The bound on the loss: what was missing before the first pass and what was abandoned since,
at the largest remainders that a pass can leave. -/
def lossBound (missing : ℚ) (groups passes : ℕ) : ℚ :=
  10000 ^ passes * missing +
    amplified (fun pass => 2 * (scale (14 * (groups - pass - 1)) - scale (14 * (groups - pass))))
      passes

/-! ## The loss -/

theorem lossBound_succ (missing : ℚ) (groups passes : ℕ) :
    lossBound missing groups (passes + 1) =
      10000 * lossBound missing groups passes +
        2 * (scale (14 * (groups - passes - 1)) - scale (14 * (groups - passes))) := by
  rw [lossBound, amplified_succ, lossBound, pow_succ]
  ring

/-- Fourteen terms make a unit worth a little less than the ten thousandth part. -/
theorem scale_add_fourteen_le {term : ℕ} (hterm : 14 ≤ term) :
    10000 * scale (term + 14) ≤ 197 / 200 * scale term := by
  have hdecay := scale_add_le hterm 14
  have hpos := scale_pos term
  norm_num at hdecay
  linarith

/-- Over any number of passes a unit is worth no more than if it had arrived so much lower. -/
theorem pow_mul_scale_le {term : ℕ} (hterm : 14 ≤ term) (passes : ℕ) :
    10000 ^ passes * scale (term + 14 * passes) ≤ scale term := by
  induction passes with
  | zero => simp
  | succ passes ih =>
    have hbelow : 14 ≤ term + 14 * passes := by omega
    have hpos := scale_pos (term + 14 * passes)
    have hdecay : 10000 * scale (term + 14 * (passes + 1)) ≤ scale (term + 14 * passes) := by
      have := scale_add_fourteen_le hbelow
      rw [Nat.mul_succ, ← Nat.add_assoc]
      linarith
    calc 10000 ^ (passes + 1) * scale (term + 14 * (passes + 1))
        = 10000 ^ passes * (10000 * scale (term + 14 * (passes + 1))) := by ring
      _ ≤ 10000 ^ passes * scale (term + 14 * passes) := by gcongr
      _ ≤ scale term := ih

/-- The loss is at most `140` units at the cursor. -/
theorem lossBound_le {missing : ℚ} (hmissing : missing ≤ 140 * scale (14 * groups))
    (hlt : passes < groups) :
    lossBound missing groups passes ≤ 140 * scale (14 * (groups - passes)) := by
  induction passes with
  | zero => simpa [lossBound] using hmissing
  | succ passes ih =>
    have hloss := ih (by omega)
    -- The pass moves the cursor from `term + 14` down to `term`.
    obtain ⟨term, hterm⟩ : ∃ term, term = 14 * (groups - (passes + 1)) := ⟨_, rfl⟩
    have habove : 14 * (groups - passes) = term + 14 := by omega
    have hfourteen : 14 ≤ term := by omega
    have hdecay := scale_add_fourteen_le hfourteen
    have hpos := scale_pos (term + 14)
    have hpos' := scale_pos term
    rw [habove] at hloss
    rw [lossBound_succ, Nat.sub_sub, habove, ← hterm]
    linarith

/-- The terms that a table has no entries for are less than `140` units at its last term. -/
theorem missing_le (hpos : 1 ≤ groups) (hlast : 14 * groups ≤ last) :
    2000 * (partialSum last - partialSum (14 * groups)) ≤ 140 * scale (14 * groups) := by
  have htail := partialSum_sub_le hlast
  have hweight := weight_nonneg (14 * groups + 1)
  have hgroups : (1 : ℚ) ≤ groups := by exact_mod_cast hpos
  -- At its last term a unit of the table is `28 * groups + 1` times the term that comes next.
  rw [scale_eq]
  push_cast
  nlinarith

theorem scale_le_of_fourteen_le {term : ℕ} (hterm : 14 ≤ term) : scale term ≤ 1 / 2000 := by
  obtain ⟨more, rfl⟩ : ∃ more, term = 14 + more := ⟨term - 14, by omega⟩
  have hpow : (15 / 29 : ℚ) ^ more ≤ 1 := pow_le_one₀ (by norm_num) (by norm_num)
  calc scale (14 + more)
      ≤ (15 / 29) ^ more * scale 14 := scale_add_le le_rfl more
    _ ≤ 1 * scale 14 := by gcongr; exact (scale_pos 14).le
    _ ≤ 1 / 2000 := by rw [scale_fourteen]; norm_num

/-! ## The excess -/

/-- The excess is what the terms without entries, the live remainders and the abandoned ones
contribute. -/
theorem excess_eq (hle : passes ≤ groups) :
    excess groups last passes =
      10000 ^ passes * (2000 * (partialSum last - partialSum (14 * groups))) +
        worth (remainder ((seeded (14 * groups + 1)).after passes).table)
          0 (14 * (groups - passes)) +
          abandoned groups (seeded (14 * groups + 1)) passes := by
  have hconserves := (ready_seeded groups).conserves hle
  rw [worth_seeded] at hconserves
  rw [excess]
  linear_combination hconserves

theorem excess_nonneg (hle : passes ≤ groups) (hlast : 14 * groups ≤ last) :
    0 ≤ excess groups last passes := by
  have hmono := partialSum_mono hlast
  have hlive := worth_nonneg (remainder ((seeded (14 * groups + 1)).after passes).table)
    0 (14 * (groups - passes))
  have habandoned : 0 ≤ abandoned groups (seeded (14 * groups + 1)) passes :=
    amplified_nonneg fun pass _ => worth_nonneg _ _ _
  have hmissing : (0 : ℚ) ≤
      10000 ^ passes * (2000 * (partialSum last - partialSum (14 * groups))) := by
    have : 0 ≤ partialSum last - partialSum (14 * groups) := by linarith
    positivity
  rw [excess_eq hle]
  linarith

/-- After the first pass the excess is the loss and what live remainders can be worth. -/
theorem excess_le (hpos : 1 ≤ passes) (hle : passes ≤ groups) :
    excess groups last passes ≤
      lossBound (2000 * (partialSum last - partialSum (14 * groups))) groups passes +
        2 * (1 - scale (14 * (groups - passes))) := by
  have hremainder : ∀ term, 1 ≤ term → term ≤ 14 * groups →
      remainder ((seeded (14 * groups + 1)).after passes).table term ≤ 2 * term - 2 :=
    fun term => (ready_seeded groups).remainder_after_le hpos hle
  have hlive := worth_le_of_le (Nat.zero_le (14 * (groups - passes))) fun term hfirst hlast =>
    hremainder term hfirst (by omega)
  -- Every block was left by a pass, whether just now or before it was abandoned.
  have habandoned : abandoned groups (seeded (14 * groups + 1)) passes ≤
      amplified (fun pass =>
        2 * (scale (14 * (groups - pass - 1)) - scale (14 * (groups - pass)))) passes :=
    amplified_mono fun pass _ => worth_le_of_le (by omega) fun term hfirst hlast =>
      hremainder term (by omega) (by omega)
  rw [show scale 0 = 1 from rfl] at hlive
  rw [excess_eq hle, lossBound]
  linarith

/-- Before the last pass the excess is less than three. -/
theorem excess_lt_three (hpos : 1 ≤ passes) (hlt : passes < groups) (hlast : 14 * groups ≤ last) :
    excess groups last passes < 3 := by
  have hexcess : excess groups last passes ≤ _ := excess_le hpos hlt.le
  have hloss := lossBound_le (missing_le (by omega) hlast) hlt
  have hcursor : 14 ≤ 14 * (groups - passes) := by omega
  have hscale := scale_le_of_fourteen_le hcursor
  linarith

/-- The last pass loses the cushion of the terms below its own: the excess may be large, but
not as large as a place of the last group. -/
theorem excess_lt_thousand (hpos : 1 ≤ groups) (hlast : 14 * groups ≤ last) :
    excess groups last groups < 1000 := by
  -- The loss is known before the last pass, where the cursor is at the fourteenth term.
  obtain ⟨before, rfl⟩ : ∃ before, groups = before + 1 := ⟨groups - 1, by omega⟩
  have hexcess : excess (before + 1) last (before + 1) ≤ _ := excess_le hpos le_rfl
  have hloss := lossBound_le (missing_le hpos hlast) (Nat.lt_add_one before)
  have hzero : scale 0 = 1 := rfl
  rw [lossBound_succ, Nat.add_sub_cancel_left, Nat.sub_self, Nat.sub_self, Nat.mul_zero, hzero,
    scale_fourteen] at hexcess
  rw [Nat.add_sub_cancel_left, scale_fourteen] at hloss
  linarith

end DecimalPi.ExactStream
