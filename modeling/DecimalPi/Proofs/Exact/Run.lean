import DecimalPi.Proofs.Exact.Pass
import Mathlib.Data.Nat.Digits.Defs

/-!
# Runs in unbounded arithmetic

A run is a number of passes, each followed by giving up fourteen terms. After any number of
passes the entries of the table lie in two regions. Those up to the cursor are live; those
above it were abandoned in blocks of fourteen, each by the pass that used it last, and never
change again. As every pass multiplies by ten thousand, a block that was abandoned earlier
stands for that much more.

## Main definitions

* `spelled`: the number that groups spell, one after the other;
* `emitted`, `after`: the groups of a number of passes, and the stream that is left;
* `account`: what has been written out after a number of passes, the carry included;
* `Ready`: a stream that is about to emit a number of groups;
* `abandoned`: what the abandoned entries stand for.

## Main results

* `Ready.cursor_after`: the cursor goes down by fourteen with each pass;
* `Ready.remainder_after_le`: after the first pass every remainder is at most `2i - 2`;
* `Ready.conserves`: what was written out, what is live and what was abandoned are together
  all that there was.
-/

namespace DecimalPi

/-- The number that groups spell as digits in base ten thousand, the most significant one
first. -/
def spelled (groups : List ℕ) : ℕ := Nat.ofDigits 10000 groups.reverse

@[simp]
theorem spelled_nil : spelled [] = 0 := rfl

/-- Another group moves the ones before it up by one place. -/
@[simp]
theorem spelled_concat (groups : List ℕ) (group : ℕ) :
    spelled (groups ++ [group]) = 10000 * spelled groups + group := by
  rw [spelled, List.reverse_append, List.reverse_singleton, List.singleton_append,
    Nat.ofDigits_cons, spelled, Nat.add_comm]

/-- The sum of what single passes leave behind, each part multiplied by ten thousand for every
later pass. -/
def amplified (part : ℕ → ℚ) (passes : ℕ) : ℚ :=
  ∑ pass ∈ Finset.range passes, 10000 ^ (passes - 1 - pass) * part pass

@[simp]
theorem amplified_zero (part : ℕ → ℚ) : amplified part 0 = 0 := rfl

theorem amplified_succ (part : ℕ → ℚ) (passes : ℕ) :
    amplified part (passes + 1) = 10000 * amplified part passes + part passes := by
  rw [amplified, Finset.sum_range_succ, amplified, Finset.mul_sum]
  congr 1
  · refine Finset.sum_congr rfl fun pass hpass => ?_
    rw [Finset.mem_range] at hpass
    rw [show passes + 1 - 1 - pass = passes - 1 - pass + 1 by omega, pow_succ]
    ring
  · simp

theorem amplified_congr {part part' : ℕ → ℚ} {passes : ℕ}
    (h : ∀ pass < passes, part pass = part' pass) :
    amplified part passes = amplified part' passes := by
  refine Finset.sum_congr rfl fun pass hpass => ?_
  rw [h pass (Finset.mem_range.mp hpass)]

theorem amplified_mono {part part' : ℕ → ℚ} {passes : ℕ}
    (h : ∀ pass < passes, part pass ≤ part' pass) :
    amplified part passes ≤ amplified part' passes := by
  refine Finset.sum_le_sum fun pass hpass => ?_
  have := h pass (Finset.mem_range.mp hpass)
  gcongr

theorem amplified_nonneg {part : ℕ → ℚ} {passes : ℕ} (h : ∀ pass < passes, 0 ≤ part pass) :
    0 ≤ amplified part passes := by
  refine Finset.sum_nonneg fun pass hpass => ?_
  have := h pass (Finset.mem_range.mp hpass)
  positivity

namespace ExactStream

open Series

/-! ## The last pass of a run -/

/-- The groups of the first `passes` passes. -/
def emitted (stream : ExactStream) (passes : ℕ) : List ℕ := (stream.pull passes).1

/-- The stream that is left after `passes` passes. -/
def after (stream : ExactStream) (passes : ℕ) : ExactStream := (stream.pull passes).2

/-- The whole number that comes out of the next pass. -/
def yield (stream : ExactStream) : ℕ := (divideDown stream.cursor 0 stream.table).1

/-- The stream after one more pass. -/
def advanced (stream : ExactStream) : ExactStream where
  table := (divideDown stream.cursor 0 stream.table).2
  cursor := stream.cursor - 14
  carry := stream.yield % 10000

@[simp]
theorem table_advanced (stream : ExactStream) :
    stream.advanced.table = (divideDown stream.cursor 0 stream.table).2 := rfl

@[simp]
theorem cursor_advanced (stream : ExactStream) :
    stream.advanced.cursor = stream.cursor - 14 := rfl

@[simp]
theorem carry_advanced (stream : ExactStream) :
    stream.advanced.carry = stream.yield % 10000 := rfl

@[simp]
theorem after_zero (stream : ExactStream) : stream.after 0 = stream := rfl

@[simp]
theorem emitted_zero (stream : ExactStream) : stream.emitted 0 = [] := rfl

theorem next?_of_ne_zero {stream : ExactStream} (h : stream.cursor ≠ 0) :
    stream.next? = some (stream.carry + stream.yield / 10000, stream.advanced) := by
  rw [next?, if_neg h]
  rfl

/-- A run of one more pass, taken apart at its last pass. -/
theorem pull_succ (stream : ExactStream) (passes : ℕ) :
    stream.pull (passes + 1) =
      match (stream.after passes).next? with
      | none => stream.pull passes
      | some (group, rest) => (stream.emitted passes ++ [group], rest) := by
  -- A run is defined from its first pass on, so the induction is over all streams at once.
  induction passes generalizing stream with
  | zero =>
    simp only [pull, after, emitted]
    cases stream.next? <;> rfl
  | succ passes ih =>
    simp only [after, emitted] at ih ⊢
    rw [pull]
    cases hnext : stream.next? with
    | none => simp [pull, hnext]
    | some emission =>
      obtain ⟨group, rest⟩ := emission
      simp only [pull, hnext] at ih ⊢
      rw [ih rest]
      cases (rest.pull passes).2.next? <;> rfl

theorem after_succ {stream : ExactStream} {passes : ℕ} (h : (stream.after passes).cursor ≠ 0) :
    stream.after (passes + 1) = (stream.after passes).advanced := by
  rw [after, pull_succ, next?_of_ne_zero h]

theorem emitted_succ {stream : ExactStream} {passes : ℕ}
    (h : (stream.after passes).cursor ≠ 0) :
    stream.emitted (passes + 1) = stream.emitted passes ++
      [(stream.after passes).carry + (stream.after passes).yield / 10000] := by
  rw [emitted, pull_succ, next?_of_ne_zero h]

/-- What has been written out after a number of passes: the number that the groups spell,
followed by the carry. -/
def account (stream : ExactStream) (passes : ℕ) : ℕ :=
  10000 * spelled (stream.emitted passes) + (stream.after passes).carry

@[simp]
theorem account_zero (stream : ExactStream) : stream.account 0 = stream.carry := by
  simp [account]

/-- A pass appends to the account what comes out of it. -/
theorem account_succ {stream : ExactStream} {passes : ℕ}
    (h : (stream.after passes).cursor ≠ 0) :
    stream.account (passes + 1) =
      10000 * stream.account passes + (stream.after passes).yield := by
  rw [account, emitted_succ h, spelled_concat, after_succ h, account, carry_advanced]
  have := Nat.div_add_mod (stream.after passes).yield 10000
  omega

/-! ## Runs to the end -/

/-- The stream is about to emit `groups` groups and has an entry for each of its terms. -/
structure Ready (groups : ℕ) (stream : ExactStream) : Prop where
  cursor_eq : stream.cursor = 14 * groups
  cursor_lt : stream.cursor < stream.table.size

theorem ready_seeded (groups : ℕ) : Ready groups (seeded (14 * groups + 1)) where
  cursor_eq := rfl
  cursor_lt := by simp [seeded]

namespace Ready

variable {groups passes : ℕ} {stream : ExactStream} (h : Ready groups stream)

include h

/-- The cursor goes down by fourteen with each pass. -/
theorem cursor_after (hle : passes ≤ groups) :
    (stream.after passes).cursor = 14 * (groups - passes) := by
  induction passes with
  | zero => exact h.cursor_eq
  | succ passes ih =>
    have hcursor := ih (by omega)
    rw [after_succ (by omega), cursor_advanced, hcursor]
    omega

theorem cursor_ne_zero (hlt : passes < groups) : (stream.after passes).cursor ≠ 0 := by
  rw [h.cursor_after hlt.le]
  omega

theorem length_emitted (hle : passes ≤ groups) : (stream.emitted passes).length = passes := by
  induction passes with
  | zero => rfl
  | succ passes ih =>
    rw [emitted_succ (h.cursor_ne_zero hle), List.length_append, ih (by omega),
      List.length_singleton]

theorem size_after (hle : passes ≤ groups) :
    (stream.after passes).table.size = stream.table.size := by
  induction passes with
  | zero => rfl
  | succ passes ih =>
    rw [after_succ (h.cursor_ne_zero hle), table_advanced, size_divideDown, ih (by omega)]

theorem cursor_after_lt_size (hle : passes ≤ groups) :
    (stream.after passes).cursor < (stream.after passes).table.size := by
  have hsize := h.cursor_lt
  rw [h.cursor_eq] at hsize
  rw [h.size_after hle, h.cursor_after hle]
  omega

theorem carry_after_lt (hpos : 1 ≤ passes) (hle : passes ≤ groups) :
    (stream.after passes).carry < 10000 := by
  obtain ⟨before, rfl⟩ : ∃ before, passes = before + 1 := ⟨passes - 1, by omega⟩
  rw [after_succ (h.cursor_ne_zero hle)]
  exact Nat.mod_lt _ (by norm_num)

/-- An entry above the cursor keeps its value. -/
theorem remainder_after_succ_of_lt (hlt : passes < groups) {term : ℕ}
    (hterm : 14 * (groups - passes) < term) :
    remainder (stream.after (passes + 1)).table term =
      remainder (stream.after passes).table term := by
  rw [after_succ (h.cursor_ne_zero hlt), table_advanced]
  rw [← h.cursor_after hlt.le] at hterm
  exact remainder_divideDown_of_lt hterm 0 _

/-- After the first pass the remainder of every term `i`, whether live or abandoned, is smaller
than the divisor `2i - 1`. -/
theorem remainder_after_le (hpos : 1 ≤ passes) (hle : passes ≤ groups) {term : ℕ}
    (hfirst : 1 ≤ term) (hlast : term ≤ 14 * groups) :
    remainder (stream.after passes).table term ≤ 2 * term - 2 := by
  induction passes, hpos using Nat.le_induction with
  | base =>
    rw [after_succ (h.cursor_ne_zero hle), table_advanced, after_zero]
    rw [← h.cursor_eq] at hlast
    exact remainder_divideDown_le hfirst hlast 0 _
  | succ passes _ ih =>
    -- An abandoned entry is what an earlier pass has left, a live one what this pass leaves.
    rcases Nat.lt_or_ge (14 * (groups - passes)) term with habove | hbelow
    · rw [h.remainder_after_succ_of_lt hle habove]
      exact ih (by omega)
    · rw [after_succ (h.cursor_ne_zero hle), table_advanced]
      rw [← h.cursor_after (by omega)] at hbelow
      exact remainder_divideDown_le hfirst hbelow 0 _

end Ready

/-! ## Conservation -/

theorem remainder_seeded {groups term : ℕ} (hterm : term ≤ 14 * groups) :
    remainder (seeded (14 * groups + 1)).table term = 2000 :=
  remainder_replicate (by omega) _

/-- A new table stands for `2000` times the first terms of the series. -/
theorem worth_seeded (groups : ℕ) :
    ((seeded (14 * groups + 1)).carry : ℚ) +
        worth (remainder (seeded (14 * groups + 1)).table) 0 (14 * groups) =
      2000 * partialSum (14 * groups) := by
  rw [worth_const fun term _ hterm => remainder_seeded hterm, seeded]
  norm_num

/-- What the entries abandoned so far stand for: the block that the pass `pass` was the last to
use is multiplied by ten thousand for every pass since. -/
def abandoned (groups : ℕ) (stream : ExactStream) (passes : ℕ) : ℚ :=
  amplified (fun pass => worth (remainder (stream.after passes).table)
    (14 * (groups - pass - 1)) (14 * (groups - pass))) passes

namespace Ready

variable {groups passes : ℕ} {stream : ExactStream} (h : Ready groups stream)

include h

/-- A pass multiplies what was abandoned before by ten thousand and adds the block that it is
the last to use. -/
theorem abandoned_succ (hlt : passes < groups) :
    abandoned groups stream (passes + 1) =
      10000 * abandoned groups stream passes +
        worth (remainder (stream.after (passes + 1)).table)
          (14 * (groups - passes - 1)) (14 * (groups - passes)) := by
  rw [abandoned, amplified_succ, abandoned]
  -- The entries of the earlier blocks are no longer live, so the pass has left them alone.
  congr 2
  refine amplified_congr fun pass hpass => worth_congr fun term hterm _ => ?_
  exact h.remainder_after_succ_of_lt hlt (by omega)

/-- Conservation in a pass, for the live terms. -/
theorem yield_conserves (hlt : passes < groups) :
    ((stream.after passes).yield : ℚ) +
        worth (remainder (stream.after (passes + 1)).table) 0 (14 * (groups - passes)) =
      10000 * worth (remainder (stream.after passes).table) 0 (14 * (groups - passes)) := by
  have hpass := divideDown_conserves 0 (h.cursor_after_lt_size hlt.le)
  rw [Nat.cast_zero, zero_mul, zero_add] at hpass
  rw [after_succ (h.cursor_ne_zero hlt), table_advanced, ← h.cursor_after hlt.le]
  exact hpass

/-- Conservation in a run: what was written out, what the live entries are worth and what the
abandoned ones stand for are together all that there was, without any error. -/
theorem conserves (hle : passes ≤ groups) :
    10000 ^ passes * (stream.carry + worth (remainder stream.table) 0 (14 * groups)) =
      stream.account passes +
        worth (remainder (stream.after passes).table) 0 (14 * (groups - passes)) +
          abandoned groups stream passes := by
  induction passes with
  | zero => simp [abandoned]
  | succ passes ih =>
    -- The live entries before the pass are those after it and the block that is abandoned.
    have hsplit := worth_add_worth (remainder (stream.after (passes + 1)).table)
      (Nat.zero_le (14 * (groups - passes - 1)))
      (by omega : 14 * (groups - passes - 1) ≤ 14 * (groups - passes))
    have hpass := h.yield_conserves hle
    rw [account_succ (h.cursor_ne_zero hle), h.abandoned_succ hle, ← Nat.sub_sub, pow_succ]
    push_cast
    linear_combination 10000 * ih (by omega) - hpass - hsplit

end Ready

end ExactStream

end DecimalPi
