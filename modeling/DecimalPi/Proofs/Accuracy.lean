import DecimalPi.Proofs.Exact.Accuracy
import DecimalPi.Proofs.Series.Limit
import DecimalPi.Proofs.Words.Run

/-!
# Accuracy of the digits

How far the groups of a run are from the digits of `π`. The groups and the carry together are
at most the scaled series, and fall short of it by less than three units of the carry before
the last group, by less than a thousand after it. So the number that the groups spell is the
whole part of the scaled series, or one less where a carry is still to come; and the carry
itself tells when it is not.

## Main definitions

* `Series.target`: the series at the scale of so many groups and one more.

## Main results

* `Series.tendsto_target`: with more and more terms this is `π` at that scale;
* `DigitStream.run_accurate`: the accuracy of every run of an accepted number of digits.
-/

namespace DecimalPi

open Filter Topology
open scoped Nat Real

namespace Series

/-- The first `last` terms of the series, at the scale at which `groups` groups and a carry are
whole numbers. -/
def target (groups last : ℕ) : ℚ :=
  10000 ^ groups * 2000 * ∑ i ∈ Finset.Icc 1 last, ((i - 1)! : ℚ) / ((2 * i - 1)‼ : ℚ)

theorem target_eq (groups last : ℕ) :
    target groups last = 10000 ^ groups * 2000 * partialSum last := by
  rw [target, partialSum_eq_factorial]

/-- With more and more terms the target becomes `π`, scaled. -/
theorem tendsto_target (groups : ℕ) :
    Tendsto (fun last => (target groups last : ℝ)) atTop (𝓝 (1000 * π * 10000 ^ groups)) := by
  have hscaled := tendsto_partialSum.const_mul ((10000 : ℝ) ^ groups * 2000)
  have hlimit : (10000 : ℝ) ^ groups * 2000 * (π / 2) = 1000 * π * 10000 ^ groups := by ring
  rw [hlimit] at hscaled
  refine hscaled.congr fun last => ?_
  rw [target_eq]
  push_cast
  rfl

end Series

namespace DigitStream

open Series

/-- The whole part of a number of ten thousandths. -/
theorem floor_div_eq {number : ℚ} {whole : ℤ} (hle : 10000 * whole ≤ number)
    (hlt : number < 10000 * (whole + 1)) : ⌊number / 10000⌋ = whole := by
  rw [Int.floor_eq_iff, le_div_iff₀ (by norm_num), div_lt_iff₀ (by norm_num)]
  constructor <;> linarith

namespace Opened

variable {groups passes last : ℕ} {stream : DigitStream} (h : Opened groups stream)

include h

theorem target_sub_account (passes last : ℕ) :
    target passes last - stream.account passes = ExactStream.excess groups last passes := by
  rw [target_eq, h.account_eq, ExactStream.excess]

theorem account_le_target (hle : passes ≤ groups) (hlast : 14 * groups ≤ last) :
    (stream.account passes : ℚ) ≤ target passes last := by
  have hexcess := ExactStream.excess_nonneg hle hlast
  rw [← h.target_sub_account] at hexcess
  exact sub_nonneg.mp hexcess

/-- Before the last group the account falls short of the target by less than three. -/
theorem target_lt_account_add_three (hpos : 1 ≤ passes) (hlt : passes < groups)
    (hlast : 14 * groups ≤ last) : target passes last < stream.account passes + 3 := by
  have hexcess := ExactStream.excess_lt_three hpos hlt hlast
  rw [← h.target_sub_account] at hexcess
  linarith

/-- After the last group it falls short by less than a thousand. -/
theorem target_lt_account_add_thousand (hpos : 1 ≤ passes) (hle : passes ≤ groups)
    (hlast : 14 * groups ≤ last) : target passes last < stream.account passes + 1000 := by
  rcases Nat.lt_or_eq_of_le hle with hlt | rfl
  · linarith [h.target_lt_account_add_three hpos hlt hlast]
  · have hexcess := ExactStream.excess_lt_thousand hpos hlast
    rw [← h.target_sub_account] at hexcess
    linarith

theorem carry_pull_lt (hpos : 1 ≤ passes) (hle : passes ≤ groups) :
    (stream.pull passes).2.carry.toNat < 10000 := by
  rw [h.carry_pull]
  exact h.ready.carry_after_lt hpos hle

/-- The groups spell the whole part of the target, or one less. -/
theorem spelled_eq_floor_or (hpos : 1 ≤ passes) (hle : passes ≤ groups)
    (hlast : 14 * groups ≤ last) :
    (spelled (stream.emitted passes) : ℤ) = ⌊target passes last / 10000⌋ ∨
      (spelled (stream.emitted passes) : ℤ) = ⌊target passes last / 10000⌋ - 1 := by
  have hlower := h.account_le_target hle hlast
  have hupper := h.target_lt_account_add_thousand hpos hle hlast
  have hcarry : ((stream.pull passes).2.carry.toNat : ℚ) < 10000 := by
    exact_mod_cast h.carry_pull_lt hpos hle
  have hnonneg : (0 : ℚ) ≤ (stream.pull passes).2.carry.toNat := Nat.cast_nonneg _
  rw [account] at hlower hupper
  push_cast at hlower hupper
  -- What the account falls short by may or may not take the carry over the next place.
  by_cases hplace : target passes last < 10000 * (spelled (stream.emitted passes) + 1)
  · left
    refine (floor_div_eq ?_ ?_).symm
    · push_cast
      linarith
    · exact_mod_cast hplace
  · right
    rw [eq_sub_iff_add_eq]
    refine (floor_div_eq ?_ ?_).symm
    · push_cast
      linarith
    · push_cast
      linarith

/-- The groups spell the whole part of the target where the carry is not too close to the next
place. -/
theorem spelled_eq_floor (hpos : 1 ≤ passes) (hlt : passes < groups)
    (hlast : 14 * groups ≤ last) (hcarry : (stream.pull passes).2.carry.toNat ≤ 9996) :
    (spelled (stream.emitted passes) : ℤ) = ⌊target passes last / 10000⌋ := by
  have hlower := h.account_le_target hlt.le hlast
  have hupper := h.target_lt_account_add_three hpos hlt hlast
  have hcast : ((stream.pull passes).2.carry.toNat : ℚ) ≤ 9996 := by exact_mod_cast hcarry
  have hnonneg : (0 : ℚ) ≤ (stream.pull passes).2.carry.toNat := Nat.cast_nonneg _
  rw [account] at hlower hupper
  push_cast at hlower hupper
  refine (floor_div_eq ?_ ?_).symm
  · push_cast
    linarith
  · push_cast
    linarith

end Opened

/-- The accuracy of a run. Where a number of digits is accepted and there is room for its table,
the account of the first groups is at most the target, for every number of terms from those of
the table on. It falls short of it by less than three before the last group and by less than a
thousand after it; so the groups spell the whole part of the target or one less, and exactly
the whole part where the run goes on and its carry is at most `9996`. -/
theorem run_accurate {room : Option UInt64} {count entries : UInt64}
    (accepted : entriesFor count = .ok entries) (granted : ∀ limit ∈ room, entries ≤ limit) :
    ∃ groups stream, groupsFor count = .ok groups ∧ start room count = .ok stream ∧
      ∀ passes, 1 ≤ passes → passes ≤ groups.toNat →
        (stream.emitted passes).length = passes ∧
        Tendsto (fun last => (target passes last : ℝ)) atTop (𝓝 (1000 * π * 10000 ^ passes)) ∧
        ∀ last, 14 * groups.toNat ≤ last →
          0 ≤ target passes last - stream.account passes ∧
          (passes < groups.toNat → target passes last - stream.account passes < 3) ∧
          (passes = groups.toNat → target passes last - stream.account passes < 1000) ∧
          ((spelled (stream.emitted passes) : ℤ) = ⌊target passes last / 10000⌋ ∨
            (spelled (stream.emitted passes) : ℤ) = ⌊target passes last / 10000⌋ - 1) ∧
          (passes < groups.toNat → (stream.pull passes).2.carry.toNat ≤ 9996 →
            (spelled (stream.emitted passes) : ℤ) = ⌊target passes last / 10000⌋) := by
  obtain ⟨groups, stream, hgroups, hstart, -, hopened⟩ := exists_opened accepted granted
  refine ⟨groups, stream, hgroups, hstart, ?_⟩
  intro passes hpos hle
  refine ⟨hopened.length_emitted hle, tendsto_target passes, ?_⟩
  intro last hlast
  refine ⟨?_, ?_, ?_, hopened.spelled_eq_floor_or hpos hle hlast, ?_⟩
  · exact sub_nonneg.mpr (hopened.account_le_target hle hlast)
  · intro hlt
    exact sub_lt_iff_lt_add'.mpr (hopened.target_lt_account_add_three hpos hlt hlast)
  · intro _
    exact sub_lt_iff_lt_add'.mpr (hopened.target_lt_account_add_thousand hpos hle hlast)
  · intro hlt hcarry
    exact hopened.spelled_eq_floor hpos hlt hlast hcarry

/-- Ten digits, measured against a hundred terms: after the second of three groups the carry is
small enough for the groups to be the whole part of the target, and the third is the last. -/
theorem run_accurate_ten :
    entriesFor 10 = .ok 43 ∧ start none 10 = .ok (seeded 43) ∧
      0 ≤ target 2 100 - (seeded 43).account 2 ∧ target 2 100 - (seeded 43).account 2 < 3 ∧
      ((seeded 43).pull 2).2.carry.toNat ≤ 9996 ∧
      (spelled ((seeded 43).emitted 2) : ℤ) = ⌊target 2 100 / 10000⌋ ∧
      target 3 100 - (seeded 43).account 3 < 1000 := by
  have accepted : entriesFor 10 = .ok 43 := by decide
  have granted : ∀ limit ∈ (none : Option UInt64), (43 : UInt64) ≤ limit := by simp
  have hopen : start none 10 = .ok (seeded 43) := by decide +kernel
  have hcarry : ((seeded 43).pull 2).2.carry.toNat ≤ 9996 := by decide +kernel
  obtain ⟨groups, stream, hgroups, hstart, haccurate⟩ := run_accurate accepted granted
  obtain rfl : groups = 3 := by
    have hthree : groupsFor 10 = .ok 3 := by decide
    exact Except.ok.inj (hgroups.symm.trans hthree)
  obtain rfl : stream = seeded 43 := Except.ok.inj (hstart.symm.trans hopen)
  obtain ⟨-, -, hsecond⟩ := haccurate 2 (by decide) (by decide)
  obtain ⟨-, -, hthird⟩ := haccurate 3 (by decide) (by decide)
  obtain ⟨hnonneg, hthree, -, -, hfloor⟩ := hsecond 100 (by decide)
  obtain ⟨-, -, hthousand, -⟩ := hthird 100 (by decide)
  exact ⟨accepted, hopen, hnonneg, hthree (by decide), hcarry, hfloor (by decide) hcarry,
    hthousand rfl⟩

end DigitStream

end DecimalPi
