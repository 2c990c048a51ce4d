import DecimalPi.Proofs.Accuracy

/-!
# Runs of different lengths agree

Asking for more digits does not change the earlier ones by more than what a carry can still do.
Two runs have tables of different sizes and give up different terms at different times, so no
value of the one appears in the other. But both accounts are at most the same target and fall
short of it by less than three, so they differ by at most two. Where the carry of one run is not
that close to a place, the groups of the other run have to be the same.

## Main results

* `Opened.account_le_account_add_two`: before the last group of either, accounts differ by at
  most two;
* `take_eq_of_spelled_eq`: groups whose beginnings spell the same numbers are the same;
* `DigitStream.runs_agree`: the two-run property for all accepted numbers of digits.
-/

namespace DecimalPi

/-- Groups are known from the numbers that all of their beginnings spell. -/
theorem take_eq_of_spelled_eq {groups groups' : List ℕ} {count : ℕ}
    (hle : count ≤ groups.length) (hle' : count ≤ groups'.length)
    (h : ∀ before ≤ count, spelled (groups.take before) = spelled (groups'.take before)) :
    groups.take count = groups'.take count := by
  induction count with
  | zero => rfl
  | succ count ih =>
    have hbefore := ih (by omega) (by omega) fun before hlt => h before (by omega)
    have hnumber := h (count + 1) le_rfl
    rw [← List.take_append_getElem hle, ← List.take_append_getElem hle', spelled_concat,
      spelled_concat, hbefore] at hnumber
    rw [← List.take_append_getElem hle, ← List.take_append_getElem hle', hbefore,
      Nat.add_left_cancel hnumber]

namespace Group

theorem numbers_injective : Function.Injective numbers := by
  refine List.map_injective_iff.mpr ?_
  rintro ⟨value⟩ ⟨value'⟩ h
  exact congrArg Group.mk (UInt64.toNat_inj.mp h)

@[simp]
theorem length_numbers (groups : List Group) : (numbers groups).length = groups.length :=
  List.length_map _

theorem take_numbers (count : ℕ) (groups : List Group) :
    (numbers groups).take count = numbers (groups.take count) :=
  List.map_take.symm

end Group

namespace DigitStream

open Series

namespace Opened

variable {groups groups' passes : ℕ} {stream stream' : DigitStream}
  (h : Opened groups stream) (h' : Opened groups' stream')

include h h'

/-- The account of one run is at most two above that of another. -/
theorem account_le_account_add_two (hpos : 1 ≤ passes) (hlt : passes < groups)
    (hle : passes ≤ groups') : stream'.account passes ≤ stream.account passes + 2 := by
  -- Both runs are measured against a target that has the terms of either table.
  have hbelow := h'.account_le_target hle (le_max_right (14 * groups) (14 * groups'))
  have habove := h.target_lt_account_add_three hpos hlt (le_max_left (14 * groups) (14 * groups'))
  have hlt : (stream'.account passes : ℚ) < stream.account passes + 3 := hbelow.trans_lt habove
  refine Nat.le_of_lt_succ ?_
  exact_mod_cast hlt

/-- Where the carry is not within two of a place, both runs spell the same number. -/
theorem spelled_eq_of_carry (hpos : 1 ≤ passes) (hlt : passes < groups) (hlt' : passes < groups')
    (hlower : 2 ≤ (stream.pull passes).2.carry.toNat)
    (hupper : (stream.pull passes).2.carry.toNat ≤ 9997) :
    spelled (stream.emitted passes) = spelled (stream'.emitted passes) := by
  have hfrom := h.account_le_account_add_two h' hpos hlt hlt'.le
  have hto := h'.account_le_account_add_two h hpos hlt' hlt.le
  have hcarry := h'.carry_pull_lt hpos hlt'.le
  rw [account, account] at hfrom hto
  omega

/-- As long as the carry is not within two of a place, both runs have the same groups. -/
theorem take_groups_eq (hlt : passes < groups) (hlt' : passes < groups')
    (hcarries : ∀ before, 1 ≤ before → before ≤ passes →
      2 ≤ (stream.pull before).2.carry.toNat ∧ (stream.pull before).2.carry.toNat ≤ 9997) :
    stream.groups.take passes = stream'.groups.take passes := by
  have hlength := h.length_groups
  have hlength' := h'.length_groups
  apply Group.numbers_injective
  rw [← Group.take_numbers, ← Group.take_numbers]
  refine take_eq_of_spelled_eq ?_ ?_ fun before hle => ?_
  · rw [Group.length_numbers]
    omega
  · rw [Group.length_numbers]
    omega
  rw [Group.take_numbers, Group.take_numbers, h.numbers_take_groups (by omega),
    h'.numbers_take_groups (by omega)]
  rcases Nat.eq_zero_or_pos before with rfl | hpos
  · rfl
  · obtain ⟨hlower, hupper⟩ := hcarries before hpos hle
    exact h.spelled_eq_of_carry h' hpos (by omega) (by omega) hlower hupper

end Opened

/-- Runs of different lengths agree. Where two numbers of digits are accepted and there is room
for their tables, the accounts of the two runs differ by at most two before the last group of
either. As long as the carry of one run is not within two of a place, the groups are the same. -/
theorem runs_agree {room room' : Option UInt64} {count count' entries entries' : UInt64}
    (accepted : entriesFor count = .ok entries) (granted : ∀ limit ∈ room, entries ≤ limit)
    (accepted' : entriesFor count' = .ok entries')
    (granted' : ∀ limit ∈ room', entries' ≤ limit) :
    ∃ groups stream groups' stream',
      groupsFor count = .ok groups ∧ start room count = .ok stream ∧
      groupsFor count' = .ok groups' ∧ start room' count' = .ok stream' ∧
      ∀ passes, 1 ≤ passes → passes < min groups.toNat groups'.toNat →
        |(stream.account passes : ℤ) - stream'.account passes| ≤ 2 ∧
        ((∀ before, 1 ≤ before → before ≤ passes →
            2 ≤ (stream.pull before).2.carry.toNat ∧
              (stream.pull before).2.carry.toNat ≤ 9997) →
          stream.groups.take passes = stream'.groups.take passes ∧
            (stream.groups.take passes).length = passes) := by
  obtain ⟨groups, stream, hgroups, hstart, -, hopened⟩ := exists_opened accepted granted
  obtain ⟨groups', stream', hgroups', hstart', -, hopened'⟩ := exists_opened accepted' granted'
  refine ⟨groups, stream, groups', stream', hgroups, hstart, hgroups', hstart', ?_⟩
  intro passes hpos hmin
  obtain ⟨hlt, hlt'⟩ := lt_min_iff.mp hmin
  refine ⟨?_, fun hcarries => ⟨hopened.take_groups_eq hopened' hlt hlt' hcarries, ?_⟩⟩
  · have hfrom := hopened.account_le_account_add_two hopened' hpos hlt hlt'.le
    have hto := hopened'.account_le_account_add_two hopened hpos hlt' hlt.le
    rw [abs_le]
    omega
  · rw [List.length_take, hopened.length_groups]
    exact Nat.min_eq_left hlt.le

/-- Forty and eighty digits: no carry of the shorter run is close to a place, so all of its
groups but the last are groups of the longer one. -/
theorem runs_agree_forty :
    entriesFor 40 = .ok 141 ∧ entriesFor 80 = .ok 281 ∧
      start none 40 = .ok (seeded 141) ∧ start none 80 = .ok (seeded 281) ∧
      |((seeded 141).account 9 : ℤ) - (seeded 281).account 9| ≤ 2 ∧
      (∀ before, 1 ≤ before → before ≤ 9 → 2 ≤ ((seeded 141).pull before).2.carry.toNat ∧
        ((seeded 141).pull before).2.carry.toNat ≤ 9997) ∧
      (seeded 141).groups.take 9 = (seeded 281).groups.take 9 := by
  have accepted : entriesFor 40 = .ok 141 := by decide
  have accepted' : entriesFor 80 = .ok 281 := by decide
  have granted : ∀ limit ∈ (none : Option UInt64), (141 : UInt64) ≤ limit := by simp
  have granted' : ∀ limit ∈ (none : Option UInt64), (281 : UInt64) ≤ limit := by simp
  have hopen : start none 40 = .ok (seeded 141) :=
    start_eq_ok_iff.mpr ⟨141, accepted, granted, rfl⟩
  have hopen' : start none 80 = .ok (seeded 281) :=
    start_eq_ok_iff.mpr ⟨281, accepted', granted', rfl⟩
  have hcarries : ∀ before ≤ 9, 1 ≤ before → 2 ≤ ((seeded 141).pull before).2.carry.toNat ∧
      ((seeded 141).pull before).2.carry.toNat ≤ 9997 := by decide +kernel
  obtain ⟨groups, stream, groups', stream', hgroups, hstart, hgroups', hstart', hagree⟩ :=
    runs_agree accepted granted accepted' granted'
  obtain rfl : groups = 10 := by
    have hten : groupsFor 40 = .ok 10 := by decide
    exact Except.ok.inj (hgroups.symm.trans hten)
  obtain rfl : groups' = 20 := by
    have htwenty : groupsFor 80 = .ok 20 := by decide
    exact Except.ok.inj (hgroups'.symm.trans htwenty)
  obtain rfl : stream = seeded 141 := Except.ok.inj (hstart.symm.trans hopen)
  obtain rfl : stream' = seeded 281 := Except.ok.inj (hstart'.symm.trans hopen')
  obtain ⟨haccount, hsame⟩ := hagree 9 (by decide) (by decide)
  have hinner : ∀ before, 1 ≤ before → before ≤ 9 →
      2 ≤ ((seeded 141).pull before).2.carry.toNat ∧
        ((seeded 141).pull before).2.carry.toNat ≤ 9997 :=
    fun before hpos hle => hcarries before hle hpos
  exact ⟨accepted, accepted', hopen, hopen', haccount, hinner, (hsame hinner).1⟩

end DigitStream

end DecimalPi
