import DecimalPi.Proofs.Extent
import DecimalPi.Run.Job
import Mathlib.Algebra.Order.Floor.Div
import Mathlib.GroupTheory.GroupAction.Ring

/-!
# Which numbers of digits are accepted

The size of a table is computed in words by steps that refuse to wrap. Any of these steps can fail,
and what fails is told in one and the same way, so it does not show at which of them a number of
digits is lost. It does not matter either: the verdict is the one of unbounded arithmetic, in which
nothing fails but the comparison at the end. The numbers of digits that are accepted are those from
one up to a limit, and more digits never take a smaller table.

Everything that needs a table asks for its size before anything else, and passes on what is wrong
with it.

## Main definitions

* `exactEntries`, `exactEntriesFor`: the size of a table in unbounded arithmetic.

## Main results

* `map_toNat_entriesFor`: the computation in words has the result of the one in numbers;
* `exists_entriesFor_of_le`: fewer digits are accepted with more, and take no larger table;
* `start_eq_error`, `expansion_eq_error` and `Job.prepare_eq_error`: the same fault everywhere;
* `accepted_counts`: the exact domain of the size of a table.
-/

namespace DecimalPi

/-- Entries of the table for `count` digits: one for each term of each group, and one more. -/
def exactEntries (count : ℕ) : ℕ := 14 * (count ⌈/⌉ 4) + 1

/-- The size of a table in unbounded arithmetic, or what is wrong with a number of digits. -/
def exactEntriesFor (count : UInt64) : Except Fault ℕ :=
  if count.toNat = 0 then
    .error (.nonPositiveCount 0)
  else if 2 * exactEntries count.toNat < 2 ^ 32 then
    .ok (exactEntries count.toNat)
  else
    .error (.tooManyDigits count)

theorem exactEntries_eq (count : ℕ) : exactEntries count = 14 * ((count + 3) / 4) + 1 := by
  rw [exactEntries, Nat.ceilDiv_eq_add_pred_div]
  rfl

/-- The limit to the digits in terms of their number. -/
theorem two_mul_exactEntries_lt_iff {count : ℕ} :
    2 * exactEntries count < 2 ^ 32 ↔ count ≤ 613566756 := by
  rw [exactEntries_eq]
  omega

theorem exactEntries_mono : Monotone exactEntries := by
  intro count count' hle
  rw [exactEntries_eq, exactEntries_eq]
  omega

/-- The size of a table tells the number of its groups. -/
theorem exactEntries_inj {count count' : ℕ} :
    exactEntries count = exactEntries count' ↔ count ⌈/⌉ 4 = count' ⌈/⌉ 4 := by
  rw [exactEntries, exactEntries]
  omega

/-! ## The verdict -/

theorem entriesFor_zero : entriesFor 0 = .error (.nonPositiveCount 0) := rfl

theorem entriesFor_eq_ok_iff_exact {count entries : UInt64} :
    entriesFor count = .ok entries ↔
      1 ≤ count.toNat ∧ count.toNat ≤ 613566756 ∧ entries.toNat = exactEntries count.toNat := by
  rw [entriesFor_eq_ok_iff, exactEntries_eq]

/-- The verdict on every number of digits, by the three ranges of these numbers. -/
theorem entriesFor_cases (count : UInt64) :
    (count = 0 ∧ entriesFor count = .error (.nonPositiveCount 0)) ∨
      (1 ≤ count.toNat ∧ count.toNat ≤ 613566756 ∧
        ∃ entries, entriesFor count = .ok entries) ∨
      (613566756 < count.toNat ∧ entriesFor count = .error (.tooManyDigits count)) := by
  rcases Nat.eq_zero_or_pos count.toNat with hzero | hpos
  · obtain rfl : count = 0 := UInt64.toNat_inj.mp hzero
    exact .inl ⟨rfl, entriesFor_zero⟩
  · rcases Nat.lt_or_ge 613566756 count.toNat with hlarge | hsmall
    · exact .inr (.inr ⟨hlarge, entriesFor_of_lt hlarge⟩)
    · exact .inr (.inl ⟨hpos, hsmall, exists_entriesFor hpos hsmall⟩)

/-- The computation in words has the result of the one in unbounded arithmetic. -/
theorem map_toNat_entriesFor (count : UInt64) :
    (entriesFor count).map UInt64.toNat = exactEntriesFor count := by
  simp only [exactEntriesFor, two_mul_exactEntries_lt_iff]
  obtain ⟨rfl, hverdict⟩ | ⟨hpos, hsmall, entries, hverdict⟩ | ⟨hlarge, hverdict⟩ :=
    entriesFor_cases count
  · rfl
  · have hentries := (entriesFor_eq_ok_iff_exact.mp hverdict).2.2
    rw [hverdict, if_neg (by omega), if_pos hsmall, ← hentries]
    rfl
  · rw [hverdict, if_neg (by omega), if_neg (by omega)]
    rfl

theorem entriesFor_eq_nonPositiveCount_iff {count : UInt64} :
    entriesFor count = .error (.nonPositiveCount 0) ↔ count = 0 := by
  constructor
  · intro h
    obtain ⟨hzero, -⟩ | ⟨-, -, entries, hverdict⟩ | ⟨-, hverdict⟩ := entriesFor_cases count
    · exact hzero
    · rw [hverdict] at h
      contradiction
    · rw [hverdict] at h
      cases h
  · rintro rfl
    exact entriesFor_zero

theorem entriesFor_eq_tooManyDigits_iff {count : UInt64} :
    entriesFor count = .error (.tooManyDigits count) ↔ 613566756 < count.toNat := by
  constructor
  · intro h
    obtain ⟨-, hverdict⟩ | ⟨-, -, entries, hverdict⟩ | ⟨hlarge, -⟩ := entriesFor_cases count
    · rw [hverdict] at h
      cases h
    · rw [hverdict] at h
      contradiction
    · exact hlarge
  · exact entriesFor_of_lt

theorem exists_entriesFor_iff {count : UInt64} :
    (∃ entries, entriesFor count = .ok entries) ↔
      1 ≤ count.toNat ∧ count.toNat ≤ 613566756 := by
  constructor
  · rintro ⟨entries, hentries⟩
    have := entriesFor_eq_ok_iff.mp hentries
    omega
  · rintro ⟨hpos, hle⟩
    exact exists_entriesFor hpos hle

/-- The groups that a table is for are those of the digits, and its remainders fit their words. -/
theorem groupsFor_of_entriesFor {count entries : UInt64} (h : entriesFor count = .ok entries) :
    groupsFor count = .ok ((entries - 1) / termsPerGroup) ∧ 2 * entries.toNat < 2 ^ 32 := by
  obtain ⟨groups, hgroups, hentries, hle⟩ := entriesFor_eq_ok_iff_groups.mp h
  have hone : (1 : UInt64) ≤ entries := UInt64.le_iff_toNat_le.mpr (show 1 ≤ _ by omega)
  have hquotient : ((entries - 1) / termsPerGroup).toNat = groups.toNat := by
    rw [UInt64.toNat_div, UInt64.toNat_sub_of_le _ _ hone, hentries]
    exact Nat.mul_div_cancel_left groups.toNat (Nat.succ_pos 13)
  rw [hgroups, UInt64.toNat_inj.mp hquotient]
  exact ⟨rfl, by omega⟩

/-- Fewer digits are accepted with more of them. They take no larger table, and the same one only
if they take as many groups. -/
theorem exists_entriesFor_of_le {count count' entries : UInt64}
    (h : entriesFor count = .ok entries) (hpos : 1 ≤ count'.toNat) (hle : count' ≤ count) :
    ∃ entries', entriesFor count' = .ok entries' ∧ entries' ≤ entries ∧
      (entries' = entries ↔ count'.toNat ⌈/⌉ 4 = count.toNat ⌈/⌉ 4) := by
  rw [UInt64.le_iff_toNat_le] at hle
  obtain ⟨-, hlimit, hentries⟩ := entriesFor_eq_ok_iff_exact.mp h
  obtain ⟨entries', h'⟩ := exists_entriesFor hpos (hle.trans hlimit)
  obtain ⟨-, -, hentries'⟩ := entriesFor_eq_ok_iff_exact.mp h'
  refine ⟨entries', h', ?_, ?_⟩
  · rw [UInt64.le_iff_toNat_le, hentries, hentries']
    exact exactEntries_mono hle
  · rw [← UInt64.toNat_inj, hentries, hentries', exactEntries_inj]

/-! ## What needs a table -/

section Refused

variable {count : UInt64} {fault : Fault} (h : entriesFor count = .error fault)

include h

theorem start_eq_error (room : Option UInt64) : DigitStream.start room count = .error fault := by
  rw [DigitStream.start, h]
  rfl

theorem startEvents_eq_nil : DigitStream.startEvents count = [] := by
  rw [DigitStream.startEvents, h]

theorem expansion_eq_error (room : Option UInt64) : expansion room count = .error fault := by
  rw [expansion, start_eq_error h room]
  rfl

theorem Job.prepare_eq_error (room : Option UInt64) {plan : Plan} (hplan : plan.digits = count) :
    Job.prepare room plan = .error fault := by
  rw [Job.prepare, hplan, start_eq_error h room]
  rfl

theorem Job.prepareEvents_eq_nil {plan : Plan} (hplan : plan.digits = count) :
    Job.prepareEvents plan (.error fault) = [] := by
  rw [Job.prepareEvents, hplan, startEvents_eq_nil h]
  rfl

end Refused

/-- The exact domain of the size of a table. Computed in words that refuse to wrap, it is what it
would be in unbounded arithmetic. No digits are refused as such, from one to `613566756` they are
accepted, and all other numbers are too many. An accepted number of digits has a table with
fourteen entries for each of its groups and one more, and twice its size fits the word of a
remainder. Fewer digits take no larger table, and the same one only for as many groups. Where the
size is refused, nothing that needs a table is there: no stream, no expansion and no job, for the
same reason each time, and nothing has happened until then. -/
theorem accepted_counts (count : UInt64) :
    (entriesFor count).map UInt64.toNat = exactEntriesFor count ∧
      (entriesFor count = .error (.nonPositiveCount 0) ↔ count = 0) ∧
      ((∃ entries, entriesFor count = .ok entries) ↔
        1 ≤ count.toNat ∧ count.toNat ≤ 613566756) ∧
      (entriesFor count = .error (.tooManyDigits count) ↔ 613566756 < count.toNat) ∧
      (∀ entries, entriesFor count = .ok entries →
        entries.toNat = 14 * (count.toNat ⌈/⌉ 4) + 1 ∧
        groupsFor count = .ok ((entries - 1) / termsPerGroup) ∧ 2 * entries.toNat < 2 ^ 32 ∧
        ∀ count', 1 ≤ count'.toNat → count' ≤ count → ∃ entries',
          entriesFor count' = .ok entries' ∧ entries' ≤ entries ∧
            (entries' = entries ↔ count'.toNat ⌈/⌉ 4 = count.toNat ⌈/⌉ 4)) ∧
      ∀ fault, entriesFor count = .error fault →
        ∀ room, DigitStream.start room count = .error fault ∧
          DigitStream.startEvents count = [] ∧ expansion room count = .error fault ∧
          ∀ plan, plan.digits = count → Job.prepare room plan = .error fault ∧
            Job.prepareEvents plan (Job.prepare room plan) = [] := by
  refine ⟨map_toNat_entriesFor count, entriesFor_eq_nonPositiveCount_iff, exists_entriesFor_iff,
    entriesFor_eq_tooManyDigits_iff, ?_, ?_⟩
  · intro entries hentries
    obtain ⟨hgroups, hfits⟩ := groupsFor_of_entriesFor hentries
    refine ⟨(entriesFor_eq_ok_iff_exact.mp hentries).2.2, hgroups, hfits, ?_⟩
    intro count' hpos hle
    exact exists_entriesFor_of_le hentries hpos hle
  · intro fault hfault room
    refine ⟨start_eq_error hfault room, startEvents_eq_nil hfault, expansion_eq_error hfault room,
      ?_⟩
    intro plan hplan
    have hprepared := Job.prepare_eq_error hfault room hplan
    rw [hprepared]
    exact ⟨rfl, Job.prepareEvents_eq_nil hfault hplan⟩

/-- The largest number of digits that is accepted takes the same table as three digits less, and
one digit more takes none. -/
theorem accepted_counts_largest :
    (613566753 : UInt64) ≤ 613566756 ∧ entriesFor 613566756 = .ok 2147483647 ∧
      entriesFor 613566753 = .ok 2147483647 ∧
      groupsFor 613566756 = .ok ((2147483647 - 1) / termsPerGroup) ∧
      entriesFor 613566757 = .error (.tooManyDigits 613566757) ∧
      expansion none 613566757 = .error (.tooManyDigits 613566757) ∧
      Job.prepare none { digits := 613566757 } = .error (.tooManyDigits 613566757) := by
  have accepted : entriesFor 613566756 = .ok 2147483647 := by decide
  have fewer : (613566753 : UInt64) ≤ 613566756 := by decide
  obtain ⟨-, -, -, -, hsize, -⟩ := accepted_counts 613566756
  obtain ⟨-, hgroups, -, hfewer⟩ := hsize 2147483647 accepted
  obtain ⟨entries', haccepted', -, hsame⟩ := hfewer 613566753 (by decide) fewer
  obtain rfl : entries' = 2147483647 := hsame.mpr (by decide)
  obtain ⟨-, -, -, hmore, -, hrefused⟩ := accepted_counts 613566757
  have hfault : entriesFor 613566757 = .error (.tooManyDigits 613566757) :=
    hmore.mpr (by decide)
  obtain ⟨-, -, hexpansion, hjob⟩ := hrefused _ hfault none
  exact ⟨fewer, accepted, haccepted', hgroups, hfault, hexpansion, (hjob _ rfl).1⟩

end DecimalPi
