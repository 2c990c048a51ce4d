import DecimalPi.DigitStream.Basic
import Mathlib.Data.UInt

/-!
# The extent of an expansion in numbers

Sums and products of words that refuse to wrap have the exact result as their only value. The
size of a table therefore has a closed form in natural numbers, as has the condition under
which an expansion is refused.

## Main results

* `groupsFor_eq_ok_iff` and `entriesFor_eq_ok_iff`: groups and entries of a number of digits;
* `DigitStream.start_eq_ok_iff`: when a stream can be opened, and which one that is.
-/

namespace DecimalPi

namespace Word

/-- The only value of a sum is the exact one. -/
theorem add?_eq_some_iff {a b c : UInt64} :
    add? a b = some c ↔ c.toNat = a.toNat + b.toNat := by
  refine ⟨toNat_of_add?_eq_some, fun h => ?_⟩
  have hfits : a.toNat + b.toNat < UInt64.size := h ▸ c.toNat_lt_size
  rw [add?, if_pos hfits, Option.some_inj, ← UInt64.toNat_inj, UInt64.toNat_add, h]
  exact Nat.mod_eq_of_lt hfits

/-- The only value of a product is the exact one. -/
theorem mul?_eq_some_iff {a b c : UInt64} :
    mul? a b = some c ↔ c.toNat = a.toNat * b.toNat := by
  refine ⟨toNat_of_mul?_eq_some, fun h => ?_⟩
  have hfits : a.toNat * b.toNat < UInt64.size := h ▸ c.toNat_lt_size
  rw [mul?, if_pos hfits, Option.some_inj, ← UInt64.toNat_inj, UInt64.toNat_mul, h]
  exact Nat.mod_eq_of_lt hfits

end Word

/-- Groups take four digits each, the last one what is left. -/
theorem groupsFor_eq_ok_iff {count groups : UInt64} :
    groupsFor count = .ok groups ↔
      1 ≤ count.toNat ∧ groups.toNat = (count.toNat + 3) / 4 := by
  have hcount := count.toNat_lt_size
  have hzero : count = 0 ↔ count.toNat = 0 := by rw [← UInt64.toNat_inj]; rfl
  have hrest : count % digitsPerGroup = 0 ↔ count.toNat % 4 = 0 := by
    rw [← UInt64.toNat_inj, UInt64.toNat_mod]; rfl
  have hquotient : (count / digitsPerGroup).toNat = count.toNat / 4 := by
    rw [UInt64.toNat_div]; rfl
  have hnext : (count / digitsPerGroup + 1).toNat = count.toNat / 4 + 1 := by
    rw [UInt64.toNat_add, hquotient]
    exact Nat.mod_eq_of_lt (by simp only [UInt64.size] at hcount; simp; omega)
  unfold groupsFor
  split_ifs with h0 h4
  · rw [hzero] at h0
    simp only [false_iff]
    omega
  · rw [Except.ok.injEq, ← UInt64.toNat_inj, hquotient]
    rw [hzero] at h0
    rw [hrest] at h4
    omega
  · rw [Except.ok.injEq, ← UInt64.toNat_inj, hnext]
    rw [hzero] at h0
    rw [hrest] at h4
    omega

theorem exists_groupsFor {count : UInt64} (h : 1 ≤ count.toNat) :
    ∃ groups, groupsFor count = .ok groups := by
  have hcount := count.toNat_lt_size
  simp only [UInt64.size] at hcount
  exact ⟨UInt64.ofNat ((count.toNat + 3) / 4), groupsFor_eq_ok_iff.mpr ⟨h,
    UInt64.toNat_ofNat_of_lt' (show (count.toNat + 3) / 4 < 2 ^ 64 by omega)⟩⟩

/-- A table has fourteen entries for each group and one in front, and twice its size fits the
word that holds a remainder. -/
theorem tableSize?_eq_some_iff {groups entries : UInt64} :
    tableSize? groups = some entries ↔
      entries.toNat = 14 * groups.toNat + 1 ∧ 2 * entries.toNat ≤ 4294967295 := by
  have hlargest {doubled : UInt64} :
      doubled ≤ largestRemainder ↔ doubled.toNat ≤ 4294967295 := UInt64.le_iff_toNat_le
  simp only [tableSize?, bind, Option.bind_eq_some_iff, Word.mul?_eq_some_iff,
    Word.add?_eq_some_iff, Option.ite_none_right_eq_some, Option.some_inj]
  constructor
  · rintro ⟨terms, hterms, entries', hentries, doubled, hdoubled, hle, rfl⟩
    rw [hlargest] at hle
    rw [show termsPerGroup.toNat = 14 from rfl] at hterms
    rw [show (1 : UInt64).toNat = 1 from rfl] at hentries
    rw [show (2 : UInt64).toNat = 2 from rfl] at hdoubled
    omega
  · rintro ⟨hentries, hle⟩
    have hsize := entries.toNat_lt_size
    simp only [UInt64.size] at hsize
    have hword {number : ℕ} (h : number < 2 ^ 64) : (UInt64.ofNat number).toNat = number :=
      UInt64.toNat_ofNat_of_lt' h
    refine ⟨UInt64.ofNat (14 * groups.toNat), ?_, entries, ?_,
      UInt64.ofNat (2 * entries.toNat), ?_, ?_, rfl⟩
    · rw [hword (by omega), Nat.mul_comm]; rfl
    · rw [hword (by omega), hentries]; rfl
    · rw [hword (by omega), Nat.mul_comm]; rfl
    · rw [hlargest, hword (by omega)]; exact hle

/-- The entries of a table in terms of its groups. -/
theorem entriesFor_eq_ok_iff_groups {count entries : UInt64} :
    entriesFor count = .ok entries ↔
      ∃ groups, groupsFor count = .ok groups ∧
        entries.toNat = 14 * groups.toNat + 1 ∧ 2 * entries.toNat ≤ 4294967295 := by
  rw [entriesFor]
  cases hgroups : groupsFor count with
  | error fault => simp [bind, Except.bind]
  | ok groups =>
    simp only [bind, Except.bind, Except.ok.injEq, exists_eq_left']
    rw [← tableSize?_eq_some_iff]
    cases tableSize? groups <;> simp

/-- The entries of a table in terms of the digits, and the digits for which there is one. -/
theorem entriesFor_eq_ok_iff {count entries : UInt64} :
    entriesFor count = .ok entries ↔
      1 ≤ count.toNat ∧ count.toNat ≤ 613566756 ∧
        entries.toNat = 14 * ((count.toNat + 3) / 4) + 1 := by
  rw [entriesFor_eq_ok_iff_groups]
  constructor
  · rintro ⟨groups, hgroups, hentries, hle⟩
    have := groupsFor_eq_ok_iff.mp hgroups
    omega
  · rintro ⟨hpos, hle, hentries⟩
    obtain ⟨groups, hgroups⟩ := exists_groupsFor hpos
    have hnumber := (groupsFor_eq_ok_iff.mp hgroups).2
    exact ⟨groups, hgroups, by omega, by omega⟩

theorem exists_entriesFor {count : UInt64} (hpos : 1 ≤ count.toNat)
    (hle : count.toNat ≤ 613566756) : ∃ entries, entriesFor count = .ok entries :=
  ⟨UInt64.ofNat (14 * ((count.toNat + 3) / 4) + 1), entriesFor_eq_ok_iff.mpr ⟨hpos, hle,
    UInt64.toNat_ofNat_of_lt' (show 14 * ((count.toNat + 3) / 4) + 1 < 2 ^ 64 by omega)⟩⟩

/-- Beyond these numbers of digits the remainders do not fit. -/
theorem entriesFor_of_lt {count : UInt64} (h : 613566756 < count.toNat) :
    entriesFor count = .error (.tooManyDigits count) := by
  obtain ⟨groups, hgroups⟩ := exists_groupsFor (by omega : 1 ≤ count.toNat)
  have hnumber := (groupsFor_eq_ok_iff.mp hgroups).2
  have htable : tableSize? groups = none := by
    refine Option.eq_none_iff_forall_ne_some.mpr fun entries htable => ?_
    have := tableSize?_eq_some_iff.mp htable
    omega
  rw [entriesFor, hgroups]
  simp only [bind, Except.bind, htable]

/-- What can be wrong with a number of digits. -/
theorem eq_of_entriesFor_eq_error {count : UInt64} {fault : Fault}
    (h : entriesFor count = .error fault) :
    fault = .nonPositiveCount 0 ∨ fault = .tooManyDigits count := by
  rw [entriesFor] at h
  cases hgroups : groupsFor count with
  | error refusal =>
    rw [hgroups] at h
    obtain rfl : refusal = fault := Except.error.inj h
    rw [groupsFor] at hgroups
    split_ifs at hgroups
    exact .inl (Except.error.inj hgroups).symm
  | ok groups =>
    rw [hgroups] at h
    cases hsize : tableSize? groups with
    | none =>
      simp only [bind, Except.bind, hsize] at h
      exact .inr (Except.error.inj h).symm
    | some entries =>
      simp only [bind, Except.bind, hsize] at h
      contradiction

namespace DigitStream

/-- A stream is opened where its table fits and there is room for it, and then every term of
the table is alive. -/
theorem start_eq_ok_iff {room : Option UInt64} {count : UInt64} {stream : DigitStream} :
    start room count = .ok stream ↔
      ∃ entries, entriesFor count = .ok entries ∧ (∀ limit ∈ room, entries ≤ limit) ∧
        stream = seeded entries := by
  rw [start]
  cases entriesFor count with
  | error fault => simp [bind, Except.bind]
  | ok entries =>
    simp only [bind, Except.bind, Except.ok.injEq, exists_eq_left']
    cases room with
    | none => simp [eq_comm]
    | some limit =>
      simp only [Option.mem_some, forall_eq']
      split_ifs with h
      · simp [UInt64.not_le.mpr h]
      · simp [UInt64.not_lt.mp h, eq_comm]

/-- What can be wrong where no stream is opened. -/
theorem eq_of_start_eq_error {room : Option UInt64} {count : UInt64} {fault : Fault}
    (h : start room count = .error fault) :
    fault = .nonPositiveCount 0 ∨ fault = .tooManyDigits count ∨
      ∃ entries, fault = .noRoom entries := by
  rw [start] at h
  cases hentries : entriesFor count with
  | error refusal =>
    rw [hentries] at h
    obtain rfl : refusal = fault := Except.error.inj h
    rcases eq_of_entriesFor_eq_error hentries with rfl | rfl
    · exact .inl rfl
    · exact .inr (.inl rfl)
  | ok entries =>
    rw [hentries] at h
    cases room with
    | none => contradiction
    | some limit =>
      by_cases hroom : limit < entries
      · simp only [bind, Except.bind, if_pos hroom] at h
        exact .inr (.inr ⟨entries, (Except.error.inj h).symm⟩)
      · simp only [bind, Except.bind, if_neg hroom] at h
        contradiction

end DigitStream

end DecimalPi
