import DecimalPi.Proofs.Difference

/-!
# What passes the audit

The audit compares characters, but for the groups that an expansion can have it compares groups.
None of these is above ten thousand, which is the only one that takes five characters; and since
no block of the reference reads `1000`, already the first four of them are found out. So as long
as nothing is found, every group has taken the characters of its own block, and the next group
starts where the next block does.

## Main results

* `leading_mod_ne_thousand`: what there is to know of the reference for this;
* `digits_eq_block`: as long as nothing is found, each group is written with its block;
* `digits_eq_block_iff`: which is to be the number that the block spells;
* `audit_accepts_exactly_blocks`: so an audit accepts these numbers and nothing else.
-/

namespace DecimalPi

/-- Texts without a difference begin with the same characters. -/
theorem take_eq_take_of_firstDifference?_eq_none {position width : ℕ}
    {actual expected : List Char} (h : firstDifference? position actual expected = none)
    (hactual : width ≤ actual.length) (hexpected : width ≤ expected.length) :
    actual.take width = expected.take width := by
  induction width generalizing position actual expected with
  | zero => rw [List.take_zero, List.take_zero]
  | succ width ih =>
    obtain ⟨a, actual, rfl⟩ := List.exists_cons_of_length_pos (Nat.zero_lt_of_lt hactual)
    obtain ⟨e, expected, rfl⟩ := List.exists_cons_of_length_pos (Nat.zero_lt_of_lt hexpected)
    rw [firstDifference?] at h
    split_ifs at h with heq
    rw [List.take_succ_cons, List.take_succ_cons, heq,
      ih h (Nat.le_of_succ_le_succ hactual) (Nat.le_of_succ_le_succ hexpected)]

/-- No block of the reference is what a group of ten thousand begins with. -/
theorem leading_mod_ne_thousand : ∀ index < 200, leading (index + 1) % 10000 ≠ 1000 := by
  decide +kernel

/-- Numbers with the same four places differ in higher ones only. -/
theorem mod_eq_of_places_eq {number number' : ℕ} (h : places 4 number = places 4 number') :
    number % 10000 = number' % 10000 := by
  have hread := congrArg (fun characters => Nat.ofDigitChars 10 characters 0) h
  simp only [ofDigitChars_places] at hread
  exact hread

/-- A group that is not above ten thousand and begins with a block of the reference is written
with that block. -/
theorem Group.digits_eq_places_leading {group : Group} {index : ℕ}
    (hbounded : group.value.toNat ≤ 10000) (hindex : index < 200)
    (h : group.digits.take 4 = places 4 (leading (index + 1))) :
    group.digits = places 4 (leading (index + 1)) := by
  rcases Nat.lt_or_eq_of_le hbounded with hlt | heq
  · -- a group of four characters has no others
    rw [← h, digits_eq_places hlt, List.take_of_length_le (length_places _ _).le]
  · have hthousand : group.digits.take 4 = places 4 1000 := by
      rw [digits_of_eq_tenThousand heq]
      decide
    exact absurd (mod_eq_of_places_eq (h.symm.trans hthousand)) (leading_mod_ne_thousand _ hindex)

section Passed

variable {groups : List Group} (hbounded : ∀ group ∈ groups, group.value.toNat ≤ 10000)
  (hpassed : firstDifference? 0 (Group.concat groups) reference = none)

include hbounded hpassed

/-- If the groups before it take the blocks before its own, so does the next group. -/
theorem digits_eq_block_of_aligned {index : ℕ} (hlt : index < groups.length) (hindex : index < 200)
    (haligned : Group.concat (groups.take index) = reference.take (4 * index)) :
    groups[index].digits = (reference.drop (4 * index)).take 4 := by
  have hconcat : Group.concat groups = reference.take (4 * index) ++
      (groups[index].digits ++ Group.concat (groups.drop (index + 1))) := by
    rw [← haligned, ← Group.concat_cons, ← Group.concat_append, List.getElem_cons_drop,
      List.take_append_drop]
  rw [hconcat] at hpassed
  nth_rewrite 2 [← List.take_append_drop (4 * index) reference] at hpassed
  rw [firstDifference?_append] at hpassed
  have hfour := groups[index].four_le_length_digits
  have hrest : 4 ≤ (reference.drop (4 * index)).length := by
    rw [List.length_drop, length_reference]
    omega
  have hblock := take_eq_take_of_firstDifference?_eq_none hpassed
    (by rw [List.length_append]; omega) hrest
  rw [List.take_append_of_le_length hfour, reference_block hindex] at hblock
  rw [reference_block hindex]
  exact Group.digits_eq_places_leading (hbounded _ (List.getElem_mem hlt)) hindex hblock

/-- Every group is written with the block in its place. -/
theorem digits_eq_block {index : ℕ} (hlt : index < groups.length) (hindex : index < 200) :
    groups[index].digits = (reference.drop (4 * index)).take 4 := by
  -- the groups before it are aligned because each of them is written with its own block
  induction index using Nat.strong_induction_on with
  | _ index ih =>
    refine digits_eq_block_of_aligned hbounded hpassed hlt hindex ?_
    exact concat_take_eq_take hlt.le fun before hbefore hless => ih before hless hbefore (by omega)

end Passed

/-- The groups that pass are those that are written with the blocks. -/
theorem audit_eq_ok_iff_digits {groups : List Group}
    (hbounded : ∀ group ∈ groups, group.value.toNat ≤ 10000) (last : Group) :
    audit (groups ++ [last]) = .ok () ↔
      ∀ index (hlt : index < groups.length), index < 200 →
        groups[index].digits = (reference.drop (4 * index)).take 4 := by
  constructor
  · intro hpassed index hlt hindex
    rw [audit_eq_ok_iff, trustedDigits_concat] at hpassed
    refine digits_eq_block hbounded ?_ hlt hindex
    rw [Option.eq_none_iff_forall_ne_some]
    intro difference hdifference
    exact hpassed ⟨difference, Difference.isFirst_iff_firstDifference?.mpr hdifference⟩
  · intro hblocks
    refine audit_eq_ok fun index hlt hcompared => ?_
    rw [List.length_append, List.length_singleton, Nat.add_sub_cancel, Nat.lt_min] at hcompared
    rw [List.getElem_append_left hcompared.1]
    exact hblocks index hcompared.1 hcompared.2

/-- A group is written with a block exactly when it is the number that the block spells. -/
theorem digits_eq_block_iff {group : Group} {index : ℕ} (hindex : index < 200) :
    group.digits = (reference.drop (4 * index)).take 4 ↔
      group.value.toNat = Nat.ofDigitChars 10 ((reference.drop (4 * index)).take 4) 0 := by
  constructor
  · intro hdigits
    rw [← hdigits, Group.ofDigitChars_digits]
  · intro hvalue
    rw [reference_block hindex, ofDigitChars_places] at hvalue
    have hlt : group.value.toNat < 10000 := by
      rw [hvalue]
      exact Nat.mod_lt _ (by norm_num)
    rw [Group.digits_eq_places hlt, hvalue, reference_block hindex]
    exact places_mod le_rfl _

/-- What passes the audit, for groups up to ten thousand: all the groups in front of the last one,
as far as there are blocks of the reference for them, are the numbers that these spell. A group of
ten thousand among them, which is the one with five characters, is always found out; and where
nothing is, the characters of the groups end where their blocks end. -/
theorem audit_accepts_exactly_blocks (groups : List Group)
    (bounded : ∀ group ∈ groups, group.value.toNat ≤ 10000) (last : Group) :
    (audit (groups ++ [last]) = .ok () ↔
        ∀ index (hindex : index < groups.length), index < min groups.length 200 →
          groups[index].value.toNat =
            Nat.ofDigitChars 10 ((reference.drop (4 * index)).take 4) 0) ∧
      (∀ index (hindex : index < groups.length), index < min groups.length 200 →
        groups[index].value.toNat = 10000 → groups[index].digits.length = 5 ∧
          ∃ position expected actual,
            audit (groups ++ [last]) = .error (.wrongDigit position expected actual)) ∧
      (audit (groups ++ [last]) = .ok () → ∀ count ≤ min groups.length 200,
        Group.concat (groups.take count) = reference.take (4 * count)) := by
  have hpasses := audit_eq_ok_iff_digits bounded last
  refine ⟨?_, ?_, ?_⟩
  · rw [hpasses]
    constructor
    · intro hblocks index hindex hcompared
      have hlt := (Nat.lt_min.mp hcompared).2
      exact (digits_eq_block_iff hlt).mp (hblocks index hindex hlt)
    · intro hvalues index hindex hlt
      exact (digits_eq_block_iff hlt).mpr (hvalues index hindex (Nat.lt_min.mpr ⟨hindex, hlt⟩))
  · intro index hindex hcompared hwide
    have hlt := (Nat.lt_min.mp hcompared).2
    have hdigits := Group.digits_of_eq_tenThousand hwide
    refine ⟨by rw [hdigits]; rfl, ?_⟩
    cases haudit : audit (groups ++ [last]) with
    | ok _ =>
      -- a group that passes has the four characters of a block
      have hlength := length_places 4 (leading (index + 1))
      rw [← reference_block hlt, ← hpasses.mp haudit index hindex hlt, hdigits] at hlength
      contradiction
    | error fault =>
      obtain ⟨difference, -, rfl⟩ := audit_eq_error_iff.mp haudit
      exact ⟨_, _, _, rfl⟩
  · intro hpassed count hcount
    refine concat_take_eq_take (hcount.trans (Nat.min_le_left _ _)) fun index hindex hlt => ?_
    exact hpasses.mp hpassed index hindex (hlt.trans_le (hcount.trans (Nat.min_le_right _ _)))

/-- Two groups that pass, whatever the last one is, and a group of ten thousand in place of the
second one. -/
theorem audit_accepts_exactly_blocks_two :
    (∀ group ∈ [(⟨3141⟩ : Group), ⟨5926⟩], group.value.toNat ≤ 10000) ∧
      audit ([⟨3141⟩, ⟨5926⟩] ++ [⟨31415⟩]) = .ok () ∧
      Group.concat [⟨3141⟩, ⟨5926⟩] = reference.take 8 ∧
      (∀ group ∈ [(⟨3141⟩ : Group), ⟨10000⟩], group.value.toNat ≤ 10000) ∧
      (Group.digits ⟨10000⟩).length = 5 ∧ ∃ position expected actual,
        audit ([⟨3141⟩, ⟨10000⟩] ++ [⟨5358⟩]) = .error (.wrongDigit position expected actual) := by
  have hbounded : ∀ group ∈ [(⟨3141⟩ : Group), ⟨5926⟩], group.value.toNat ≤ 10000 := by decide
  have hwide : ∀ group ∈ [(⟨3141⟩ : Group), ⟨10000⟩], group.value.toNat ≤ 10000 := by decide
  have hpassed : audit ([⟨3141⟩, ⟨5926⟩] ++ [⟨31415⟩]) = .ok () := by
    refine (audit_accepts_exactly_blocks [⟨3141⟩, ⟨5926⟩] hbounded ⟨31415⟩).1.mpr ?_
    decide +kernel
  obtain ⟨-, -, haligned⟩ := audit_accepts_exactly_blocks [⟨3141⟩, ⟨5926⟩] hbounded ⟨31415⟩
  obtain ⟨-, hfound, -⟩ := audit_accepts_exactly_blocks [⟨3141⟩, ⟨10000⟩] hwide ⟨5358⟩
  exact ⟨hbounded, hpassed, haligned hpassed 2 (by decide), hwide,
    hfound 1 (by decide) (by decide) (by decide)⟩

/-- Larger groups can pass without being the numbers of any blocks. -/
example : audit ([⟨31415⟩, ⟨9265⟩] ++ [⟨0⟩]) = .ok () := by decide +kernel

end DecimalPi
