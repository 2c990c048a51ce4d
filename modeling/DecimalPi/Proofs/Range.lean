import DecimalPi.Proofs.Reference
import DecimalPi.Proofs.Words.Pull

/-!
# The range of groups

Nothing in an extraction keeps a group below ten thousand. What does is the table: from the first
pass on the remainder of every term `i` is at most `2i - 2`, and entries like that are worth less
than two. So a later pass yields less than twenty thousand, and adds at most one to the carry
that the pass before it has left. Only the first pass starts from larger entries, and it is known
what comes out of it.

A group of ten thousand is thus the only one that takes five characters, and it comes about only
where a carry of `9999` is one too few.

## Main definitions

* `DigitStream.total`: what the next pass yields.

## Main results

* `ExactStream.Ready.yield_after_lt`: later passes yield less than twenty thousand;
* `Opened.toNat_first_group`: the first group is `3141` for every size of the table;
* `Opened.group_range`: no group is above ten thousand;
* `DigitStream.groups_in_range`: the range of every group of every expansion.
-/

namespace DecimalPi

open Series

/-- After the first pass the live entries are worth less than two. -/
theorem ExactStream.Ready.yield_after_lt {groups passes : ℕ} {stream : ExactStream}
    (h : Ready groups stream) (hpos : 1 ≤ passes) (hlt : passes < groups) :
    (stream.after passes).yield < 20000 := by
  have hconserves := h.yield_conserves hlt
  have hnonneg := worth_nonneg (remainder (stream.after (passes + 1)).table) 0
    (14 * (groups - passes))
  have hworth : worth (remainder (stream.after passes).table) 0 (14 * (groups - passes)) ≤
      2 * (scale 0 - scale (14 * (groups - passes))) :=
    worth_le_of_le (Nat.zero_le _) fun term hfirst hlast =>
      h.remainder_after_le hpos hlt.le hfirst (by omega)
  have hscale := scale_pos (14 * (groups - passes))
  rw [show scale 0 = 1 from rfl] at hworth
  have hyield : ((stream.after passes).yield : ℚ) < 20000 := by linarith
  exact_mod_cast hyield

/-! ## What passes yield -/

/-- Below the first group the series continues with `5926`. -/
theorem leading_two : leading 2 = 31415926 := by
  decide +kernel

/-- The series at the scale of one group. -/
theorem target_one_bounds {last : ℕ} (hlast : 2828 ≤ last) :
    31415926 < target 1 last ∧ target 1 last < 31415927 := by
  obtain ⟨hlower, hupper⟩ := target_bounds (by norm_num : 2 ≤ 200) hlast
  have hscale : target 2 last = 10000 * target 1 last := by
    rw [target_eq, target_eq]
    ring
  rw [hscale, leading_two] at hlower hupper
  push_cast at hlower hupper
  constructor <;> linarith

namespace DigitStream

/-- What the next pass yields: the whole number that makes a group and a carry. -/
def total (stream : DigitStream) : ℕ := (stream.table.pass stream.cursor).1.toNat

namespace Opened

variable {groups passes index : ℕ} {stream : DigitStream} (h : Opened groups stream)

include h

theorem total_pull (passes : ℕ) :
    (stream.pull passes).2.total = (stream.exact.after passes).yield := by
  rw [total, (h.inRange.pull passes).fst_pass, h.exact_pull]

theorem total_pull_lt (hpos : 1 ≤ passes) (hlt : passes < groups) :
    (stream.pull passes).2.total < 20000 := by
  rw [h.total_pull]
  exact h.ready.yield_after_lt hpos hlt

/-- A group is the carry before its pass and what the pass adds to it. -/
theorem toNat_getElem_groups (hindex : index < stream.groups.length) :
    stream.groups[index].value.toNat =
      (stream.pull index).2.carry.toNat + (stream.pull index).2.total / 10000 := by
  have hlt := hindex.trans_eq h.length_groups
  have hwords := h.emitted_succ hindex
  rw [h.emitted_eq, h.emitted_eq, ExactStream.emitted_succ (h.ready.cursor_ne_zero hlt)] at hwords
  have hgroup := List.singleton_inj.mp (List.append_cancel_left hwords)
  rw [← hgroup, h.carry_pull, h.total_pull]

/-- However few terms a table has, its first pass yields enough of them. -/
theorem toNat_first_group (hindex : 0 < stream.groups.length) :
    stream.groups[0].value.toNat = 3141 := by
  have hpos := hindex.trans_eq h.length_groups
  obtain ⟨last, hlast, hknown⟩ : ∃ last, 14 * groups ≤ last ∧ 2828 ≤ last :=
    ⟨14 * groups + 2828, by omega, by omega⟩
  obtain ⟨hlower, hupper⟩ := target_one_bounds hknown
  have haccount := h.account_le_target hpos hlast
  have htarget := h.target_lt_account_add_thousand le_rfl hpos hlast
  have hfrom : 31415926 < stream.account 1 + 1000 := by
    have : (31415926 : ℚ) < stream.account 1 + 1000 := by linarith
    exact_mod_cast this
  have hto : stream.account 1 < 31415927 := by
    have : (stream.account 1 : ℚ) < 31415927 := by linarith
    exact_mod_cast this
  -- the account of one pass is its group, followed by the carry
  have hcarry := h.carry_pull_lt le_rfl hpos
  have hspelled : spelled (stream.emitted 1) = stream.groups[0].value.toNat := by
    rw [h.emitted_succ hindex, spelled_concat]
    simp [emitted, Group.numbers]
  rw [account, hspelled] at hfrom hto
  omega

/-- No group is above ten thousand, and only a carry of `9999` can reach that. -/
theorem group_range (hindex : index < stream.groups.length) :
    stream.groups[index].value.toNat ≤ 10000 ∧
      (stream.groups[index].value.toNat = 10000 ↔
        (stream.pull index).2.carry.toNat = 9999 ∧ 10000 ≤ (stream.pull index).2.total) := by
  have hgroup := h.toNat_getElem_groups hindex
  have hlt := hindex.trans_eq h.length_groups
  rcases Nat.eq_zero_or_pos index with rfl | hpos
  · -- the first pass may yield much, but there is no carry before it
    have hfirst := h.toNat_first_group hindex
    omega
  · have hcarry := h.carry_pull_lt hpos hlt.le
    have htotal := h.total_pull_lt hpos hlt
    omega

theorem mem_groups_le {group : Group} (hgroup : group ∈ stream.groups) :
    group.value.toNat ≤ 10000 := by
  obtain ⟨index, hindex, rfl⟩ := List.getElem_of_mem hgroup
  exact (h.group_range hindex).1

end Opened

/-- The range of groups. Where a number of digits is accepted and there is room for its table, the
first group is `3141`, and every later pass yields less than twenty thousand. No group is above
ten thousand; one that reaches it comes from a carry of `9999` and a pass that yields ten thousand
or more, and is written with five characters. All others are written with four, and the whole
expansion takes as many characters as that makes. -/
theorem groups_in_range {room : Option UInt64} {count entries : UInt64}
    (accepted : entriesFor count = .ok entries) (granted : ∀ limit ∈ room, entries ≤ limit) :
    ∃ groups stream, groupsFor count = .ok groups ∧ start room count = .ok stream ∧
      stream.groups.length = groups.toNat ∧ stream.groups.head? = some ⟨3141⟩ ∧
      (∀ passes, 1 ≤ passes → passes < groups.toNat → (stream.pull passes).2.total < 20000) ∧
      (∀ index (hindex : index < stream.groups.length),
        stream.groups[index].value.toNat =
            (stream.pull index).2.carry.toNat + (stream.pull index).2.total / 10000 ∧
          stream.groups[index].value.toNat ≤ 10000 ∧
          (stream.groups[index].value.toNat = 10000 ↔
            (stream.pull index).2.carry.toNat = 9999 ∧
              10000 ≤ (stream.pull index).2.total) ∧
          (stream.groups[index].value.toNat ≠ 10000 →
            stream.groups[index].value.toNat ≤ 9999 ∧ stream.groups[index].digits.length = 4) ∧
          (stream.groups[index].value.toNat = 10000 →
            stream.groups[index].digits = ['1', '0', '0', '0', '0'])) ∧
      ∃ digits, expansion room count = .ok digits ∧
        digits.length = 4 * groups.toNat +
          stream.groups.countP fun group => group.value.toNat = 10000 := by
  obtain ⟨groups, stream, hgroups, hstart, -, hopened⟩ := exists_opened accepted granted
  refine ⟨groups, stream, hgroups, hstart, hopened.length_groups, ?_, ?_, ?_, ?_⟩
  · have hindex : 0 < stream.groups.length := hopened.pos.trans_eq hopened.length_groups.symm
    have hfirst : stream.groups[0] = ⟨3141⟩ := by
      rw [Group.mk.injEq]
      exact UInt64.toNat_inj.mp (hopened.toNat_first_group hindex)
    rw [List.head?_eq_getElem?, List.getElem?_eq_getElem hindex, hfirst]
  · intro passes hpos hlt
    exact hopened.total_pull_lt hpos hlt
  · intro index hindex
    obtain ⟨hle, hreached⟩ := hopened.group_range hindex
    refine ⟨hopened.toNat_getElem_groups hindex, hle, hreached, ?_, Group.digits_of_eq_tenThousand⟩
    intro hne
    refine ⟨by omega, ?_⟩
    rw [Group.length_digits hle, if_neg hne]
  · refine ⟨Group.concat stream.groups, by rw [expansion, hstart]; rfl, ?_⟩
    rw [Group.length_concat fun group => hopened.mem_groups_le, hopened.length_groups]

/-- Ten digits: the second of three groups is `5926`, and the expansion takes twelve characters. -/
theorem groups_in_range_ten :
    entriesFor 10 = .ok 43 ∧ start none 10 = .ok (seeded 43) ∧
      (seeded 43).groups.head? = some ⟨3141⟩ ∧ ((seeded 43).pull 2).2.total < 20000 ∧
      ∃ hindex : 1 < (seeded 43).groups.length,
        (seeded 43).groups[1] = ⟨5926⟩ ∧ (seeded 43).groups[1].value.toNat ≠ 10000 ∧
          (seeded 43).groups[1].value.toNat ≤ 9999 ∧
          (seeded 43).groups[1].digits.length = 4 ∧
          ∃ digits, expansion none 10 = .ok digits ∧ digits.length = 12 := by
  have accepted : entriesFor 10 = .ok 43 := by decide
  have granted : ∀ limit ∈ (none : Option UInt64), (43 : UInt64) ≤ limit := by simp
  have hopen : start none 10 = .ok (seeded 43) := by decide +kernel
  have hnone : ((seeded 43).groups.countP fun group => group.value.toNat = 10000) = 0 := by
    decide +kernel
  obtain ⟨groups, stream, hgroups, hstart, hlength, hfirst, htotal, hgroup, digits, hdigits,
    hcharacters⟩ := groups_in_range accepted granted
  obtain rfl : groups = 3 := by
    have hthree : groupsFor 10 = .ok 3 := by decide
    exact Except.ok.inj (hgroups.symm.trans hthree)
  obtain rfl : stream = seeded 43 := Except.ok.inj (hstart.symm.trans hopen)
  have hindex : 1 < (seeded 43).groups.length := by rw [hlength]; decide
  have hsecond : (seeded 43).groups[1]? = some ⟨5926⟩ := by decide +kernel
  rw [List.getElem?_eq_getElem hindex, Option.some_inj] at hsecond
  have hsmall : (seeded 43).groups[1].value.toNat ≠ 10000 := by rw [hsecond]; decide
  obtain ⟨-, -, -, hfour, -⟩ := hgroup 1 hindex
  rw [hnone] at hcharacters
  exact ⟨accepted, hopen, hfirst, htotal 2 (by decide) (by decide), hindex, hsecond, hsmall,
    (hfour hsmall).1, (hfour hsmall).2, digits, hdigits, hcharacters⟩

end DigitStream

end DecimalPi
