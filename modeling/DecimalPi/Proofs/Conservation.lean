import DecimalPi.Proofs.Words.Run

/-!
# Conservation over a run

Nothing that the table stands for is lost in a run: after any number of passes, the groups
written out, the carry, the live remainders and the abandoned remainders are together the
series that the table was seeded with, multiplied by ten thousand for each pass. The account is
exact. It is the conservation law of unbounded arithmetic, read off the words that the run
really leaves behind.

## Main results

* `DigitStream.run_conserves`: the conservation law for all accepted numbers of digits.
-/

namespace DecimalPi.DigitStream

open Series

/-- Conservation over a run. Where a number of digits is accepted and there is room for its
table, the groups and the carry after any number of passes, the live remainders and the blocks
of remainders abandoned by the passes before are together all that the new table stood for, with
no error term: a block counts ten thousand times for each pass since it was abandoned. -/
theorem run_conserves {room : Option UInt64} {count entries : UInt64}
    (accepted : entriesFor count = .ok entries) (granted : ∀ limit ∈ room, entries ≤ limit) :
    ∃ groups stream, groupsFor count = .ok groups ∧ start room count = .ok stream ∧
      ∀ passes ≤ groups.toNat, (stream.emitted passes).length = passes ∧
        10000 ^ passes * 2000 * partialSum (14 * groups.toNat) =
          10000 * spelled (stream.emitted passes) + (stream.pull passes).2.carry.toNat +
            worth (stream.pull passes).2.table.remainder 0 (14 * (groups.toNat - passes)) +
              ∑ pass ∈ Finset.range passes, 10000 ^ (passes - 1 - pass) *
                worth (stream.pull passes).2.table.remainder
                  (14 * (groups.toNat - pass - 1)) (14 * (groups.toNat - pass)) := by
  obtain ⟨groups, stream, hgroups, hstart, -, hopened⟩ := exists_opened accepted granted
  refine ⟨groups, stream, hgroups, hstart, ?_⟩
  intro passes hle
  refine ⟨hopened.length_emitted hle, ?_⟩
  -- The law of unbounded arithmetic, with each of its parts read off the words.
  have hconserves := (ExactStream.ready_seeded groups.toNat).conserves hle
  rw [ExactStream.worth_seeded, ← hopened.account_eq, ExactStream.abandoned,
    ← hopened.exact_eq, ← hopened.remainder_pull, account] at hconserves
  push_cast at hconserves
  rw [mul_assoc, hconserves, amplified]

/-- The last pass of three, for ten digits: every term has been abandoned. -/
theorem run_conserves_ten :
    entriesFor 10 = .ok 43 ∧ ∃ stream, start none 10 = .ok stream ∧
      10000 ^ 3 * 2000 * partialSum 42 =
        10000 * spelled (stream.emitted 3) + (stream.pull 3).2.carry.toNat +
          worth (stream.pull 3).2.table.remainder 0 0 +
            ∑ pass ∈ Finset.range 3, 10000 ^ (3 - 1 - pass) *
              worth (stream.pull 3).2.table.remainder
                (14 * (3 - pass - 1)) (14 * (3 - pass)) := by
  have accepted : entriesFor 10 = .ok 43 := by decide
  have granted : ∀ limit ∈ (none : Option UInt64), (43 : UInt64) ≤ limit := by simp
  obtain ⟨groups, stream, hgroups, hstart, hconserves⟩ := run_conserves accepted granted
  obtain rfl : groups = 3 := by
    have hthree : groupsFor 10 = .ok 3 := by decide
    exact Except.ok.inj (hgroups.symm.trans hthree)
  obtain ⟨-, hlast⟩ := hconserves 3 le_rfl
  exact ⟨accepted, stream, hstart, hlast⟩

end DecimalPi.DigitStream
