import DecimalPi.Proofs.Overflow
import DecimalPi.Proofs.Words.Frame
import DecimalPi.Proofs.Words.Pull

/-!
# The state of a stream in the course of a run

After any number of passes the table of an opened stream has entries of three kinds. The unused one
in front is never touched and still holds the seed. Those above the cursor were abandoned, fourteen
by each pass, and hold what the pass that used them last has written. The others are live, and the
next pass will go over them. Before the first pass every entry is the seed; from then on the entry
of every term `i`, whether live or abandoned, is a remainder of a division by `2i - 1`.

## Main definitions

* `DigitStream.WrittenBy`: what a pass of a run writes at a term;
* `DigitStream.StateAfter`: what is known of a stream after some of its passes.

## Main results

* `Opened.getElem?_pull_zero`: the unused entry;
* `Opened.getElem?_pull_of_writtenBy`: an abandoned entry keeps what was written there last;
* `DigitStream.run_state`: all of this for every state of every run.
-/

namespace DecimalPi.DigitStream

/-- The pass `pass` of a run, the first one counted as zero, writes `entry` at the term `term`. -/
def WrittenBy (start : DigitStream) (pass term : ℕ) (entry : UInt32) : Prop :=
  ∃ visit ∈ (start.pull pass).2.table.visits (start.pull pass).2.cursor.toNat 0,
    visit.index = term ∧ visit.rest = entry

/-- What is known of the stream that is left after `passes` passes of a stream `start` of `groups`
groups. -/
structure StateAfter (groups passes : ℕ) (start stream : DigitStream) : Prop where
  size_eq : stream.table.size = 14 * groups + 1
  cursor_eq : stream.cursor.toNat = 14 * (groups - passes)
  exhausted_iff : stream.cursor = 0 ↔ passes = groups
  carry_lt : stream.carry.toNat < 10000
  unused_eq : stream.table[0]? = some 2000
  -- the bound on entries has one form before the first pass and another one after it
  fresh : passes = 0 → ∀ term ≤ 14 * groups, stream.table[term]? = some 2000
  remainder_le : 1 ≤ passes → ∀ term, 1 ≤ term → term ≤ 14 * groups →
    stream.table.remainder term ≤ 2 * term - 2
  first_eq : 1 ≤ passes → stream.table[1]? = some 0
  remainder_le_max : ∀ term ≤ 14 * groups,
    stream.table.remainder term ≤ max 2000 (2 * (14 * groups + 1))
  -- the fourteen entries that each pass was the last to use
  abandoned : ∀ pass < passes, ∀ term, 14 * (groups - pass - 1) < term →
    term ≤ 14 * (groups - pass) → ∃ entry, WrittenBy start pass term entry ∧
      stream.table[term]? = some entry ∧
        ∀ between, pass < between → between ≤ passes →
          (start.pull between).2.table[term]? = some entry

namespace Opened

variable {groups passes pass term : ℕ} {stream : DigitStream} (h : Opened groups stream)

include h

theorem getElem?_fresh (hterm : term ≤ 14 * groups) : stream.table[term]? = some 2000 := by
  have htable : stream.table.map UInt32.toNat = Array.replicate (14 * groups + 1) 2000 :=
    congrArg ExactStream.table h.exact_eq
  have hentry : (stream.table.map UInt32.toNat)[term]? = some 2000 := by
    rw [htable, Array.getElem?_replicate, if_pos (Nat.lt_succ_of_le hterm)]
  rw [Array.getElem?_map, Option.map_eq_some_iff] at hentry
  obtain ⟨entry, hsome, hvalue⟩ := hentry
  obtain rfl : entry = 2000 := UInt32.toNat_inj.mp hvalue
  exact hsome

theorem getElem?_pull_zero (passes : ℕ) : (stream.pull passes).2.table[0]? = some 2000 := by
  rw [h.inRange.getElem?_pull (.inl rfl), h.getElem?_fresh (Nat.zero_le _)]

/-- A pass writes at each of its terms. -/
theorem exists_writtenBy (hpass : pass < groups) (hpos : 1 ≤ term)
    (hterm : term ≤ 14 * (groups - pass)) : ∃ entry, WrittenBy stream pass term entry := by
  rw [← h.cursor_pull hpass.le] at hterm
  obtain ⟨visit, hvisit, hindex⟩ := Remainders.exists_mem_visits hpos hterm 0 _
  exact ⟨visit.rest, visit, hvisit, hindex, rfl⟩

/-- An abandoned entry keeps what the pass that abandoned it has written. -/
theorem getElem?_pull_of_writtenBy {entry : UInt32} (hpass : pass < passes) (hle : passes ≤ groups)
    (habandoned : 14 * (groups - pass - 1) < term) (hentry : WrittenBy stream pass term entry) :
    (stream.pull passes).2.table[term]? = some entry := by
  obtain ⟨visit, hvisit, rfl, rfl⟩ := hentry
  obtain ⟨later, rfl⟩ : ∃ later, passes = pass + 1 + later := ⟨passes - (pass + 1), by omega⟩
  have hcursor := h.cursor_pull (by omega : pass ≤ groups)
  have hbelow : (stream.pull pass).2.cursor.toNat < (stream.pull pass).2.table.size := by
    rw [hcursor, h.size_pull (by omega)]
    omega
  -- the pass writes the entry, and later passes stay below it
  have hwritten : (stream.pull (pass + 1)).2.table[visit.index]? = some visit.rest := by
    have hlive : (stream.pull pass).2.cursor ≠ 0 := by
      rw [← UInt64.toNat_inj.ne, hcursor]
      exact Nat.ne_of_gt (show 0 < _ by omega)
    rw [pull_add, pull_succ, next?_of_ne_zero hlive]
    exact Remainders.getElem?_divideDown_of_mem_visits hbelow hvisit
  have hrange := h.inRange.pull (pass + 1)
  have habove : (stream.pull (pass + 1)).2.cursor.toNat < visit.index := by
    rw [h.cursor_pull (by omega)]
    omega
  rw [pull_add, hrange.getElem?_pull (.inr habove), hwritten]

theorem stateAfter (hle : passes ≤ groups) :
    StateAfter groups passes stream (stream.pull passes).2 where
  size_eq := h.size_pull hle
  cursor_eq := h.cursor_pull hle
  exhausted_iff := by
    rw [← UInt64.toNat_inj, h.cursor_pull hle]
    exact ⟨fun hzero => by simp at hzero; omega, fun hend => by simp [hend]⟩
  carry_lt := (h.inRange.pull passes).carry_lt
  unused_eq := h.getElem?_pull_zero passes
  fresh := by
    rintro rfl term hterm
    exact h.getElem?_fresh hterm
  remainder_le := by
    intro hpos term hfirst hlast
    rw [h.remainder_pull]
    exact h.ready.remainder_after_le hpos hle hfirst hlast
  first_eq := by
    intro hpos
    have hsize := h.size_pull hle
    have hfirst : 1 < (stream.pull passes).2.table.size := by omega
    have hzero := h.ready.remainder_after_le hpos hle le_rfl (by omega)
    rw [← h.remainder_pull, Remainders.remainder, Array.getD_eq_getD_getElem?,
      Array.getElem?_eq_getElem hfirst] at hzero
    rw [Array.getElem?_eq_getElem hfirst, Option.some_inj]
    exact UInt32.toNat_inj.mp (Nat.le_zero.mp hzero)
  remainder_le_max := by
    intro term hlast
    rcases Nat.eq_zero_or_pos term with rfl | hfirst
    · rw [Remainders.remainder, Array.getD_eq_getD_getElem?, h.getElem?_pull_zero]
      exact le_max_left _ _
    · exact h.remainder_pull_le hle hfirst hlast
  abandoned := by
    intro pass hpass term habandoned hterm
    obtain ⟨entry, hentry⟩ := h.exists_writtenBy (hpass.trans_le hle) (by omega) hterm
    refine ⟨entry, hentry, h.getElem?_pull_of_writtenBy hpass hle habandoned hentry, ?_⟩
    intro between hafter hbetween
    exact h.getElem?_pull_of_writtenBy hafter (hbetween.trans hle) habandoned hentry

end Opened

/-- The state of a stream in the course of a run. Where a number of digits is accepted and there is
room for its table, what is known of a stream after some of its passes holds after every number of
them up to that of its groups; and then the stream is exhausted and does not change any more. -/
theorem run_state {room : Option UInt64} {count entries : UInt64}
    (accepted : entriesFor count = .ok entries) (granted : ∀ limit ∈ room, entries ≤ limit) :
    ∃ groups start, groupsFor count = .ok groups ∧ DigitStream.start room count = .ok start ∧
      entries.toNat = 14 * groups.toNat + 1 ∧
      (∀ passes ≤ groups.toNat,
        StateAfter groups.toNat passes start (start.pull passes).2) ∧
      ∀ passes, groups.toNat ≤ passes →
        (start.pull passes).2 = (start.pull groups.toNat).2 := by
  obtain ⟨groups, start, hgroups, hstart, hentries, hopened⟩ := exists_opened accepted granted
  refine ⟨groups, start, hgroups, hstart, hentries, ?_, ?_⟩
  · intro passes hle
    exact hopened.stateAfter hle
  · intro passes hle
    rw [← hopened.inRange.pull_min, hopened.remaining_eq, Nat.min_eq_right hle]

/-- Two of the three passes for ten digits: one block of terms is live and two are abandoned, and
the table is the largest one that there is room for. -/
theorem run_state_ten :
    entriesFor 10 = .ok 43 ∧ (∀ limit ∈ some (43 : UInt64), (43 : UInt64) ≤ limit) ∧
      ∃ start, DigitStream.start (some 43) 10 = .ok start ∧
        StateAfter 3 2 start (start.pull 2).2 ∧ (start.pull 2).2.cursor.toNat = 14 ∧
        (start.pull 2).2.table[1]? = some 0 ∧ (start.pull 2).2.table.remainder 40 ≤ 78 ∧
        (∃ entry, WrittenBy start 0 40 entry ∧ (start.pull 2).2.table[40]? = some entry) ∧
        (start.pull 5).2 = (start.pull 3).2 := by
  have accepted : entriesFor 10 = .ok 43 := by decide
  have granted : ∀ limit ∈ some (43 : UInt64), (43 : UInt64) ≤ limit := by simp
  obtain ⟨groups, start, hgroups, hstart, -, hstate, hend⟩ := run_state accepted granted
  obtain rfl : groups = 3 := by
    have hthree : groupsFor 10 = .ok 3 := by decide
    exact Except.ok.inj (hgroups.symm.trans hthree)
  have htwo : StateAfter 3 2 start (start.pull 2).2 := hstate 2 (by decide)
  obtain ⟨entry, hwritten, hentry, -⟩ := htwo.abandoned 0 (by decide) 40 (by decide) (by decide)
  exact ⟨accepted, granted, start, hstart, htwo, htwo.cursor_eq, htwo.first_eq (by decide),
    htwo.remainder_le (by decide) 40 (by decide) (by decide), ⟨entry, hwritten, hentry⟩,
    hend 5 (by decide)⟩

end DecimalPi.DigitStream
