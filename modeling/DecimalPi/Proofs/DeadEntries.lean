import DecimalPi.Proofs.Words.Frame

/-!
# Abandoned entries are dead

The terms that a stream has given up keep their entries in its table, and so does the unused index
in front of the first term. None of them has any influence on what the stream yields: two streams
with the same cursor, the same carry and the same live entries cannot be told apart by emissions,
whatever else is in their tables and however long these are. As the live terms become fewer, the
entries of those that are given up on the way stay the same in both.

This holds of all streams that are in the range of their words, whether or not a run leads to them.

## Main definitions

* `DigitStream.AliveAlike`: streams that differ at most in entries that are not looked at;
* `DigitStream.EmissionFits`: no operation of the next emission leaves its word.

## Main results

* `AliveAlike.next?` and `AliveAlike.pull`: one emission, and any number of them;
* `InRange.emissionFits`: there is no overflow, whatever the entries are;
* `DigitStream.abandoned_entries_dead`: what abandoned entries cannot change, and what does not
  change them.
-/

namespace DecimalPi.DigitStream

/-- Two streams at the same place and with the same carry, whose tables have the same entries at
the terms up to `last`. All live terms are among these. -/
structure AliveAlike (last : ℕ) (stream stream' : DigitStream) : Prop where
  cursor_eq : stream.cursor = stream'.cursor
  carry_eq : stream.carry = stream'.carry
  cursor_le : stream.cursor.toNat ≤ last
  -- the tables may have different sizes, but both have entries for these terms
  last_lt : last < stream.table.size
  last_lt' : last < stream'.table.size
  agree : stream.table.AgreeUpTo last stream'.table

/-- No operation of the next emission leaves its word, and no entry is looked up outside the
table. -/
structure EmissionFits (stream : DigitStream) : Prop where
  index_mem : ∀ visit ∈ stream.table.visits stream.cursor.toNat 0,
    1 ≤ visit.index ∧ visit.index < stream.table.size
  -- an entry can be as large as its word allows
  visit_fits : ∀ visit ∈ stream.table.visits stream.cursor.toNat 0,
    visit.Fits (2 * 10000 * (2 ^ 32 - 1))
  group_lt : stream.carry.toNat + (stream.table.pass stream.cursor).1.toNat / 10000 < 2 ^ 64
  le_cursor : stream.cursor ≠ 0 → 14 ≤ stream.cursor.toNat

theorem InRange.emissionFits {stream : DigitStream} (h : InRange stream)
    (hsize : stream.cursor.toNat < stream.table.size) : EmissionFits stream where
  index_mem := fun visit hvisit => by
    have hmem := Remainders.mem_range_of_mem_visits hvisit
    omega
  visit_fits := fun _ hvisit => Remainders.fits_of_mem_pass h.cursor_lt hvisit
  group_lt := h.carry_add_lt
  le_cursor := h.le_cursor

namespace AliveAlike

variable {last : ℕ} {stream stream' : DigitStream} (h : AliveAlike last stream stream')

include h

/-- The streams are in range together. -/
theorem inRange (hrange : InRange stream) : InRange stream' where
  cursor_lt := h.cursor_eq ▸ hrange.cursor_lt
  cursor_dvd := h.cursor_eq ▸ hrange.cursor_dvd
  carry_lt := h.carry_eq ▸ hrange.carry_lt

theorem emission_eq : stream.emission = stream'.emission := by
  have hyield := (h.agree.mono h.cursor_le).fst_divideDown_eq 0
  rw [emission, emission, Remainders.pass, Remainders.pass, hyield, ← h.cursor_eq, ← h.carry_eq]

/-- After an emission the streams are still alike. -/
theorem advanced (hrange : InRange stream) (hcursor : stream.cursor ≠ 0) :
    AliveAlike last stream.advanced stream'.advanced := by
  have hyield := (h.agree.mono h.cursor_le).fst_divideDown_eq 0
  have hlower := hrange.toNat_cursor_advanced_le hcursor
  have hagree := h.agree.divideDown h.cursor_le h.last_lt h.last_lt' 0
  refine
    { cursor_eq := by rw [DigitStream.advanced, DigitStream.advanced, h.cursor_eq]
      carry_eq := ?_
      cursor_le := hlower.trans h.cursor_le
      last_lt := h.last_lt.trans_eq stream.size_advanced.symm
      last_lt' := h.last_lt'.trans_eq stream'.size_advanced.symm
      agree := ?_ }
  · rw [DigitStream.advanced, DigitStream.advanced, Remainders.pass, Remainders.pass, hyield,
      ← h.cursor_eq]
  · rw [DigitStream.advanced, DigitStream.advanced, Remainders.pass, Remainders.pass,
      ← h.cursor_eq]
    exact hagree

/-- Either both streams are exhausted, or both yield the same group and stay alike. -/
theorem next? (hrange : InRange stream) :
    (stream.next? = none ∧ stream'.next? = none) ∨
      ∃ emission rest rest', stream.next? = some (emission, rest) ∧
        stream'.next? = some (emission, rest') ∧ AliveAlike last rest rest' := by
  have hcursor' := h.cursor_eq
  by_cases hcursor : stream.cursor = 0
  · exact .inl ⟨next?_of_eq_zero hcursor, next?_of_eq_zero (hcursor' ▸ hcursor)⟩
  · refine .inr ⟨stream.emission, stream.advanced, stream'.advanced, ?_, ?_, ?_⟩
    · exact next?_of_ne_zero hcursor
    · rw [h.emission_eq]
      exact next?_of_ne_zero (hcursor' ▸ hcursor)
    · exact h.advanced hrange hcursor

/-- Any number of emissions is the same, and leaves streams that are alike. -/
theorem pull (hrange : InRange stream) (count : ℕ) :
    (stream.pull count).1 = (stream'.pull count).1 ∧
      AliveAlike last (stream.pull count).2 (stream'.pull count).2 := by
  induction count generalizing stream stream' with
  | zero => exact ⟨rfl, h⟩
  | succ count ih =>
    rw [pull_succ, pull_succ]
    obtain ⟨hnone, hnone'⟩ | ⟨emission, rest, rest', hsome, hsome', halike⟩ := h.next? hrange
    · rw [hnone, hnone']
      exact ⟨rfl, h⟩
    · obtain ⟨hemissions, hafter⟩ := ih halike (hrange.of_next? hsome)
      rw [hsome, hsome']
      exact ⟨congrArg (emission :: ·) hemissions, hafter⟩

/-- The next group is the same, if there is one. -/
theorem fst_next?_eq (hrange : InRange stream) :
    stream.next?.map Prod.fst = stream'.next?.map Prod.fst := by
  obtain ⟨hnone, hnone'⟩ | ⟨emission, rest, rest', hsome, hsome', -⟩ := h.next? hrange
  · rw [hnone, hnone']
  · rw [hsome, hsome']
    rfl

end AliveAlike

/-- Abandoned entries are dead. Of two streams that are in range, with the same cursor, the same
carry and the same entries at the live terms, every emission is the same, or neither has one; the
cursors and carries stay the same, and so do the entries at the terms that were live at first. All
other entries, which need not have anything to do with one another, keep their values in each of
the two. None of the emissions leaves the words it works on. -/
theorem abandoned_entries_dead {stream stream' : DigitStream} (range : InRange stream)
    (alike : AliveAlike stream.cursor.toNat stream stream') (count : ℕ) :
    (stream.pull count).1 = (stream'.pull count).1 ∧
      (stream.pull count).2.next?.map Prod.fst = (stream'.pull count).2.next?.map Prod.fst ∧
      AliveAlike stream.cursor.toNat (stream.pull count).2 (stream'.pull count).2 ∧
      (∀ term, term = 0 ∨ stream.cursor.toNat < term →
        (stream.pull count).2.table[term]? = stream.table[term]? ∧
          (stream'.pull count).2.table[term]? = stream'.table[term]?) ∧
      EmissionFits (stream.pull count).2 ∧ EmissionFits (stream'.pull count).2 := by
  have range' := alike.inRange range
  obtain ⟨hemissions, halike⟩ := alike.pull range count
  have hafter := range.pull count
  have hafter' := range'.pull count
  refine ⟨hemissions, halike.fst_next?_eq hafter, halike, ?_, ?_, ?_⟩
  · intro term hterm
    have hterm' := hterm
    rw [alike.cursor_eq] at hterm'
    exact ⟨range.getElem?_pull hterm count, range'.getElem?_pull hterm' count⟩
  · exact hafter.emissionFits (halike.cursor_le.trans_lt halike.last_lt)
  · have hcursor := halike.cursor_le
    rw [halike.cursor_eq] at hcursor
    exact hafter'.emissionFits (hcursor.trans_lt halike.last_lt')

/-- A stream of four digits, and one with another unused entry and two more abandoned ones. -/
theorem abandoned_entries_dead_four :
    ∃ stream' : DigitStream,
      stream' = { seeded 15 with table := #[7] ++ Array.replicate 14 2000 ++ #[8, 9] } ∧
        InRange (seeded 15) ∧ AliveAlike 14 (seeded 15) stream' ∧
        ((seeded 15).pull 5).1 = (stream'.pull 5).1 ∧
        AliveAlike 14 ((seeded 15).pull 5).2 (stream'.pull 5).2 ∧
        (stream'.pull 5).2.table[0]? = some 7 ∧ (stream'.pull 5).2.table[16]? = some 9 ∧
        EmissionFits stream' := by
  refine ⟨_, rfl, ?_⟩
  set stream' : DigitStream :=
    { seeded 15 with table := #[7] ++ Array.replicate 14 2000 ++ #[8, 9] }
  have range : InRange (seeded 15) := ⟨by decide, by decide, by decide⟩
  have hsame : ∀ term < 15, 1 ≤ term → (seeded 15).table[term]? = stream'.table[term]? := by
    decide +kernel
  have alike : AliveAlike 14 (seeded 15) stream' :=
    { cursor_eq := rfl
      carry_eq := rfl
      cursor_le := by decide
      last_lt := by decide
      last_lt' := by decide
      agree := fun term hpos hle => hsame term (Nat.lt_succ_of_le hle) hpos }
  obtain ⟨hemissions, -, hafter, hframe, -, -⟩ := abandoned_entries_dead range alike 5
  obtain ⟨-, -, -, -, -, hfits⟩ := abandoned_entries_dead range alike 0
  obtain ⟨-, hunused⟩ := hframe 0 (.inl rfl)
  obtain ⟨-, hbeyond⟩ := hframe 16 (.inr (by decide))
  exact ⟨range, alike, hemissions, hafter, hunused, hbeyond, hfits⟩

end DecimalPi.DigitStream
