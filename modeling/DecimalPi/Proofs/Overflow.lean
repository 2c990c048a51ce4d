import DecimalPi.Proofs.Words.Run

/-!
# No arithmetic of a run overflows

Every operation of every pass of an opened stream has the exact result, and the running total
stays below a bound that depends on the size of the table alone. The entries start at the seed
and are remainders of `2i - 1` from the first pass on, so that one bound holds for both; a pass
then keeps its total within twice ten thousand times that bound.

## Main definitions

* `DigitStream.largestTotal`: the bound on the running total;
* `DigitStream.PassFits`: no operation of the next emission leaves its word.

## Main results

* `DigitStream.run_overflow_free`: a run in words is the run in unbounded arithmetic, because
  each of its passes fits.
-/

namespace DecimalPi.DigitStream

/-- The bound on the running total of a pass over a table of so many entries. -/
def largestTotal (entries : ℕ) : ℕ := 2 * 10000 * max 2000 (2 * entries)

/-- No operation of the next emission leaves its word, and no entry is looked up outside the
table of `entries` entries. -/
structure PassFits (entries : ℕ) (stream : DigitStream) : Prop where
  size_eq : stream.table.size = entries
  -- the visits are what the pass does, from the last live term down to the first
  pass_eq : stream.table.pass stream.cursor =
    (stream.table.visits stream.cursor.toNat 0).foldl Visit.leave (0, stream.table)
  indices_eq : (stream.table.visits stream.cursor.toNat 0).map Visit.index =
    (List.range' 1 stream.cursor.toNat).reverse
  -- every visit is of a term with an entry, and leaves no word
  index_mem : ∀ visit ∈ stream.table.visits stream.cursor.toNat 0,
    1 ≤ visit.index ∧ visit.index < entries
  visit_fits : ∀ visit ∈ stream.table.visits stream.cursor.toNat 0,
    visit.Fits (largestTotal entries)
  -- nor does making a group and giving up its terms
  group_lt : stream.carry.toNat + (stream.table.pass stream.cursor).1.toNat / 10000 < 2 ^ 64
  le_cursor : 14 ≤ stream.cursor.toNat

namespace Opened

variable {groups passes : ℕ} {stream : DigitStream} (h : Opened groups stream)

include h

theorem remainder_pull_le (hle : passes ≤ groups) {term : ℕ} (hfirst : 1 ≤ term)
    (hlast : term ≤ 14 * groups) :
    (stream.pull passes).2.table.remainder term ≤ max 2000 (2 * (14 * groups + 1)) := by
  rw [h.remainder_pull]
  -- The bound is for the seed before the first pass, for remainders of `2i - 1` after it.
  rcases Nat.eq_zero_or_pos passes with rfl | hpos
  · rw [ExactStream.after_zero, h.exact_eq, ExactStream.remainder_seeded hlast]
    exact le_max_left _ _
  · have := h.ready.remainder_after_le hpos hle hfirst hlast
    exact le_max_of_le_right (by omega)

theorem size_pull (hle : passes ≤ groups) :
    (stream.pull passes).2.table.size = 14 * groups + 1 := by
  have hsize := h.ready.size_after hle
  rw [← h.exact_pull, h.exact_eq] at hsize
  simpa [exact, ExactStream.seeded] using hsize

theorem passFits_pull (hlt : passes < groups) :
    PassFits (14 * groups + 1) (stream.pull passes).2 := by
  have hrange := h.inRange.pull passes
  have hcursor := h.cursor_pull hlt.le
  have hsize := h.size_le
  refine
    { size_eq := h.size_pull hlt.le
      pass_eq := Remainders.divideDown_eq_foldl_visits _ _ _
      indices_eq := Remainders.map_index_visits _ _ _
      index_mem := ?_
      visit_fits := ?_
      group_lt := hrange.carry_add_lt
      le_cursor := by omega }
  · intro visit hvisit
    have hmem := Remainders.mem_range_of_mem_visits hvisit
    omega
  · intro visit hvisit
    have hentries : ∀ term, 1 ≤ term → term ≤ (stream.pull passes).2.cursor.toNat →
        (stream.pull passes).2.table.remainder term ≤ max 2000 (2 * (14 * groups + 1)) := by
      intro term hfirst hlast
      exact h.remainder_pull_le hlt.le hfirst (by omega)
    exact Remainders.fits_of_mem_visits (by omega) hrange.cursor_lt (by simp) hentries hvisit

end Opened

/-- No arithmetic of a run overflows. Where a number of digits is accepted and there is room for
its table, the bound on the running total fits a word, every pass of the run fits, and the run
has the same groups and leaves the same tables, cursors and carries as the one in unbounded
arithmetic, however many groups are asked for. -/
theorem run_overflow_free {room : Option UInt64} {count entries : UInt64}
    (accepted : entriesFor count = .ok entries) (granted : ∀ limit ∈ room, entries ≤ limit) :
    largestTotal entries.toNat < 2 ^ 64 ∧
      ∃ groups stream, groupsFor count = .ok groups ∧ start room count = .ok stream ∧
        (∀ passes < groups.toNat, PassFits entries.toNat (stream.pull passes).2) ∧
          ∀ passes,
            stream.emitted passes = ((ExactStream.seeded entries.toNat).pull passes).1 ∧
              (stream.pull passes).2.exact =
                ((ExactStream.seeded entries.toNat).pull passes).2 := by
  obtain ⟨groups, stream, hgroups, hstart, hentries, hopened⟩ := exists_opened accepted granted
  have hsize := hopened.size_le
  rw [hentries]
  refine ⟨?_, groups, stream, hgroups, hstart, ?_, ?_⟩
  · rw [largestTotal]
    omega
  · intro passes hlt
    exact hopened.passFits_pull hlt
  · intro passes
    obtain ⟨hnumbers, hexact⟩ := hopened.inRange.pull_exact passes
    rw [hopened.exact_eq] at hnumbers hexact
    exact ⟨hnumbers, hexact⟩

/-- The largest expansion that is accepted: already its first pass goes over all two billion
terms. -/
theorem run_overflow_free_largest :
    entriesFor 613566756 = .ok 2147483647 ∧ largestTotal 2147483647 < 2 ^ 64 ∧
      ∃ stream, start none 613566756 = .ok stream ∧ PassFits 2147483647 stream := by
  have accepted : entriesFor 613566756 = .ok 2147483647 := by decide
  have granted : ∀ limit ∈ (none : Option UInt64), (2147483647 : UInt64) ≤ limit := by simp
  obtain ⟨hlargest, groups, stream, hgroups, hstart, hfits, -⟩ :=
    run_overflow_free accepted granted
  have hpos : 0 < groups.toNat := by
    have := (groupsFor_eq_ok_iff.mp hgroups).2
    rw [this]
    decide
  exact ⟨accepted, hlargest, stream, hstart, hfits 0 hpos⟩

end DecimalPi.DigitStream
