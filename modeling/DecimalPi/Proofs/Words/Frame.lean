import DecimalPi.Proofs.Words.Run

/-!
# What a pass reads and what it writes

A pass looks at the entries of its terms and at nothing else, and it writes these entries and no
others. It therefore leaves alone the unused entry and all terms that were given up. What it leaves
at its own terms are the remainders of its visits, and the visits are the same for all tables that
agree on those terms.

Nothing in a stream but its passes touches the table, so what holds of one pass holds of a run.

## Main definitions

* `Remainders.AgreeUpTo`: tables that have the same entries at the first terms.

## Main results

* `Remainders.getElem?_divideDown_of_unvisited`: the entries that a pass leaves alone;
* `Remainders.getElem?_divideDown_of_mem_visits`: what it leaves at the others;
* `Remainders.AgreeUpTo.divideDown`: passes over tables that agree;
* `DigitStream.InRange.getElem?_pull`: the entries that a run leaves alone.
-/

namespace DecimalPi

namespace Remainders

/-! ## Writing -/

@[simp]
theorem size_divideDown (index : ℕ) (carried : UInt64) (table : Remainders) :
    (table.divideDown index carried).2.size = table.size := by
  induction index generalizing carried table with
  | zero => rfl
  | succ index ih => rw [divideDown_succ, ih, Array.size_setIfInBounds]

/-- A pass leaves alone the unused entry and the terms above the one it starts at. -/
theorem getElem?_divideDown_of_unvisited {index term : ℕ} (h : term = 0 ∨ index < term)
    (carried : UInt64) (table : Remainders) :
    (table.divideDown index carried).2[term]? = table[term]? := by
  induction index generalizing carried table with
  | zero => rfl
  | succ index ih =>
    rw [divideDown_succ, ih (by omega), Array.getElem?_setIfInBounds_ne (by omega)]

/-- A pass leaves at each of its terms the remainder of the visit there. -/
theorem getElem?_divideDown_of_mem_visits {index : ℕ} {carried : UInt64} {table : Remainders}
    (hsize : index < table.size) {visit : Visit} (hvisit : visit ∈ table.visits index carried) :
    (table.divideDown index carried).2[visit.index]? = some visit.rest := by
  induction index generalizing carried table with
  | zero => contradiction
  | succ index ih =>
    rw [visits_succ, List.mem_cons] at hvisit
    rw [divideDown_succ]
    rcases hvisit with rfl | hvisit
    · -- the rest of the pass leaves the first term alone
      rw [getElem?_divideDown_of_unvisited (.inr (Nat.lt_add_one index)),
        Array.getElem?_setIfInBounds_self_of_lt hsize]
    · refine ih ?_ hvisit
      rw [Array.size_setIfInBounds]
      omega

/-- Every term of a pass has a visit. -/
theorem exists_mem_visits {index term : ℕ} (hpos : 1 ≤ term) (hle : term ≤ index)
    (carried : UInt64) (table : Remainders) :
    ∃ visit ∈ table.visits index carried, visit.index = term := by
  have hterm : term ∈ (table.visits index carried).map Visit.index := by
    rw [map_index_visits, List.mem_reverse, List.mem_range'_1]
    omega
  exact List.mem_map.mp hterm

/-! ## Reading -/

/-- The tables have the same entries at the terms from the first to `last`. -/
def AgreeUpTo (last : ℕ) (table table' : Remainders) : Prop :=
  ∀ term, 1 ≤ term → term ≤ last → table[term]? = table'[term]?

namespace AgreeUpTo

variable {last index : ℕ} {table table' : Remainders}

theorem mono (h : AgreeUpTo last table table') (hle : index ≤ last) :
    AgreeUpTo index table table' :=
  fun term hpos hterm => h term hpos (hterm.trans hle)

theorem setIfInBounds (h : AgreeUpTo (index + 1) table table') (value : UInt32) :
    AgreeUpTo index (table.setIfInBounds (index + 1) value)
      (table'.setIfInBounds (index + 1) value) := by
  intro term hpos hterm
  rw [Array.getElem?_setIfInBounds_ne (by omega), Array.getElem?_setIfInBounds_ne (by omega)]
  exact h term hpos (by omega)

theorem visit_eq (h : AgreeUpTo (index + 1) table table') (carried : UInt64) :
    table.visit index carried = table'.visit index carried := by
  rw [visit, visit, Array.getD_eq_getD_getElem?, Array.getD_eq_getD_getElem?,
    h (index + 1) (Nat.le_add_left 1 index) le_rfl]

/-- The visits of a pass depend on the entries of its terms alone. -/
theorem visits_eq (h : AgreeUpTo index table table') (carried : UInt64) :
    table.visits index carried = table'.visits index carried := by
  induction index generalizing carried table table' with
  | zero => rfl
  | succ index ih =>
    rw [visits_succ, visits_succ, ← h.visit_eq, ih (h.setIfInBounds _)]

/-- So does the number that comes out of it. -/
theorem fst_divideDown_eq (h : AgreeUpTo index table table') (carried : UInt64) :
    (table.divideDown index carried).1 = (table'.divideDown index carried).1 := by
  induction index generalizing carried table table' with
  | zero => rfl
  | succ index ih =>
    rw [divideDown_succ, divideDown_succ, ← h.visit_eq, ih (h.setIfInBounds _)]

/-- Tables that agree beyond the terms of a pass still do so after it. -/
theorem divideDown (h : AgreeUpTo last table table') (hle : index ≤ last)
    (hsize : last < table.size) (hsize' : last < table'.size) (carried : UInt64) :
    AgreeUpTo last (table.divideDown index carried).2 (table'.divideDown index carried).2 := by
  intro term hpos hterm
  rcases Nat.lt_or_ge index term with habove | hbelow
  · rw [getElem?_divideDown_of_unvisited (.inr habove),
      getElem?_divideDown_of_unvisited (.inr habove), h term hpos hterm]
  · -- the passes have the same visits, and leave what these leave
    obtain ⟨visit, hvisit, rfl⟩ := exists_mem_visits hpos hbelow carried table
    have hvisit' := hvisit
    rw [(h.mono hle).visits_eq] at hvisit'
    rw [getElem?_divideDown_of_mem_visits (hle.trans_lt hsize) hvisit,
      getElem?_divideDown_of_mem_visits (hle.trans_lt hsize') hvisit']

end AgreeUpTo

end Remainders

/-! ## Runs -/

namespace DigitStream

@[simp]
theorem size_advanced (stream : DigitStream) :
    stream.advanced.table.size = stream.table.size :=
  Remainders.size_divideDown _ _ _

/-- An emission leaves alone the unused entry and the terms above the cursor. -/
theorem getElem?_advanced {stream : DigitStream} {term : ℕ}
    (h : term = 0 ∨ stream.cursor.toNat < term) :
    stream.advanced.table[term]? = stream.table[term]? :=
  Remainders.getElem?_divideDown_of_unvisited h 0 _

theorem size_pull (stream : DigitStream) (count : ℕ) :
    (stream.pull count).2.table.size = stream.table.size :=
  pull_induction (motive := fun later => later.table.size = stream.table.size) rfl
    (fun later _ hsize => later.size_advanced.trans hsize) count

/-- A run leaves alone the unused entry and the terms above its cursor. -/
theorem InRange.getElem?_pull {stream : DigitStream} (h : InRange stream) {term : ℕ}
    (hterm : term = 0 ∨ stream.cursor.toNat < term) (count : ℕ) :
    (stream.pull count).2.table[term]? = stream.table[term]? := by
  -- the cursor only goes down, so the terms above it stay above it
  have hrun : InRange (stream.pull count).2 ∧
      (term = 0 ∨ (stream.pull count).2.cursor.toNat < term) ∧
      (stream.pull count).2.table[term]? = stream.table[term]? := by
    refine pull_induction (motive := fun later => InRange later ∧
      (term = 0 ∨ later.cursor.toNat < term) ∧ later.table[term]? = stream.table[term]?)
      ⟨h, hterm, rfl⟩ ?_ count
    rintro later hcursor ⟨hrange, habove, hsame⟩
    have hlower := hrange.toNat_cursor_advanced_le hcursor
    exact ⟨hrange.advanced hcursor, habove.imp_right hlower.trans_lt,
      (getElem?_advanced habove).trans hsame⟩
  exact hrun.2.2

end DigitStream

end DecimalPi
