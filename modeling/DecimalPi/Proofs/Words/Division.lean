import DecimalPi.Proofs.Words.Frame

/-!
# A pass divides

One pass is a division with remainder. The dividend is ten thousand times what the entries of its
terms are worth, and the number that comes out is the quotient; the remainder is what the entries
are worth that it leaves there, each of them smaller than the divisor of its term. As the largest
entries that are possible telescope, the remainder stays below two.

None of this depends on where the table comes from. Any entries will do, whether or not a run
leads to them, and as long as there are fewer than `2 ^ 31` terms there is no overflow.

## Main definitions

* `Remainders.FitsThroughout`: what a pass visits, and that no operation of a visit leaves its word;
* `Remainders.Divides`: a quotient and the entries that are left after a division.

## Main results

* `Remainders.fitsThroughout` and `Remainders.divides_pass`: every pass fits, and divides;
* `Remainders.fst_pass_le`: no smaller entries, no smaller quotient;
* `Remainders.pass_divides_exactly`: all of this for every table and every last term.
-/

namespace DecimalPi.Remainders

open Series

/-- A pass visits the terms from `last` down to the first, each of them once and each with an entry
in the table, and no operation of a visit leaves its word. -/
structure FitsThroughout (last : UInt64) (table : Remainders) : Prop where
  length_eq : (table.visits last.toNat 0).length = last.toNat
  indices_eq : (table.visits last.toNat 0).map Visit.index = (List.range' 1 last.toNat).reverse
  pass_eq : table.pass last = (table.visits last.toNat 0).foldl Visit.leave (0, table)
  index_mem : ∀ visit ∈ table.visits last.toNat 0,
    1 ≤ visit.index ∧ visit.index < table.size
  visit_fits : ∀ visit ∈ table.visits last.toNat 0, visit.Fits (2 * 10000 * (2 ^ 32 - 1))

/-- Ten thousand times the entries of the terms up to `last` is divided into a `quotient` and the
entries of the table `rest`, which differs from the one before in no other entry. -/
structure Divides (last : ℕ) (table : Remainders) (quotient : ℕ) (rest : Remainders) : Prop where
  dividend_eq : quotient + worth rest.remainder 0 last = 10000 * worth table.remainder 0 last
  -- smaller than the divisor `2i - 1`
  remainder_le : ∀ term, 1 ≤ term → term ≤ last → rest.remainder term ≤ 2 * term - 2
  size_eq : rest.size = table.size
  unvisited : ∀ term, term = 0 ∨ last < term → rest[term]? = table[term]?

namespace Divides

variable {last quotient : ℕ} {table rest : Remainders} (h : Divides last table quotient rest)

include h

/-- The quotient is not above the dividend. -/
theorem quotient_le : (quotient : ℚ) ≤ 10000 * worth table.remainder 0 last := by
  have hrest := worth_nonneg rest.remainder 0 last
  have hdividend := h.dividend_eq
  linarith

/-- The quotient is less than two below the dividend: the largest entries that can be left are worth
`2 (s₀ - s)`, where `s₀` is one and `s` is positive. -/
theorem lt_quotient_add_two : 10000 * worth table.remainder 0 last < (quotient : ℚ) + 2 := by
  have hrest : worth rest.remainder 0 last ≤ 2 * (scale 0 - scale last) :=
    worth_le_of_le (Nat.zero_le last) h.remainder_le
  have hdividend := h.dividend_eq
  have hone : scale 0 = 1 := rfl
  have hpos := scale_pos last
  linarith

end Divides

section Pass

variable {table : Remainders} {last : UInt64} (hsize : last.toNat < table.size)
  (hlast : last.toNat < 2 ^ 31)

include hsize hlast

theorem fitsThroughout : FitsThroughout last table where
  length_eq := by
    have hindices := congrArg List.length (map_index_visits last.toNat 0 table)
    rwa [List.length_map, List.length_reverse, List.length_range'] at hindices
  indices_eq := map_index_visits last.toNat 0 table
  pass_eq := divideDown_eq_foldl_visits last.toNat 0 table
  index_mem := fun visit hvisit => by
    have hmem := mem_range_of_mem_visits hvisit
    omega
  visit_fits := fun _ hvisit => fits_of_mem_pass hlast hvisit

/-- The division is the one in unbounded arithmetic, read off the words. -/
theorem divides_pass :
    Divides last.toNat table (table.pass last).1.toNat (table.pass last).2 := by
  obtain ⟨hquotient, hrest⟩ := Prod.mk.inj (pass_exact hlast table)
  have hremainder : (table.pass last).2.remainder = ExactStream.remainder
      (ExactStream.divideDown last.toNat 0 (table.map UInt32.toNat)).2 := by
    rw [← hrest, exact_remainder]
  refine
    { dividend_eq := ?_
      remainder_le := ?_
      size_eq := size_divideDown last.toNat 0 table
      unvisited := fun term hterm => getElem?_divideDown_of_unvisited hterm 0 table }
  · have hconserves := ExactStream.divideDown_conserves 0
      (show last.toNat < (table.map UInt32.toNat).size by rwa [Array.size_map])
    rw [← hquotient, ← hremainder, exact_remainder, Nat.cast_zero, zero_mul, zero_add] at hconserves
    exact hconserves
  · intro term hpos hterm
    rw [hremainder]
    exact ExactStream.remainder_divideDown_le hpos hterm 0 _

omit hsize

/-- Where no entry is smaller, the quotient is not smaller either. -/
theorem fst_pass_le {table' : Remainders}
    (hle : ∀ term, 1 ≤ term → term ≤ last.toNat → table.remainder term ≤ table'.remainder term) :
    (table.pass last).1 ≤ (table'.pass last).1 := by
  obtain ⟨hquotient, -⟩ := Prod.mk.inj (pass_exact hlast table)
  obtain ⟨hquotient', -⟩ := Prod.mk.inj (pass_exact hlast table')
  rw [← exact_remainder, ← exact_remainder] at hle
  rw [UInt64.le_iff_toNat_le, hquotient, hquotient']
  exact ExactStream.fst_divideDown_mono le_rfl hle

end Pass

/-- A pass divides exactly. For any table, whatever its entries are, and any last term that has an
entry and a divisor that fits, a pass goes over its terms once and ends without overflow. It splits
ten thousand times what the entries of the terms are worth into a whole number and what the new
entries are worth, each of which is smaller than its divisor; all other entries stay as they are.
The whole number falls short of what is divided by less than two, and a table with no smaller
entries does not have a smaller one. -/
theorem pass_divides_exactly {table : Remainders} {last : UInt64}
    (inside : last.toNat < table.size) (short : last.toNat < 2 ^ 31) :
    FitsThroughout last table ∧
      Divides last.toNat table (table.pass last).1.toNat (table.pass last).2 ∧
      0 ≤ 10000 * worth table.remainder 0 last.toNat - (table.pass last).1.toNat ∧
      10000 * worth table.remainder 0 last.toNat - (table.pass last).1.toNat < 2 ∧
      ∀ table' : Remainders,
        (∀ term, 1 ≤ term → term ≤ last.toNat →
          table.remainder term ≤ table'.remainder term) →
        (table.pass last).1 ≤ (table'.pass last).1 := by
  have hdivides := divides_pass inside short
  have hle := hdivides.quotient_le
  have hlt := hdivides.lt_quotient_add_two
  refine ⟨fitsThroughout inside short, hdivides, ?_, ?_, ?_⟩
  · linarith
  · linarith
  · intro table' hentries
    exact fst_pass_le short hentries

/-- A table that no run leads to, with the largest entry but one that is possible, and a table that
is not smaller anywhere. -/
theorem pass_divides_exactly_three :
    ∃ table table' : Remainders, table = #[1, 7, 4294967294, 11, 5] ∧
      table' = #[9, 7, 4294967295, 12] ∧ (3 : UInt64).toNat < table.size ∧
      (3 : UInt64).toNat < 2 ^ 31 ∧ FitsThroughout 3 table ∧
      Divides 3 table 14316557731333 #[1, 0, 1, 0, 5] ∧
      10000 * worth table.remainder 0 3 - (14316557731333 : ℕ) < 2 ∧
      14316557731333 ≤ (table'.pass 3).1 := by
  refine ⟨_, _, rfl, rfl, ?_⟩
  set table : Remainders := #[1, 7, 4294967294, 11, 5]
  set table' : Remainders := #[9, 7, 4294967295, 12]
  have inside : (3 : UInt64).toNat < table.size := by decide
  have short : (3 : UInt64).toNat < 2 ^ 31 := by decide
  have hpass : table.pass 3 = (14316557731333, #[1, 0, 1, 0, 5]) := by decide
  have hnotSmaller : ∀ term < 4, 1 ≤ term → table.remainder term ≤ table'.remainder term := by
    decide
  obtain ⟨hfits, hdivides, -, hlt, hmono⟩ := pass_divides_exactly inside short
  rw [hpass] at hdivides hlt hmono
  refine ⟨inside, short, hfits, hdivides, hlt, hmono table' ?_⟩
  intro term hpos hterm
  exact hnotSmaller term (Nat.lt_succ_of_le hterm) hpos

end DecimalPi.Remainders
