import DecimalPi.Proofs.Exact.Pass
import Mathlib.Data.UInt

/-!
# One pass in words

A pass visits its terms from the last one down to the first. What it works on at each of them
is made explicit here, so that one can say of every single sum, product and remainder that it
fits its word. The division by `2i - 1` keeps the running total down: the quotient, multiplied
by `i - 1` at the next term, is at most half the total, and the new entry adds no more than the
other half of the bound.

## Main definitions

* `Remainders.remainder`: the entry of a table at a term, as a number;
* `Visit`: a term that a pass stops at, with what it finds there;
* `Remainders.visits`: the visits of a pass in their order;
* `Visit.Fits`: no operation of a visit leaves its word.

## Main results

* `Remainders.fits_of_mem_visits`: every visit of a pass over fewer than `2 ^ 31` terms fits;
* `Remainders.divideDown_exact`: such a pass is one in unbounded arithmetic;
* `Remainders.fits_of_mem_pass` and `Remainders.pass_exact`: the same for tables of any content.
-/

namespace DecimalPi

/-- The remainder of the term `index` as a number. -/
def Remainders.remainder (table : Remainders) (index : ℕ) : ℕ := (table.getD index 0).toNat

/-- A term that a pass stops at, and what it finds there. -/
structure Visit where
  /-- The term. -/
  index : ℕ
  /-- What arrives from the term above, still to be multiplied by `index`. -/
  carried : UInt64
  /-- The remainder that the term has so far. -/
  entry : UInt32

namespace Visit

/-- The running total, just before it is divided. -/
def total (visit : Visit) : UInt64 :=
  visit.carried * UInt64.ofNat visit.index + visit.entry.toUInt64 * base

/-- What the running total is divided by. -/
def divisor (visit : Visit) : UInt64 := 2 * UInt64.ofNat visit.index - 1

/-- What goes on to the term below. -/
def quotient (visit : Visit) : UInt64 := visit.total / visit.divisor

/-- What stays at the term. -/
def rest (visit : Visit) : UInt32 := (visit.total % visit.divisor).toUInt32

/-- The number carried on and the table after the visit. -/
def leave (state : UInt64 × Remainders) (visit : Visit) : UInt64 × Remainders :=
  (visit.quotient, state.2.setIfInBounds visit.index visit.rest)

/-- What the visit multiplies, adds, divides and stores is exact and at most `limit`, where it
is not smaller still. -/
structure Fits (limit : ℕ) (visit : Visit) : Prop where
  -- the divisor
  divisor_eq : visit.divisor.toNat = 2 * visit.index - 1
  divisor_pos : 1 ≤ visit.divisor.toNat
  -- the running total, after the multiplication and after the addition
  product_le : visit.carried.toNat * visit.index ≤ limit
  sum_le : visit.carried.toNat * visit.index + visit.entry.toNat * 10000 ≤ limit
  total_eq : visit.total.toNat =
    visit.carried.toNat * visit.index + visit.entry.toNat * 10000
  -- the running total after the division
  quotient_le : visit.quotient.toNat ≤ limit
  quotient_eq : visit.quotient.toNat = visit.total.toNat / visit.divisor.toNat
  -- the remainder, which is cut down to a shorter word
  rest_lt : visit.total.toNat % visit.divisor.toNat < 2 ^ 32
  rest_eq : visit.rest.toNat = visit.total.toNat % visit.divisor.toNat

/-- A visit fits if what arrives is within half of the limit and the entry adds at most the
other half. -/
theorem fits {visit : Visit} {bound : ℕ} (hpos : 1 ≤ visit.index)
    (hindex : visit.index < 2 ^ 31) (hbound : bound < 2 ^ 32)
    (hproduct : visit.carried.toNat * visit.index ≤ 10000 * bound)
    (hentry : visit.entry.toNat ≤ bound) : visit.Fits (2 * 10000 * bound) := by
  -- The divisor: twice a term below `2 ^ 31` is far from wrapping.
  have hword : (UInt64.ofNat visit.index).toNat = visit.index :=
    UInt64.toNat_ofNat_of_lt' (show visit.index < 2 ^ 64 by omega)
  have htwice : (2 * UInt64.ofNat visit.index).toNat = 2 * visit.index := by
    rw [UInt64.toNat_mul, hword]
    exact Nat.mod_eq_of_lt (show 2 * visit.index < 2 ^ 64 by omega)
  have hdivisor : visit.divisor.toNat = 2 * visit.index - 1 := by
    rw [divisor, UInt64.toNat_sub_of_le _ _ (UInt64.le_iff_toNat_le.mpr ?_), htwice]
    · rfl
    · rw [htwice]
      exact Nat.le_trans hpos (Nat.le_mul_of_pos_left _ (by norm_num))
  -- The total: each of its two parts is at most ten thousand times the bound.
  have htotal : visit.total.toNat =
      visit.carried.toNat * visit.index + visit.entry.toNat * 10000 := by
    have hcarried : (visit.carried * UInt64.ofNat visit.index).toNat =
        visit.carried.toNat * visit.index := by
      rw [UInt64.toNat_mul, hword]
      exact Nat.mod_eq_of_lt (by omega)
    have hscaled : (visit.entry.toUInt64 * base).toNat = visit.entry.toNat * 10000 := by
      rw [UInt64.toNat_mul, UInt32.toNat_toUInt64]
      exact Nat.mod_eq_of_lt (show visit.entry.toNat * 10000 < 2 ^ 64 by omega)
    rw [total, UInt64.toNat_add, hcarried, hscaled]
    exact Nat.mod_eq_of_lt (by omega)
  have hquotient : visit.quotient.toNat = visit.total.toNat / visit.divisor.toNat :=
    UInt64.toNat_div _ _
  -- The remainder: it is smaller than the divisor, and that fits the shorter word.
  have hmod : visit.total.toNat % visit.divisor.toNat < visit.divisor.toNat :=
    Nat.mod_lt _ (by omega)
  have hrest : visit.rest.toNat = visit.total.toNat % visit.divisor.toNat := by
    rw [rest, UInt64.toNat_toUInt32, UInt64.toNat_mod]
    exact Nat.mod_eq_of_lt (by omega)
  have hshrinks : visit.total.toNat / visit.divisor.toNat ≤ visit.total.toNat :=
    Nat.div_le_self _ _
  exact
    { divisor_eq := hdivisor
      divisor_pos := by omega
      product_le := by omega
      sum_le := by omega
      total_eq := htotal
      quotient_le := by omega
      quotient_eq := hquotient
      rest_lt := by omega
      rest_eq := hrest }

/-- What goes on to the term below, multiplied there, is within half of the limit again. -/
theorem Fits.quotient_mul_le {visit : Visit} {bound : ℕ}
    (h : visit.Fits (2 * 10000 * bound)) :
    visit.quotient.toNat * (visit.index - 1) ≤ 10000 * bound := by
  -- The divisor `2i - 1` is at least twice the next factor `i - 1`.
  have hdivision : visit.quotient.toNat * visit.divisor.toNat ≤ visit.total.toNat := by
    rw [h.quotient_eq]
    exact Nat.div_mul_le_self _ _
  have hdivisor : 2 * (visit.index - 1) ≤ visit.divisor.toNat := by
    rw [h.divisor_eq]
    omega
  have htotal := h.sum_le
  rw [← h.total_eq] at htotal
  have hdouble : visit.quotient.toNat * (2 * (visit.index - 1)) ≤
      visit.quotient.toNat * visit.divisor.toNat := Nat.mul_le_mul_left _ hdivisor
  rw [Nat.mul_left_comm] at hdouble
  omega

end Visit

namespace Remainders

/-- The visits of a pass from the term `index` down, where `carried` arrives from above. -/
def visits : (index : ℕ) → (carried : UInt64) → Remainders → List Visit
  | 0, _, _ => []
  | index + 1, carried, table =>
    let visit : Visit := ⟨index + 1, carried, table.getD (index + 1) 0⟩
    visit :: visits index visit.quotient (table.setIfInBounds (index + 1) visit.rest)

/-- The visit of the term `index + 1`, where `carried` arrives from above. -/
abbrev visit (table : Remainders) (index : ℕ) (carried : UInt64) : Visit :=
  ⟨index + 1, carried, table.getD (index + 1) 0⟩

theorem visits_succ (index : ℕ) (carried : UInt64) (table : Remainders) :
    table.visits (index + 1) carried =
      table.visit index carried ::
        visits index (table.visit index carried).quotient
          (table.setIfInBounds (index + 1) (table.visit index carried).rest) := rfl

theorem divideDown_succ (index : ℕ) (carried : UInt64) (table : Remainders) :
    table.divideDown (index + 1) carried =
      divideDown index (table.visit index carried).quotient
        (table.setIfInBounds (index + 1) (table.visit index carried).rest) := rfl

/-- A pass is its visits, one after the other. -/
theorem divideDown_eq_foldl_visits (index : ℕ) (carried : UInt64) (table : Remainders) :
    table.divideDown index carried =
      (table.visits index carried).foldl Visit.leave (carried, table) := by
  induction index generalizing carried table with
  | zero => rfl
  | succ index ih =>
    rw [divideDown_succ, ih, visits_succ, List.foldl_cons]
    rfl

/-- A pass visits every term from the last one down to the first. -/
theorem map_index_visits (index : ℕ) (carried : UInt64) (table : Remainders) :
    (table.visits index carried).map Visit.index = (List.range' 1 index).reverse := by
  induction index generalizing carried table with
  | zero => rfl
  | succ index ih =>
    rw [visits_succ, List.map_cons, ih, List.range'_concat, List.reverse_append, Nat.one_mul,
      Nat.add_comm 1 index]
    rfl

theorem mem_range_of_mem_visits {index : ℕ} {carried : UInt64} {table : Remainders}
    {visit : Visit} (h : visit ∈ table.visits index carried) :
    1 ≤ visit.index ∧ visit.index ≤ index := by
  have hmem : visit.index ∈ (table.visits index carried).map Visit.index :=
    List.mem_map_of_mem h
  rw [map_index_visits, List.mem_reverse, List.mem_range'_1] at hmem
  omega

theorem remainder_setIfInBounds_of_ne (table : Remainders) {index other : ℕ}
    (h : index ≠ other) (value : UInt32) :
    remainder (table.setIfInBounds index value) other = table.remainder other := by
  rw [remainder, remainder, Array.getD_eq_getD_getElem?, Array.getD_eq_getD_getElem?,
    Array.getElem?_setIfInBounds_ne h]

section Exact

variable {bound index : ℕ} {carried : UInt64} {table : Remainders}

/-- The entries below the one that is written stay within the bound. -/
theorem remainder_setIfInBounds_le
    (hentries : ∀ term, 1 ≤ term → term ≤ index + 1 → table.remainder term ≤ bound)
    (value : UInt32) : ∀ term, 1 ≤ term → term ≤ index →
      remainder (table.setIfInBounds (index + 1) value) term ≤ bound := by
  intro term hpos hterm
  rw [remainder_setIfInBounds_of_ne table (by omega)]
  exact hentries term hpos (by omega)

theorem fits_visit (hbound : bound < 2 ^ 32) (hindex : index + 1 < 2 ^ 31)
    (hcarried : carried.toNat * (index + 1) ≤ 10000 * bound)
    (hentry : table.remainder (index + 1) ≤ bound) :
    (table.visit index carried).Fits (2 * 10000 * bound) :=
  Visit.fits (Nat.le_add_left 1 index) hindex hbound hcarried hentry

/-- Every visit of a pass fits, if the entries of its terms are within the bound. -/
theorem fits_of_mem_visits (hbound : bound < 2 ^ 32) (hindex : index < 2 ^ 31)
    (hcarried : carried.toNat * index ≤ 10000 * bound)
    (hentries : ∀ term, 1 ≤ term → term ≤ index → table.remainder term ≤ bound)
    {visit : Visit} (hvisit : visit ∈ table.visits index carried) :
    visit.Fits (2 * 10000 * bound) := by
  induction index generalizing carried table with
  | zero => contradiction
  | succ index ih =>
    have htop := fits_visit hbound hindex hcarried (hentries (index + 1) (by omega) le_rfl)
    rw [visits_succ, List.mem_cons] at hvisit
    rcases hvisit with rfl | hvisit
    · exact htop
    · exact ih (by omega) htop.quotient_mul_le (remainder_setIfInBounds_le hentries _) hvisit

theorem exact_remainder (table : Remainders) :
    ExactStream.remainder (table.map UInt32.toNat) = table.remainder := by
  funext index
  rw [ExactStream.remainder, remainder, Array.getD_eq_getD_getElem?,
    Array.getD_eq_getD_getElem?, Array.getElem?_map]
  cases table[index]? <;> rfl

/-- A pass over fewer than `2 ^ 31` terms is the one in unbounded arithmetic: it yields the same
number and leaves the same remainders. -/
theorem divideDown_exact (hbound : bound < 2 ^ 32) (hindex : index < 2 ^ 31)
    (hcarried : carried.toNat * index ≤ 10000 * bound)
    (hentries : ∀ term, 1 ≤ term → term ≤ index → table.remainder term ≤ bound) :
    ((table.divideDown index carried).1.toNat,
        (table.divideDown index carried).2.map UInt32.toNat) =
      ExactStream.divideDown index carried.toNat (table.map UInt32.toNat) := by
  induction index generalizing carried table with
  | zero => rfl
  | succ index ih =>
    have htop := fits_visit hbound hindex hcarried (hentries (index + 1) (by omega) le_rfl)
    have htotal : (table.visit index carried).total.toNat =
        ExactStream.total (index + 1) carried.toNat (table.map UInt32.toNat) := by
      rw [htop.total_eq, ExactStream.total, exact_remainder]
      rfl
    have hdivisor : (table.visit index carried).divisor.toNat = 2 * index + 1 :=
      htop.divisor_eq
    have hbelow := ih (by omega) htop.quotient_mul_le (remainder_setIfInBounds_le hentries
      (table.visit index carried).rest)
    -- Quotient and remainder are exact, so both passes go on from the same place.
    rw [divideDown_succ, ExactStream.divideDown_succ, hbelow, Array.map_setIfInBounds,
      htop.quotient_eq, htop.rest_eq, htotal, hdivisor]

end Exact

/-! No entry is larger than its own word, so a pass fits whatever is in the table. -/

section Whole

variable {last : UInt64} (h : last.toNat < 2 ^ 31)

theorem remainder_le_word (table : Remainders) (term : ℕ) :
    table.remainder term ≤ 2 ^ 32 - 1 :=
  Nat.le_sub_one_of_lt (UInt32.toNat_lt _)

include h

theorem fits_of_mem_pass {table : Remainders} {visit : Visit}
    (hvisit : visit ∈ table.visits last.toNat 0) : visit.Fits (2 * 10000 * (2 ^ 32 - 1)) :=
  fits_of_mem_visits (by norm_num) h (by simp) (fun term _ _ => table.remainder_le_word term)
    hvisit

theorem pass_exact (table : Remainders) :
    ((table.pass last).1.toNat, (table.pass last).2.map UInt32.toNat) =
      ExactStream.divideDown last.toNat 0 (table.map UInt32.toNat) :=
  divideDown_exact (by norm_num) h (by simp) fun term _ _ => table.remainder_le_word term

end Whole

end Remainders

end DecimalPi
