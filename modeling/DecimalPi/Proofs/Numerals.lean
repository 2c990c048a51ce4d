import DecimalPi.Literal
import DecimalPi.Proofs.Places
import Mathlib.Data.Nat.Log
import Mathlib.Order.Basic

/-!
# Numerals and numbers

A text of decimal digits stands for a number, and together with its length it can be found again
from that number: it consists of the last places of it, as many as it has characters. Where a word
can hold the number, the text is also what a literal is made of, and reading the literal yields
the number.

## Main results

* `length_toDigits`: how many digits a number has;
* `ofDigitChars_lt` and `places_ofDigitChars`: the number of a text, and the text of the number;
* `Literal.readDigits_eq_ok` and `Literal.readUnsigned_eq_ok`: digits read as a literal.
-/

namespace DecimalPi

theorem exists_digitChar_of_isDigit {character : Char} (h : character.isDigit) :
    ∃ digit < 10, character = Nat.digitChar digit := by
  have hrange : 48 ≤ character.toNat ∧ character.toNat ≤ 57 := Char.isDigit_iff_toNat.mp h
  refine ⟨character.toNat - 48, by omega, ?_⟩
  rw [← Char.toNat_inj, Nat.toNat_digitChar_of_lt_ten (by omega)]
  omega

/-- The digits of a number are one more than its logarithm. -/
theorem length_toDigits (number : ℕ) : (Nat.toDigits 10 number).length = Nat.log 10 number + 1 := by
  rcases Nat.eq_zero_or_pos number with rfl | hpos
  · rfl
  · refine eq_of_forall_ge_iff fun width => ?_
    rcases Nat.eq_zero_or_pos width with rfl | hwidth
    · have := Nat.length_toDigits_pos (b := 10) (n := number)
      omega
    · rw [Nat.length_toDigits_le_iff (by norm_num) hwidth, Nat.succ_le_iff,
        Nat.log_lt_iff_lt_pow (by norm_num) hpos.ne']

section Digits

variable {text : List Char} (h : ∀ character ∈ text, character.isDigit)

include h

/-- As many digits stand for numbers below that power of ten. -/
theorem ofDigitChars_lt : Nat.ofDigitChars 10 text 0 < 10 ^ text.length := by
  induction text with
  | nil => rw [Nat.ofDigitChars_nil]; exact Nat.one_pos
  | cons character text ih =>
    obtain ⟨digit, hdigit, rfl⟩ := exists_digitChar_of_isDigit (h character List.mem_cons_self)
    have hrest := ih fun other hother => h other (List.mem_cons_of_mem _ hother)
    rw [ofDigitChars_digitChar_cons hdigit, List.length_cons, pow_succ]
    have hfirst : 10 ^ text.length * digit ≤ 10 ^ text.length * 9 :=
      Nat.mul_le_mul_left _ (Nat.le_of_lt_succ hdigit)
    omega

/-- A text of digits consists of the last places of its number. -/
theorem places_ofDigitChars : places text.length (Nat.ofDigitChars 10 text 0) = text := by
  induction text with
  | nil => rfl
  | cons character text ih =>
    obtain ⟨digit, hdigit, rfl⟩ := exists_digitChar_of_isDigit (h character List.mem_cons_self)
    have hdigits := fun other hother => h other (List.mem_cons_of_mem _ hother)
    have hlt := ofDigitChars_lt hdigits
    rw [ofDigitChars_digitChar_cons hdigit, List.length_cons, places_succ]
    -- the first digit is above the places of the others
    have hfirst : (10 ^ text.length * digit + Nat.ofDigitChars 10 text 0) / 10 ^ text.length % 10 =
        digit := by
      rw [Nat.mul_add_div (Nat.pow_pos (Nat.succ_pos 9)), Nat.div_eq_of_lt hlt, Nat.add_zero,
        Nat.mod_eq_of_lt hdigit]
    rw [hfirst, ← places_mod le_rfl, Nat.mul_add_mod, Nat.mod_eq_of_lt hlt, ih hdigits]

end Digits

namespace Literal

theorem digitValue?_digitChar {digit : ℕ} (h : digit < 10) :
    digitValue? (Nat.digitChar digit) = some digit := by
  rw [digitValue?, if_pos (by rw [Nat.isDigit_digitChar]; exact decide_eq_true h), Option.some_inj]
  exact Nat.toNat_digitChar_sub_48_of_lt_ten h

/-- Digits are read as their number, if it is within the limit. -/
theorem readDigits_eq_ok {limit : ℕ} {text : List Char}
    (h : ∀ character ∈ text, character.isDigit) (outOfRange : Refusal) {value : ℕ}
    (hlimit : Nat.ofDigitChars 10 text value ≤ limit) :
    readDigits limit outOfRange value text = .ok (Nat.ofDigitChars 10 text value) := by
  induction text generalizing value with
  | nil => rfl
  | cons character text ih =>
    obtain ⟨digit, hdigit, rfl⟩ := exists_digitChar_of_isDigit (h character List.mem_cons_self)
    rw [Nat.ofDigitChars_cons_digitChar_of_lt_ten hdigit] at hlimit ⊢
    -- what has been read so far is not above what will have been read in the end
    have hpart : 10 * value + digit ≤ Nat.ofDigitChars 10 text (10 * value + digit) := by
      rw [Nat.ofDigitChars_eq_ofDigitChars_zero]
      exact (Nat.le_mul_of_pos_left _ (Nat.pow_pos (Nat.succ_pos 9))).trans
        (Nat.le_add_right _ _)
    rw [readDigits, digitValue?_digitChar hdigit]
    simp only [if_pos (hpart.trans hlimit)]
    exact ih (fun other hother => h other (List.mem_cons_of_mem _ hother)) hlimit

/-- A text of digits is an unsigned literal, if a word can hold its number. -/
theorem readUnsigned_eq_ok {text : List Char} (hne : text ≠ [])
    (h : ∀ character ∈ text, character.isDigit)
    (hlimit : Nat.ofDigitChars 10 text 0 ≤ maxUnsigned) :
    readUnsigned text = .ok (UInt64.ofNat (Nat.ofDigitChars 10 text 0)) := by
  obtain ⟨first, rest, rfl⟩ := List.exists_cons_of_ne_nil hne
  have hsign : first ≠ '+' := by
    rintro rfl
    exact absurd (h '+' List.mem_cons_self) (by decide)
  have hread := readDigits_eq_ok h .tooLarge hlimit
  rw [readUnsigned.eq_3 _ (by simp) (fun digits heq => hsign (List.cons.inj heq).1),
    readMagnitude.eq_2 _ _ _ (by simp), hread]
  rfl

end Literal

end DecimalPi
