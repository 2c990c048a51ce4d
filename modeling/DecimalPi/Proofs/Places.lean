import DecimalPi.Group
import Mathlib.Algebra.Order.Ring.Nat
import Mathlib.Tactic.NormNum

/-!
# Decimal places

The decimal places of a number as characters, a fixed number of them. Texts of digits that are
cut into blocks are easier to compare in this form than as what is left after padding: a block
of places is again made of places, of a number with fewer of them.

## Main definitions

* `places`: the last decimal places of a number.

## Main results

* `places_add`: places come apart into higher and lower ones;
* `ofDigitChars_places`: read as a numeral, they give back what the number has in them;
* `Group.digits_eq_places`: a group below ten thousand is written as its four places;
* `Group.ofDigitChars_digits`: what is written for a group can be read again;
* `Group.length_concat`: how many characters groups take.
-/

namespace DecimalPi

/-- The last `width` decimal places of a number, the higher ones first. -/
def places : (width number : ℕ) → List Char
  | 0, _ => []
  | width + 1, number => Nat.digitChar (number / 10 ^ width % 10) :: places width number

@[simp]
theorem places_zero (number : ℕ) : places 0 number = [] := rfl

theorem places_succ (width number : ℕ) :
    places (width + 1) number =
      Nat.digitChar (number / 10 ^ width % 10) :: places width number := rfl

@[simp]
theorem length_places (width number : ℕ) : (places width number).length = width := by
  induction width with
  | zero => rfl
  | succ width ih => rw [places_succ, List.length_cons, ih]

/-- The places of zero are zeros. -/
theorem places_of_zero (width : ℕ) : places width 0 = List.replicate width '0' := by
  induction width with
  | zero => rfl
  | succ width ih =>
    rw [places_succ, ih, Nat.zero_div, List.replicate_succ]
    rfl

/-- Higher places come before the lower ones. -/
theorem places_add (width below number : ℕ) :
    places (width + below) number = places width (number / 10 ^ below) ++ places below number := by
  induction width with
  | zero => rw [Nat.zero_add, places_zero, List.nil_append]
  | succ width ih =>
    rw [Nat.add_right_comm, places_succ, ih, places_succ, List.cons_append,
      Nat.div_div_eq_div_mul, ← pow_add, Nat.add_comm below width]

/-- Higher places do not matter. -/
theorem places_mod {width above : ℕ} (h : width ≤ above) (number : ℕ) :
    places width (number % 10 ^ above) = places width number := by
  induction width with
  | zero => rfl
  | succ width ih =>
    obtain ⟨more, rfl⟩ := Nat.exists_eq_add_of_le h
    have hplace : number % 10 ^ (width + 1 + more) / 10 ^ width % 10 =
        number / 10 ^ width % 10 := by
      rw [Nat.add_assoc, pow_add, Nat.mod_mul_right_div_self,
        Nat.mod_mod_of_dvd _ (dvd_pow_self 10 (by omega))]
    rw [places_succ, ih (by omega), hplace, places_succ]

/-- The first digit of a numeral counts as much as the others have places for. -/
theorem ofDigitChars_digitChar_cons {digit : ℕ} (h : digit < 10) (text : List Char) :
    Nat.ofDigitChars 10 (Nat.digitChar digit :: text) 0 =
      10 ^ text.length * digit + Nat.ofDigitChars 10 text 0 := by
  rw [Nat.ofDigitChars_cons_digitChar_of_lt_ten h, Nat.ofDigitChars_eq_ofDigitChars_zero,
    Nat.mul_zero, Nat.zero_add]

/-- Places read as a numeral. -/
theorem ofDigitChars_places (width number : ℕ) :
    Nat.ofDigitChars 10 (places width number) 0 = number % 10 ^ width := by
  induction width with
  | zero => rw [places_zero, Nat.ofDigitChars_nil, pow_zero, Nat.mod_one]
  | succ width ih =>
    rw [places_succ, ofDigitChars_digitChar_cons (Nat.mod_lt _ (by norm_num)), length_places, ih,
      Nat.mod_pow_succ, Nat.add_comm]

/-- A numeral that is padded with zeros shows its places. -/
theorem leftpad_toDigits {width number : ℕ} (hwidth : 1 ≤ width) (h : number < 10 ^ width) :
    List.leftpad width '0' (Nat.toDigits 10 number) = places width number := by
  induction width, hwidth using Nat.le_induction generalizing number with
  | base =>
    rw [pow_one] at h
    rw [Nat.toDigits_of_lt_base h, places_succ, places_zero, pow_zero, Nat.div_one,
      Nat.mod_eq_of_lt h]
    rfl
  | succ width _ ih =>
    have hlast : places 1 number = [Nat.digitChar (number % 10)] := by
      rw [places_succ, places_zero, pow_zero, Nat.div_one]
    rw [places_add, pow_one, hlast]
    -- The last place comes off the end, unless it is all there is.
    rcases Nat.lt_or_ge number 10 with hlt | hge
    · rw [Nat.toDigits_of_lt_base hlt, Nat.div_eq_of_lt hlt, Nat.mod_eq_of_lt hlt,
        places_of_zero, List.leftpad]
      simp
    · have hquotient : number / 10 < 10 ^ width := by
        rw [Nat.div_lt_iff_lt_mul (by norm_num), ← pow_succ]
        exact h
      rw [Nat.toDigits_of_base_le (by norm_num) hge, ← ih hquotient, List.leftpad, List.leftpad]
      simp

namespace Group

theorem isDigit_of_mem_digits {group : Group} {character : Char} (h : character ∈ group.digits) :
    character.isDigit := by
  rw [digits, List.leftpad, List.mem_append] at h
  rcases h with hzero | hdigit
  · rw [List.eq_of_mem_replicate hzero]
    rfl
  · exact Nat.isDigit_of_mem_toDigits (Nat.zero_lt_succ 9) le_rfl hdigit

/-- A group that is not too large for them is written with four places. -/
theorem digits_eq_places {group : Group} (h : group.value.toNat < 10000) :
    group.digits = places 4 group.value.toNat :=
  leftpad_toDigits (by decide) h

/-- Read as a numeral, what is written for a group gives back the group. -/
theorem ofDigitChars_digits (group : Group) :
    Nat.ofDigitChars 10 group.digits 0 = group.value.toNat := by
  rw [digits, List.leftpad, Nat.ofDigitChars_append, Nat.ofDigitChars_replicate_zero,
    Nat.mul_zero, Nat.ofDigitChars_ten_toDigits]

theorem four_le_length_digits (group : Group) : 4 ≤ group.digits.length := by
  rw [digits, List.length_leftpad]
  exact le_max_left _ _

/-- The smallest group that needs a fifth place. -/
theorem digits_of_eq_tenThousand {group : Group} (h : group.value.toNat = 10000) :
    group.digits = ['1', '0', '0', '0', '0'] := by
  rw [digits, h]
  decide

/-- A group that is not above ten thousand takes a fifth character if it reaches that. -/
theorem length_digits {group : Group} (h : group.value.toNat ≤ 10000) :
    group.digits.length = 4 + if group.value.toNat = 10000 then 1 else 0 := by
  rcases Nat.lt_or_eq_of_le h with hlt | heq
  · rw [digits_eq_places hlt, length_places, if_neg hlt.ne]
  · rw [digits_of_eq_tenThousand heq, if_pos heq]
    rfl

theorem length_concat {groups : List Group} (h : ∀ group ∈ groups, group.value.toNat ≤ 10000) :
    (concat groups).length =
      4 * groups.length + groups.countP fun group => group.value.toNat = 10000 := by
  induction groups with
  | nil => rfl
  | cons group groups ih =>
    have hfirst := length_digits (h group List.mem_cons_self)
    have hrest := ih fun group hgroup => h group (List.mem_cons_of_mem _ hgroup)
    rw [concat_cons, List.length_append, hfirst, hrest, List.length_cons, List.countP_cons]
    simp only [decide_eq_true_eq]
    omega

end Group

end DecimalPi
