import DecimalPi.Proofs.Numerals

/-!
# Integer literals

An integer literal is described here without a reader: decimal digits of which there is one at
least, with a sign in front of them or without one. Every literal stands for one number, and the
reader of literals finds exactly those whose number its word can hold.

## Main definitions

* `Literal.IsNumeral`: a text of digits and its number;
* `Literal.IsUnsigned` and `Literal.IsSigned`: literals without and with a negative sign.

## Main results

* `Literal.readDigits_eq_ok_iff`: what is read of digits, where the number stays within a limit;
* `Literal.readUnsigned_eq_ok_iff` and `Literal.readSigned_eq_ok_iff`: what the readers accept;
* `Literal.isUnsigned_repr` and `Literal.isSigned_repr`: every number has a literal.
-/

namespace DecimalPi.Literal

/-- A text of decimal digits, one at least, that stand for the number. -/
structure IsNumeral (text : List Char) (number : ℕ) : Prop where
  ne_nil : text ≠ []
  isDigit : ∀ character ∈ text, character.isDigit
  number_eq : Nat.ofDigitChars 10 text 0 = number

/-- A literal without a negative sign: a numeral, with or without the sign `+`. -/
inductive IsUnsigned : List Char → ℕ → Prop
  /-- There is no sign. -/
  | plain {text : List Char} {number : ℕ} (numeral : IsNumeral text number) :
    IsUnsigned text number
  /-- There is the sign `+`. -/
  | plus {text : List Char} {number : ℕ} (numeral : IsNumeral text number) :
    IsUnsigned ('+' :: text) number

/-- A literal that may have a negative sign. -/
inductive IsSigned : List Char → ℤ → Prop
  /-- There is no negative sign. -/
  | nonneg {text : List Char} {number : ℕ} (literal : IsUnsigned text number) :
    IsSigned text number
  /-- There is the sign `-`. -/
  | minus {text : List Char} {number : ℕ} (numeral : IsNumeral text number) :
    IsSigned ('-' :: text) (-number)

variable {text : List Char}

/-! ## The shape of a literal -/

/-- A numeral does not begin with a character that is no digit, such as a sign. -/
theorem IsNumeral.ne_of_eq_cons {number : ℕ} {first other : Char} {rest : List Char}
    (h : IsNumeral (first :: rest) number) (hother : other.isDigit = false) : first ≠ other := by
  rintro rfl
  rw [h.isDigit first List.mem_cons_self] at hother
  contradiction

theorem IsUnsigned.ne_nil {number : ℕ} (h : IsUnsigned text number) : text ≠ [] := by
  cases h with
  | plain numeral => exact numeral.ne_nil
  | plus => exact List.cons_ne_nil _ _

theorem IsSigned.ne_nil {number : ℤ} (h : IsSigned text number) : text ≠ [] := by
  cases h with
  | nonneg literal => exact literal.ne_nil
  | minus => exact List.cons_ne_nil _ _

/-- No character but a sign or a digit can be the first one of a literal. -/
theorem IsSigned.exists_eq_cons {number : ℤ} (h : IsSigned text number) :
    ∃ first rest, text = first :: rest ∧ (first = '+' ∨ first = '-' ∨ first.isDigit) := by
  have hnumeral {text : List Char} {number : ℕ} (h : IsNumeral text number) :
      ∃ first rest, text = first :: rest ∧ first.isDigit := by
    obtain ⟨first, rest, rfl⟩ := List.exists_cons_of_ne_nil h.ne_nil
    exact ⟨first, rest, rfl, h.isDigit first List.mem_cons_self⟩
  cases h with
  | nonneg literal =>
    cases literal with
    | plain numeral =>
      obtain ⟨first, rest, htext, hdigit⟩ := hnumeral numeral
      exact ⟨first, rest, htext, .inr (.inr hdigit)⟩
    | plus => exact ⟨'+', _, rfl, .inl rfl⟩
  | minus => exact ⟨'-', _, rfl, .inr (.inl rfl)⟩

theorem isUnsigned_plus_iff {number : ℕ} :
    IsUnsigned ('+' :: text) number ↔ IsNumeral text number := by
  constructor
  · rintro (hnumeral | hnumeral)
    · exact absurd rfl (hnumeral.ne_of_eq_cons (show '+'.isDigit = false from rfl))
    · exact hnumeral
  · exact .plus

theorem isUnsigned_iff_of_ne {first : Char} (hplus : first ≠ '+') {number : ℕ} :
    IsUnsigned (first :: text) number ↔ IsNumeral (first :: text) number := by
  constructor
  · rintro (hnumeral | hnumeral)
    · exact hnumeral
    · exact absurd rfl hplus
  · exact .plain

theorem isSigned_minus_iff {number : ℤ} :
    IsSigned ('-' :: text) number ↔ ∃ magnitude : ℕ, IsNumeral text magnitude ∧
      -magnitude = number := by
  constructor
  · rintro (hliteral | hnumeral)
    · have hnumeral := (isUnsigned_iff_of_ne (by decide)).mp hliteral
      exact absurd rfl (hnumeral.ne_of_eq_cons (show '-'.isDigit = false from rfl))
    · exact ⟨_, hnumeral, rfl⟩
  · rintro ⟨magnitude, hnumeral, rfl⟩
    exact .minus hnumeral

theorem isSigned_iff_of_ne {first : Char} (hminus : first ≠ '-') {number : ℤ} :
    IsSigned (first :: text) number ↔ ∃ magnitude : ℕ, IsUnsigned (first :: text) magnitude ∧
      magnitude = number := by
  constructor
  · rintro (hliteral | hnumeral)
    · exact ⟨_, hliteral, rfl⟩
    · exact absurd rfl hminus
  · rintro ⟨magnitude, hliteral, rfl⟩
    exact .nonneg hliteral

/-! ## What the readers accept -/

theorem map_eq_ok_iff {ε α β : Type} {f : α → β} {x : Except ε α} {b : β} :
    f <$> x = .ok b ↔ ∃ a, x = .ok a ∧ f a = b := by
  cases x with
  | error e => simp
  | ok a => simp

/-- Digits are read on from a number as long as the limit is not passed, and nothing else is. -/
theorem readDigits_eq_ok_iff {limit value number : ℕ} {outOfRange : Refusal}
    (hvalue : value ≤ limit) :
    readDigits limit outOfRange value text = .ok number ↔
      (∀ character ∈ text, character.isDigit) ∧ Nat.ofDigitChars 10 text value = number ∧
        number ≤ limit := by
  constructor
  · intro h
    induction text generalizing value with
    | nil =>
      obtain rfl : value = number := Except.ok.inj h
      exact ⟨by simp, rfl, hvalue⟩
    | cons character text ih =>
      by_cases hdigit : character.isDigit
      · obtain ⟨digit, hlt, rfl⟩ := exists_digitChar_of_isDigit hdigit
        rw [readDigits, digitValue?_digitChar hlt] at h
        simp only at h
        split at h
        next hle =>
          obtain ⟨hrest, hnumber, hlimit⟩ := ih hle h
          rw [Nat.ofDigitChars_cons_digitChar_of_lt_ten hlt]
          exact ⟨List.forall_mem_cons.mpr ⟨hdigit, hrest⟩, hnumber, hlimit⟩
        next => contradiction
      · rw [readDigits, digitValue?, if_neg hdigit] at h
        contradiction
  · rintro ⟨hdigits, rfl, hlimit⟩
    exact readDigits_eq_ok hdigits outOfRange hlimit

theorem readMagnitude_eq_ok_iff {limit number : ℕ} {outOfRange : Refusal} :
    readMagnitude limit outOfRange text = .ok number ↔
      IsNumeral text number ∧ number ≤ limit := by
  cases text with
  | nil =>
    constructor
    · intro h
      contradiction
    · rintro ⟨hnumeral, -⟩
      exact absurd rfl hnumeral.ne_nil
  | cons character text =>
    rw [readMagnitude.eq_2 _ _ _ (by simp), readDigits_eq_ok_iff (Nat.zero_le limit)]
    constructor
    · rintro ⟨hdigits, hnumber, hlimit⟩
      exact ⟨⟨List.cons_ne_nil _ _, hdigits, hnumber⟩, hlimit⟩
    · rintro ⟨hnumeral, hlimit⟩
      exact ⟨hnumeral.isDigit, hnumeral.number_eq, hlimit⟩

/-- Numerals are read as words, as long as these can hold the numbers that are `wanted`. -/
theorem map_readMagnitude_eq_ok_iff {Word : Type} {limit : ℕ} {outOfRange : Refusal}
    {ofNumber : ℕ → Word} {word : Word} {wanted : ℕ → Prop}
    (h : ∀ number, number ≤ limit ∧ ofNumber number = word ↔ wanted number) :
    ofNumber <$> readMagnitude limit outOfRange text = .ok word ↔
      ∃ number, IsNumeral text number ∧ wanted number := by
  simp only [map_eq_ok_iff, readMagnitude_eq_ok_iff, ← h, and_assoc]

theorem ofNat_eq_iff_unsigned {word : UInt64} (number : ℕ) :
    number ≤ maxUnsigned ∧ UInt64.ofNat number = word ↔ number = word.toNat := by
  constructor
  · rintro ⟨hle, rfl⟩
    exact (UInt64.toNat_ofNat_of_lt' (Nat.lt_succ_of_le hle)).symm
  · rintro rfl
    exact ⟨Nat.le_of_lt_succ word.toNat_lt, UInt64.ofNat_toNat⟩

theorem ofNat_eq_iff_signed {word : Int64} (number : ℕ) :
    number ≤ maxSigned ∧ Int64.ofNat number = word ↔ number = word.toInt := by
  constructor
  · rintro ⟨hle, rfl⟩
    exact (Int64.toInt_ofNat_of_lt (Nat.lt_succ_of_le hle)).symm
  · intro heq
    have hupper := word.toInt_lt
    have hlt : number < 2 ^ 63 := by omega
    refine ⟨Nat.le_of_lt_succ hlt, Int64.toInt_inj.mp ?_⟩
    rw [Int64.toInt_ofNat_of_lt hlt, heq]

theorem ofInt_neg_eq_iff {word : Int64} (number : ℕ) :
    number ≤ maxSigned + 1 ∧ Int64.ofInt (-number) = word ↔ -number = word.toInt := by
  have hlimit : maxSigned + 1 = 2 ^ 63 := rfl
  rw [hlimit]
  constructor
  · rintro ⟨hle, rfl⟩
    exact (Int64.toInt_ofInt_of_le (by omega) (by omega)).symm
  · intro heq
    have hlower := word.le_toInt
    refine ⟨by omega, Int64.toInt_inj.mp ?_⟩
    rw [Int64.toInt_ofInt_of_le (by omega) (by omega), heq]

/-- The reader of unsigned literals accepts the literals of the numbers that its word can hold. -/
theorem readUnsigned_eq_ok_iff {number : UInt64} :
    readUnsigned text = .ok number ↔ IsUnsigned text number.toNat := by
  rcases text with - | ⟨first, rest⟩
  · constructor
    · intro h
      contradiction
    · intro h
      exact absurd rfl h.ne_nil
  · by_cases hplus : first = '+'
    · subst hplus
      rw [readUnsigned.eq_2, map_readMagnitude_eq_ok_iff ofNat_eq_iff_unsigned,
        isUnsigned_plus_iff, exists_eq_right]
    · rw [readUnsigned.eq_3 _ (by simp) (fun digits heq => hplus (List.cons.inj heq).1),
        map_readMagnitude_eq_ok_iff ofNat_eq_iff_unsigned, isUnsigned_iff_of_ne hplus,
        exists_eq_right]

theorem readSigned_minus :
    readSigned ('-' :: text) =
      (fun number : ℕ => Int64.ofInt (-number)) <$>
        readMagnitude (maxSigned + 1) .tooSmall text := by
  rw [readSigned.eq_2]
  cases readMagnitude (maxSigned + 1) .tooSmall text <;> rfl

/-- The reader of signed literals accepts the literals of the numbers that its word can hold. -/
theorem readSigned_eq_ok_iff {number : Int64} :
    readSigned text = .ok number ↔ IsSigned text number.toInt := by
  rcases text with - | ⟨first, rest⟩
  · constructor
    · intro h
      contradiction
    · intro h
      exact absurd rfl h.ne_nil
  · by_cases hminus : first = '-'
    · subst hminus
      rw [readSigned_minus, map_readMagnitude_eq_ok_iff ofInt_neg_eq_iff, isSigned_minus_iff]
    · rw [isSigned_iff_of_ne hminus]
      by_cases hplus : first = '+'
      · subst hplus
        simp only [readSigned.eq_3, map_readMagnitude_eq_ok_iff ofNat_eq_iff_signed,
          isUnsigned_plus_iff]
      · simp only [readSigned.eq_4 _ (by simp) (fun digits heq => hminus (List.cons.inj heq).1)
          (fun digits heq => hplus (List.cons.inj heq).1), isUnsigned_iff_of_ne hplus,
          map_readMagnitude_eq_ok_iff ofNat_eq_iff_signed]

/-! ## The usual literals -/

theorem isNumeral_repr (number : ℕ) : IsNumeral number.repr.toList number := by
  rw [Nat.repr, String.toList_ofList]
  exact
    { ne_nil := Nat.toDigits_ne_nil
      isDigit := fun _ => Nat.isDigit_of_mem_toDigits (Nat.succ_pos 9) le_rfl
      number_eq := Nat.ofDigitChars_ten_toDigits }

theorem isUnsigned_repr (number : ℕ) : IsUnsigned number.repr.toList number :=
  .plain (isNumeral_repr number)

theorem isSigned_repr (number : ℤ) : IsSigned number.repr.toList number := by
  cases number with
  | ofNat number => exact .nonneg (isUnsigned_repr number)
  | negSucc number =>
    rw [Int.repr, String.toList_append, Int.negSucc_eq]
    exact .minus (isNumeral_repr (number + 1))

end DecimalPi.Literal
