import DecimalPi.Proofs.CommandLine.Grammar
import Mathlib.Data.List.TakeWhile

/-!
# The forms of arguments

Which arguments name an option, which of these bring a value along, and which can only be the value
of an option that waits for one. The form of an argument, as it is found by looking at its first
characters, tells these apart.

## Main definitions

* `Names`: an argument that names an option with a value;
* `IsValue`: an argument that an option takes for its value.

## Main results

* `text_of_formOf`: the text of an argument from its form;
* `Names.exists_spelling` and `Names.exists_spelling_apart`: options that are named are spelled;
* `Denotes.isValue` and `Denotes.gluedValue_eq`: literals can be values.
-/

namespace DecimalPi.CommandLine

/-- The argument names an option, and the value comes along if there is one. -/
inductive Names : String → Setter → Option String → Prop
  /-- The long name. -/
  | long {setter : Setter} : Names setter.longName setter none
  /-- The long name and the value. -/
  | joined {setter : Setter} {value : String} :
    Names (setter.longName ++ "=" ++ value) setter (some value)
  /-- The letter. -/
  | letter : Names "-n" .digits none
  /-- The letter and the value, which is not empty and does not begin with `=`. -/
  | letterGlued {value : String} (glued : gluedValue value.toList = some value) :
    Names ("-n" ++ value) .digits (some value)
  /-- The letter, `=` and the value. -/
  | letterJoined {value : String} : Names ("-n=" ++ value) .digits (some value)

/-- The argument is the value of an option that waits for one. -/
inductive IsValue : Setter → String → Prop
  /-- Any word can be a value. -/
  | word {setter : Setter} {argument : String} (form : formOf argument.toList = .word) :
    IsValue setter argument
  /-- A negative number can be a number of digits. -/
  | negative {argument : String} {letter : Char} {rest : List Char}
    (form : formOf argument.toList = .short letter rest) (number : isNumber (letter :: rest)) :
    IsValue .digits argument

/-! ## From the form to the text -/

section Form

variable {text : List Char}

theorem exists_splitLong_eq (text : List Char) :
    ∃ name value, splitLong text = .long name value := by
  rw [splitLong]
  split
  next => exact ⟨_, _, rfl⟩
  next => exact ⟨_, _, rfl⟩

/-- The name of a long option ends at the first `=`. -/
theorem text_of_splitLong_eq {name : String} {value : Option String}
    (h : splitLong text = .long name value) :
    text = name.toList ++ value.elim [] fun value => '=' :: value.toList := by
  have hsplit := List.takeWhile_append_dropWhile (p := (· ≠ '=')) (l := text)
  have hhead := List.head?_dropWhile_not (· ≠ '=') text
  rw [splitLong] at h
  split at h
  next hrest =>
    obtain ⟨rfl, rfl⟩ := Form.long.inj h
    rw [hrest] at hsplit
    rw [String.toList_ofList, Option.elim_none, hsplit]
  next first rest hrest =>
    obtain ⟨rfl, rfl⟩ := Form.long.inj h
    rw [hrest] at hsplit hhead
    have hfirst : first = '=' := by simpa using hhead
    rw [hfirst] at hsplit
    rw [Option.elim_some, String.toList_ofList, String.toList_ofList, hsplit]

/-- All that the form of an argument can tell about its text. -/
theorem text_of_formOf (text : List Char) :
    match formOf text with
    | .mark => text = ['-', '-']
    | .long name value =>
      text = ("--" ++ name).toList ++ value.elim [] fun value => '=' :: value.toList
    | .short letter rest => text = '-' :: letter :: rest
    | .word => True := by
  fun_cases formOf text with
  | case1 => rfl
  | case2 text =>
    obtain ⟨name, value, hform⟩ := exists_splitLong_eq text
    rw [hform]
    simp [text_of_splitLong_eq hform]
  | case3 => rfl
  | case4 => trivial

/-! ## From the text to the form -/

theorem formOf_longName (setter : Setter) :
    formOf setter.longName.toList = .long setter.name none := by
  cases setter <;> simp [Setter.longName, Setter.name, formOf, splitLong]

theorem formOf_joined (setter : Setter) (value : String) :
    formOf (setter.longName ++ "=" ++ value).toList = .long setter.name (some value) := by
  cases setter <;> simp [Setter.longName, Setter.name, formOf, splitLong]

theorem formOf_letter (rest : List Char) : formOf ('-' :: 'n' :: rest) = .short 'n' rest := by
  cases rest <;> rfl

theorem formOf_of_ne_dash {first : Char} (h : first ≠ '-') : formOf (first :: text) = .word := by
  rw [formOf.eq_4]
  all_goals simp [h]

theorem formOf_minus {first : Char} (h : first ≠ '-') (rest : List Char) :
    formOf ('-' :: first :: rest) = .short first rest := by
  rw [formOf.eq_3]
  all_goals simp [h]

end Form

/-! ## Options that are named -/

namespace Names

variable {argument value : String} {setter : Setter}

/-- An option that comes with its value is spelled in one argument. -/
theorem exists_spelling (h : Names argument setter (some value)) :
    ∃ spelling : Spelling setter, spelling.arguments value = [argument] := by
  cases h with
  | joined => exact ⟨.joined, rfl⟩
  | letterGlued => exact ⟨.letterGlued, rfl⟩
  | letterJoined => exact ⟨.letterJoined, rfl⟩

/-- An option that comes without a value is spelled in two arguments. -/
theorem exists_spelling_apart (h : Names argument setter none) (value : String) :
    ∃ spelling : Spelling setter, spelling.arguments value = [argument, value] := by
  cases h with
  | long => exact ⟨.apart, rfl⟩
  | letter => exact ⟨.letterApart, rfl⟩

theorem of_long {setter : Setter} {value : Option String}
    (h : argument.toList =
      setter.longName.toList ++ value.elim [] fun value => '=' :: value.toList) :
    Names argument setter value := by
  cases value with
  | none =>
    rw [Option.elim_none, List.append_nil, String.toList_inj] at h
    exact h ▸ .long
  | some value =>
    have hargument : argument = setter.longName ++ "=" ++ value := by
      rw [← String.toList_inj, h, String.toList_append, String.toList_append, List.append_assoc]
      rfl
    exact hargument ▸ .joined

theorem of_letter {rest : List Char} (h : argument.toList = '-' :: 'n' :: rest) :
    Names argument .digits (gluedValue rest) := by
  fun_cases gluedValue rest with
  | case1 =>
    have hargument : argument = "-n" := String.toList_inj.mp h
    exact hargument ▸ .letter
  | case2 value =>
    have hargument : argument = "-n=" ++ String.ofList value := by
      simp [← String.toList_inj, h]
    exact hargument ▸ .letterJoined
  | case3 value hne hequal =>
    have hargument : argument = "-n" ++ String.ofList rest := by
      simp [← String.toList_inj, h]
    refine hargument ▸ .letterGlued ?_
    rw [String.toList_ofList, gluedValue.eq_3 _ hne hequal]

end Names

/-! ## Values -/

theorem formOf_eq_word {text : List Char} {number : ℕ} (h : Literal.IsUnsigned text number) :
    formOf text = .word := by
  cases h with
  | plain numeral =>
    obtain ⟨first, rest, rfl⟩ := List.exists_cons_of_ne_nil numeral.ne_nil
    exact formOf_of_ne_dash (numeral.ne_of_eq_cons rfl)
  | plus => exact formOf_of_ne_dash (by decide)

theorem isNumber_of_isNumeral {text : List Char} {number : ℕ}
    (h : Literal.IsNumeral text number) : isNumber text := by
  have htake : text.takeWhile Char.isDigit = text := List.takeWhile_eq_self_iff.mpr h.isDigit
  have hdrop : text.dropWhile Char.isDigit = [] := List.dropWhile_eq_nil_iff.mpr h.isDigit
  simp [isNumber, htake, hdrop, h.ne_nil, isExponent]

/-- A negative number has the form of a short option, but is a number all the same. -/
theorem formOf_negative {text : List Char} {number : ℕ} (h : Literal.IsNumeral text number) :
    ∃ letter rest, formOf ('-' :: text) = .short letter rest ∧ isNumber (letter :: rest) := by
  obtain ⟨letter, rest, rfl⟩ := List.exists_cons_of_ne_nil h.ne_nil
  exact ⟨letter, rest, formOf_minus (h.ne_of_eq_cons rfl) rest, isNumber_of_isNumeral h⟩

namespace Denotes

variable {value : String} {setter : Setter} {setting : Setting}

theorem isValue (h : Denotes setter value setting) : IsValue setter value := by
  cases h with
  | timeout literal => exact .word (formOf_eq_word literal)
  | @digits value number literal =>
    generalize number.toInt = number, htext : value.toList = text at literal
    cases literal with
    | nonneg literal => exact .word (htext ▸ formOf_eq_word literal)
    | minus numeral =>
      obtain ⟨letter, rest, hform, hnumber⟩ := formOf_negative numeral
      exact .negative (htext ▸ hform) hnumber

theorem gluedValue_eq (h : Denotes .digits value setting) :
    gluedValue value.toList = some value := by
  cases h with
  | digits literal =>
    obtain ⟨first, rest, htext, hfirst⟩ := literal.exists_eq_cons
    have hequal : first ≠ '=' := by
      rintro rfl
      exact absurd hfirst (by decide)
    rw [htext, gluedValue.eq_3 _ (by simp) (by simp [hequal]), ← htext, String.ofList_toList]

end Denotes

end DecimalPi.CommandLine
