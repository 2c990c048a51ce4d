import DecimalPi.CommandLine.Parser
import DecimalPi.Extent
import DecimalPi.Proofs.Output
import DecimalPi.Proofs.Places

/-!
# What is said, and in how many lines

Digits and the numerals in messages hold no line feeds, so a fault of a command line is told in a
single line as it is, and no such line is the beginning of any digits. Which fault it is can be
told from the line: none of these begins like a message about a wrong digit or a cancellation.

## Main definitions

* `Options.objection`: what is wrong with options when no digits come of them.

## Main results

* `Group.newline_notMem_concat` and `Fault.newline_notMem_message`: texts without line feeds;
* `Options.not_objection_prefix_wrongDigit` and `Options.not_objection_prefix_cancelled`: texts
  with which no objection can be confused.
-/

namespace DecimalPi

/-! ## Numerals -/

theorem newline_notMem_of_isDigit {text : List Char} (h : ∀ character ∈ text, character.isDigit) :
    '\n' ∉ text :=
  fun hmem => absurd (h _ hmem) (by decide)

theorem isDigit_of_mem_repr {number : ℕ} {character : Char} (h : character ∈ number.repr.toList) :
    character.isDigit := by
  rw [Nat.toList_repr] at h
  exact Nat.isDigit_of_mem_toDigits (Nat.zero_lt_succ 9) le_rfl h

theorem newline_notMem_repr (number : ℕ) : '\n' ∉ number.repr.toList :=
  newline_notMem_of_isDigit fun _ => isDigit_of_mem_repr

theorem newline_notMem_repr_int (number : ℤ) : '\n' ∉ number.repr.toList := by
  cases number with
  | ofNat number => exact newline_notMem_repr number
  | negSucc number =>
    change '\n' ∉ ("-" ++ (number + 1).repr).toList
    rw [String.toList_append, List.mem_append, not_or]
    exact ⟨by decide, newline_notMem_repr (number + 1)⟩

/-- A numeral begins with a digit. -/
theorem exists_repr_eq_cons (number : ℕ) :
    ∃ first rest, number.repr.toList = first :: rest ∧ first.isDigit := by
  have hne : number.repr.toList ≠ [] := by
    rw [Nat.toList_repr]
    exact Nat.toDigits_ne_nil
  obtain ⟨first, rest, hcons⟩ := List.exists_cons_of_ne_nil hne
  have hfirst : first ∈ number.repr.toList := by
    rw [hcons]
    exact List.mem_cons_self
  exact ⟨first, rest, hcons, isDigit_of_mem_repr hfirst⟩

namespace Group

theorem newline_notMem_concat (groups : List Group) : '\n' ∉ concat groups := by
  refine newline_notMem_of_isDigit fun character hmem => ?_
  obtain ⟨group, -, hgroup⟩ := List.mem_flatMap.mp hmem
  exact isDigit_of_mem_digits hgroup

end Group

/-! ## Messages -/

namespace Fault

/-- Only a message about a wrong digit can have line feeds, those that it quotes. -/
theorem newline_notMem_message {fault : Fault}
    (h : ∀ position expected actual, fault ≠ .wrongDigit position expected actual) :
    '\n' ∉ fault.message.toList := by
  cases fault with
  | nonPositiveCount requested =>
    change '\n' ∉ ("digit count must be positive (got " ++ requested.toInt.repr ++ ")").toList
    simp only [String.toList_append, List.mem_append, not_or]
    exact ⟨⟨by decide, newline_notMem_repr_int _⟩, by decide⟩
  | tooManyDigits count =>
    change '\n' ∉ (count.toNat.repr ++ " digits exceed the generator's integer widths").toList
    simp only [String.toList_append, List.mem_append, not_or]
    exact ⟨newline_notMem_repr _, by decide⟩
  | noRoom entries =>
    change '\n' ∉ ("cannot allocate a remainder table of " ++ entries.toNat.repr ++
      " entries").toList
    simp only [String.toList_append, List.mem_append, not_or]
    exact ⟨⟨by decide, newline_notMem_repr _⟩, by decide⟩
  | wrongDigit position expected actual => exact absurd rfl (h position expected actual)

/-! A message begins with letters that tell it from the others. -/

theorem exists_message_nonPositiveCount (requested : Int64) :
    ∃ rest, (nonPositiveCount requested).message.toList = "digit ".toList ++ 'c' :: rest := by
  refine ⟨"ount must be positive (got ".toList ++ (requested.toInt.repr.toList ++ ")".toList), ?_⟩
  change ("digit count must be positive (got " ++ requested.toInt.repr ++ ")").toList = _
  simp

theorem tooManyDigits_not_isPrefix (count : UInt64) {text : List Char}
    (h : ∀ first ∈ text.head?, first.isDigit = false) :
    ¬ (tooManyDigits count).message.toList <+: text := by
  obtain ⟨first, rest, hnumber, hdigit⟩ := exists_repr_eq_cons count.toNat
  change ¬ (count.toNat.repr ++ " digits exceed the generator's integer widths").toList <+: text
  rw [String.toList_append, hnumber, List.cons_append]
  rintro ⟨more, rfl⟩
  have hother := h first rfl
  rw [hdigit] at hother
  contradiction

theorem exists_message_wrongDigit (position : ℕ) (expected actual : Char) :
    ∃ first rest, (wrongDigit position expected actual).message.toList =
      "digit ".toList ++ first :: rest ∧ first.isDigit := by
  obtain ⟨first, rest, hnumber, hdigit⟩ := exists_repr_eq_cons position
  refine ⟨first, rest ++ (" is '" ++ toString actual ++ "', expected '" ++ toString expected ++
    "'").toList, ?_, hdigit⟩
  change ("digit " ++ position.repr ++ " is '" ++ toString actual ++ "', expected '" ++
    toString expected ++ "'").toList = _
  simp only [String.toList_append, hnumber, List.append_assoc, List.cons_append]

end Fault

namespace Options

/-- What is wrong when no digits come of the options: their number is not positive, the
remainders for so many do not fit, or the time is over. -/
def objection (options : Options) : String :=
  if options.digits ≤ 0 then
    (Fault.nonPositiveCount options.digits).message
  else
    match entriesFor options.digits.toUInt64 with
    | .error _ => (Fault.tooManyDigits options.digits.toUInt64).message
    | .ok _ => "timeout reached before all groups were generated"

theorem objection_cases (options : Options) :
    options.objection = (Fault.nonPositiveCount options.digits).message ∨
      options.objection = (Fault.tooManyDigits options.digits.toUInt64).message ∨
      options.objection = "timeout reached before all groups were generated" := by
  rw [objection]
  split_ifs
  · exact .inl rfl
  · cases entriesFor options.digits.toUInt64 with
    | error fault => exact .inr (.inl rfl)
    | ok entries => exact .inr (.inr rfl)

theorem newline_notMem_objection (options : Options) : '\n' ∉ options.objection.toList := by
  rcases options.objection_cases with h | h | h <;> rw [h]
  · exact Fault.newline_notMem_message (by simp)
  · exact Fault.newline_notMem_message (by simp)
  · decide

/-- No objection is the beginning of a message about a cancellation. -/
theorem not_objection_prefix_cancelled (options : Options) :
    ¬ options.objection.toList <+: "generation cancelled".toList := by
  rcases options.objection_cases with h | h | h
  · obtain ⟨rest, hmessage⟩ := Fault.exists_message_nonPositiveCount options.digits
    rw [h, hmessage]
    simp
  · rw [h]
    exact Fault.tooManyDigits_not_isPrefix _ (by simp)
  · rw [h]
    simp

/-- No objection is the beginning of a message about a wrong digit. -/
theorem not_objection_prefix_wrongDigit (options : Options) (position : ℕ)
    (expected actual : Char) :
    ¬ options.objection.toList <+: (Fault.wrongDigit position expected actual).message.toList := by
  obtain ⟨first, rest, hwrong, hdigit⟩ := Fault.exists_message_wrongDigit position expected actual
  rw [hwrong]
  rcases options.objection_cases with h | h | h
  · obtain ⟨rest, hmessage⟩ := Fault.exists_message_nonPositiveCount options.digits
    -- after the common word a letter stands against a digit
    rw [h, hmessage, List.prefix_append_right_inj, List.cons_prefix_cons]
    rintro ⟨rfl, -⟩
    contradiction
  · rw [h]
    exact Fault.tooManyDigits_not_isPrefix _ (by simp)
  · rw [h]
    simp

end Options

end DecimalPi
