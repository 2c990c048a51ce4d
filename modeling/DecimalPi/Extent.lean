import DecimalPi.Word

/-!
# Parameters and Extent of an Expansion

The digits come from the series `π / 2 = w₁ + w₂ + w₃ + ⋯` with `w₁ = 1` and
`wᵢ = wᵢ₋₁ · (i - 1) / (2i - 1)`. One pass over the remainders of its terms multiplies what
they stand for by `base` and yields the next digit in that base. A term adds about one
binary place, so fourteen terms pay for the four decimal places of a group, and the
expansion moves on by that many terms with each group.

That settles how many groups a number of digits takes, and how many remainders they need. The
last group may hold more digits than were asked for. The remainders of a term `i` are smaller
than `2i - 1`, so an expansion is refused when twice its table is more than a remainder can
hold.

## Names in the program

* `base`, `digitsPerGroup`, `termsPerGroup`, `seed` and `defaultDigits`: `BASE`,
  `DIGITS_PER_GROUP`, `TERMS_PER_GROUP`, `SEED` and `DIGITS`;
* `Fault`: `SpigotError`, with `InvalidArgument`, `ArithmeticOverflow`, `TableAllocation` and
  `AssertionFailure` in the order of its cases here;
* `groupsFor`: `group_count`;
* `entriesFor`, with `tableSize?` for its arithmetic: `table_len`.
-/

namespace DecimalPi

/-! ## Parameters -/

/-- A group is one digit in this base. -/
abbrev base : UInt64 := 10000

/-- Decimal digits that one group stands for. -/
abbrev digitsPerGroup : UInt64 := 4

/-- Terms of the series that are given up with each group. -/
abbrev termsPerGroup : UInt64 := 14

/-- The remainder every term starts with: it scales the series so that the first group
holds the leading four digits of `π`. -/
abbrev seed : UInt32 := 2000

/-- Digits produced when no other number is asked for. -/
abbrev defaultDigits : UInt64 := 800

/-! ## Faults -/

/-- Why digits cannot be produced, or are not to be trusted. -/
inductive Fault where
  /-- The number of digits asked for is zero or negative. -/
  | nonPositiveCount (requested : Int64)
  /-- The remainders for so many digits would not fit the words that hold them. -/
  | tooManyDigits (count : UInt64)
  /-- There is no room for a table of so many remainders. -/
  | noRoom (entries : UInt64)
  /-- A digit differs from the reference. -/
  | wrongDigit (position : Nat) (expected actual : Char)
deriving DecidableEq, Repr

namespace Fault

/-- The wording of a fault. -/
def message : Fault → String
  | nonPositiveCount requested => s!"digit count must be positive (got {requested})"
  | tooManyDigits count => s!"{count} digits exceed the generator's integer widths"
  | noRoom entries => s!"cannot allocate a remainder table of {entries} entries"
  | wrongDigit position expected actual =>
    s!"digit {position} is '{actual}', expected '{expected}'"

end Fault

/-! ## Groups and entries -/

/-- Groups that `count` digits take. -/
def groupsFor (count : UInt64) : Except Fault UInt64 :=
  if count = 0 then
    .error (.nonPositiveCount 0)
  else if count % digitsPerGroup = 0 then
    .ok (count / digitsPerGroup)
  else
    .ok (count / digitsPerGroup + 1)

/-- Twice the size of a table may be at most this. -/
abbrev largestRemainder : UInt64 := 4294967295

/-- Entries of the table for `groups` groups, if they and the remainders in them fit: one
entry for each term and an unused one in front. -/
def tableSize? (groups : UInt64) : Option UInt64 := do
  let terms ← Word.mul? groups termsPerGroup
  let entries ← Word.add? terms 1
  let doubled ← Word.mul? entries 2
  if doubled ≤ largestRemainder then some entries else none

/-- Entries of the table for `count` digits. -/
def entriesFor (count : UInt64) : Except Fault UInt64 := do
  let groups ← groupsFor count
  match tableSize? groups with
  | some entries => .ok entries
  | none => .error (.tooManyDigits count)

end DecimalPi
