import DecimalPi.Extent

/-!
# Digit Groups

The expansion is produced in groups, each one digit in base ten thousand. A group is written
with four decimal places; one that is too large for them, as happens when a carry runs over,
is written in full. Groups that follow one another are written without anything between
them.

## Names in the program

* `Group`: `DigitGroup`, with `value` and what it displays as `digits` here.
-/

namespace DecimalPi

/-- A digit of the expansion in base ten thousand, before carries are resolved: any value
that a word can hold. -/
structure Group where
  /-- The number that the group stands for. -/
  value : UInt64
deriving DecidableEq, Repr

namespace Group

/-- The decimal digits of a group, padded with zeros on the left. -/
def digits (group : Group) : List Char :=
  List.leftpad digitsPerGroup.toNat '0' (Nat.toDigits 10 group.value.toNat)

/-- The text of a group. -/
def text (group : Group) : String :=
  String.ofList group.digits

/-- The digits of a list of groups, one group after the other. -/
def concat (groups : List Group) : List Char :=
  groups.flatMap digits

/-- No groups have no digits. -/
@[simp]
theorem concat_nil : concat [] = [] := rfl

/-- The digits of the first group come first. -/
@[simp]
theorem concat_cons (group : Group) (groups : List Group) :
    concat (group :: groups) = group.digits ++ concat groups := by
  simp [concat]

/-- The digits of two lists of groups follow one another. -/
@[simp]
theorem concat_append (first second : List Group) :
    concat (first ++ second) = concat first ++ concat second := by
  simp [concat]

end Group

end DecimalPi
