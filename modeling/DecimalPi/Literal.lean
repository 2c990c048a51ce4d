/-!
# Integer Literals

An integer literal is an optional sign followed by at least one decimal digit. An unsigned
literal takes only the sign `+`; a signed one takes `-` as well. Leading zeros are allowed.

A text is read from left to right and refused at the first character that goes wrong: one
that is no digit, or one whose digit takes the number out of range. At a single character
the first of these wins, so the reader never complains about the size of what is no number.
-/

namespace DecimalPi.Literal

/-- Why a text is no integer literal of the wanted range. -/
inductive Refusal where
  /-- The text is empty. -/
  | empty
  /-- A character is no decimal digit, or a sign stands alone. -/
  | invalidDigit
  /-- The number lies above the range. -/
  | tooLarge
  /-- The number lies below the range. -/
  | tooSmall
deriving DecidableEq, Repr

/-- The wording of a refusal. -/
def Refusal.message : Refusal → String
  | .empty => "cannot parse integer from empty string"
  | .invalidDigit => "invalid digit found in string"
  | .tooLarge => "number too large to fit in target type"
  | .tooSmall => "number too small to fit in target type"

/-- The value of a decimal digit. -/
def digitValue? (c : Char) : Option Nat :=
  if c.isDigit then some (c.toNat - '0'.toNat) else none

/-- Reads digits onto the number `value`, refusing with `outOfRange` the first one that takes
it above `limit`. -/
def readDigits (limit : Nat) (outOfRange : Refusal) : Nat → List Char → Except Refusal Nat
  | value, [] => .ok value
  | value, c :: rest =>
    match digitValue? c with
    | none => .error .invalidDigit
    | some digit =>
      if 10 * value + digit ≤ limit then
        readDigits limit outOfRange (10 * value + digit) rest
      else
        .error outOfRange

/-- Reads the digits of a literal, of which there must be one at least. -/
def readMagnitude (limit : Nat) (outOfRange : Refusal) : List Char → Except Refusal Nat
  | [] => .error .invalidDigit
  | digits => readDigits limit outOfRange 0 digits

/-- The largest unsigned number of 64 bits. -/
abbrev maxUnsigned : Nat := 18446744073709551615

/-- The largest signed number of 64 bits; the smallest one lies one further from zero. -/
abbrev maxSigned : Nat := 9223372036854775807

/-- Reads an unsigned 64-bit literal. -/
def readUnsigned : List Char → Except Refusal UInt64
  | [] => .error .empty
  | '+' :: digits => UInt64.ofNat <$> readMagnitude maxUnsigned .tooLarge digits
  | digits => UInt64.ofNat <$> readMagnitude maxUnsigned .tooLarge digits

/-- Reads a signed 64-bit literal. -/
def readSigned : List Char → Except Refusal Int64
  | [] => .error .empty
  | '-' :: digits => (fun n => Int64.ofInt (-n)) <$> readMagnitude (maxSigned + 1) .tooSmall digits
  | '+' :: digits => Int64.ofNat <$> readMagnitude maxSigned .tooLarge digits
  | digits => Int64.ofNat <$> readMagnitude maxSigned .tooLarge digits

end DecimalPi.Literal
