import DecimalPi.Event

/-!
# Audit Against the Reference

The groups of a run are compared with the leading decimal digits of `π`, which are known
beforehand and do not come from the expansion of this library. They are compared as far as both
go. The last group of a run is not to be trusted: the terms that were given up may still have
changed it. It is left out, however many digits it is written with.

## Names in the program

* `reference`: `PI_DIGITS`;
* `audit`, with `auditEvents` for what it logs: `verify`.
-/

namespace DecimalPi

/-! ## Reference digits -/

/-- The first eight hundred decimal digits of `π`, the leading `3` included, fifty in a
row. -/
def referenceRows : List String :=
  [ "31415926535897932384626433832795028841971693993751",
    "05820974944592307816406286208998628034825342117067",
    "98214808651328230664709384460955058223172535940812",
    "84811174502841027019385211055596446229489549303819",
    "64428810975665933446128475648233786783165271201909",
    "14564856692346034861045432664821339360726024914127",
    "37245870066063155881748815209209628292540917153643",
    "67892590360011330530548820466521384146951941511609",
    "43305727036575959195309218611738193261179310511854",
    "80744623799627495673518857527248912279381830119491",
    "29833673362440656643086021394946395224737190702179",
    "86094370277053921717629317675238467481846766940513",
    "20005681271452635608277857713427577896091736371787",
    "21468440901224953430146549585371050792279689258923",
    "54201995611212902196086403441815981362977477130996",
    "05187072113499999983729780499510597317328160963185" ]

/-- The reference digits, one row after the other. -/
def reference : List Char :=
  referenceRows.flatMap String.toList

/-! ## Audit -/

/-- Where two texts differ. -/
structure Difference where
  /-- Characters in front of the difference. -/
  position : Nat
  /-- The character that should be there. -/
  expected : Char
  /-- The character that is there. -/
  actual : Char
deriving DecidableEq, Repr

/-- The first difference of two texts in the part that both of them cover, if there is one;
`position` is the number of characters in front of that part. -/
def firstDifference? (position : Nat) : (actual expected : List Char) → Option Difference
  | a :: actual, e :: expected =>
    if a = e then firstDifference? (position + 1) actual expected
    else some { position, expected := e, actual := a }
  | _, _ => none

/-- The digits that an audit looks at: those of all groups but the last. -/
def trustedDigits (groups : List Group) : List Char :=
  Group.concat groups.dropLast

/-- Compares groups with the reference. -/
def audit (groups : List Group) : Except Fault Unit :=
  match firstDifference? 0 (trustedDigits groups) reference with
  | none => .ok ()
  | some difference =>
    .error (.wrongDigit difference.position difference.expected difference.actual)

/-- The events of an audit: the group that is left out and, if all is well, how many digits
were compared. Where there are no groups nothing is compared. -/
def auditEvents (groups : List Group) : List Event :=
  match groups.getLast? with
  | none => []
  | some last =>
    .lastGroupSkipped last ::
      match audit groups with
      | .ok () => [.digitsVerified (min (trustedDigits groups).length reference.length)]
      | .error _ => []

end DecimalPi
