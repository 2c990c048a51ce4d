import DecimalPi.CommandLine.Misuse
import DecimalPi.Run.Plan

/-!
# Reading the Command Line

Arguments are read one by one, and the first thing that is wrong ends the reading. An
argument `--` makes all that follow it plain words, and no plain word is expected except as
the value of an option.

An option that takes a value is open from where it is named until it is closed, and only
then is its value looked at. It is closed by the next option, by the end of the command line,
or at once if its value comes in the same argument. A word that means nothing closes no
option, so it is reported before anything that is wrong with the open one.

What is read are options. The number of digits may be any signed number there; only a positive
one makes a plan.

## Names in the program

* `Options`: `Args`;
* `Options.check`, `Options.count` and `Options.plan`: `validate`, `digit_count` and
  `to_run_config`;
* `CommandLine.parse`: `parse`, as it is derived from the attributes of `Args`.
-/

namespace DecimalPi

/-! ## Options -/

/-- What a command line asks for. -/
structure Options where
  /-- Digits to produce. -/
  digits : Int64 := defaultDigits.toInt64
  /-- The time for the run in milliseconds, if it is limited. -/
  timeout : Option UInt64 := none
  /-- Whether the digits are compared with the reference. -/
  audited : Bool := false
deriving DecidableEq, Repr

namespace Options

/-- The number of digits asked for, which has to be positive. -/
def count (options : Options) : Except Fault UInt64 :=
  if options.digits ≤ 0 then
    .error (.nonPositiveCount options.digits)
  else
    .ok options.digits.toUInt64

/-- Checks that what is asked can be planned. -/
def check (options : Options) : Except Fault Unit :=
  discard options.count

/-- The plan for what is asked. -/
def plan (options : Options) : Except Fault Plan := do
  return { digits := ← options.count, timeout := options.timeout, audited := options.audited }

end Options

end DecimalPi

/-! ## Reading -/

namespace DecimalPi.CommandLine

/-- Why reading ended before the options were known. -/
inductive Halt where
  /-- Help was asked for. -/
  | help
  /-- Something is wrong. -/
  | misuse (what : Misuse)
deriving DecidableEq, Repr

/-- An option that is open. -/
structure OpenSetter where
  /-- The option. -/
  setter : Setter
  /-- Its value, as soon as there is one. -/
  value : Option String
deriving DecidableEq, Repr

/-- What was read so far. -/
structure Reading where
  /-- The number of digits, if it was given. -/
  digits : Option Int64 := none
  /-- The time for the run, if it was given. -/
  timeout : Option UInt64 := none
  /-- Whether the comparison with the reference was asked for. -/
  audited : Bool := false
  /-- The option that is open. -/
  opened : Option OpenSetter := none
  /-- Whether only plain words may follow. -/
  wordsOnly : Bool := false
deriving DecidableEq, Repr

namespace Reading

/-- Gives an option its value, which it can be given only once. -/
def record (reading : Reading) (setter : Setter) (value : String) : Except Halt Reading :=
  match setter with
  | .digits =>
    if reading.digits.isSome then
      .error (.misuse (.repeatedSetter .digits))
    else
      match Literal.readSigned value.toList with
      | .ok digits => .ok { reading with digits := some digits }
      | .error reason => .error (.misuse (.invalidValue .digits value reason))
  | .timeout =>
    if reading.timeout.isSome then
      .error (.misuse (.repeatedSetter .timeout))
    else
      match Literal.readUnsigned value.toList with
      | .ok timeout => .ok { reading with timeout := some timeout }
      | .error reason => .error (.misuse (.invalidValue .timeout value reason))

/-- Closes the open option. -/
def close (reading : Reading) : Except Halt Reading :=
  match reading.opened with
  | none => .ok reading
  | some { setter, value := none } => .error (.misuse (.missingValue setter))
  | some { setter, value := some value } => { reading with opened := none }.record setter value

/-- Takes up an option with the value that came in the same argument, if one did; otherwise
the option stays open. -/
def take (reading : Reading) (setter : Setter) (value : Option String) :
    Except Halt Reading := do
  let reading ← reading.close
  match value with
  | some value => reading.record setter value
  | none => return { reading with opened := some { setter, value := none } }

/-- Takes up the comparison with the reference, which can be asked for only once. -/
def takeAudit (reading : Reading) : Except Halt Reading := do
  let reading ← reading.close
  if reading.audited then
    .error (.misuse (.repeatedSwitch .audit))
  else
    return { reading with audited := true }

/-- Takes up the call for help. -/
def takeHelp (reading : Reading) : Except Halt Reading := do
  let _ ← reading.close
  .error .help

/-- Takes up a plain word: the value of the open option, if that still waits for one. -/
def takeWord (reading : Reading) (word : String) : Except Halt Reading :=
  match reading.opened with
  | some { setter, value := none } =>
    .ok { reading with opened := some { setter, value := some word } }
  | _ => .error (.misuse (.unexpectedArgument word))

/-- Whether an option still waits for its value. -/
def awaits (reading : Reading) (setter : Setter) : Bool :=
  reading.opened = some { setter, value := none }

end Reading

/-- A form that an argument can have. -/
inductive Form where
  /-- The mark that makes all that follows plain words. -/
  | mark
  /-- A long option: its name and what follows the first `=`. -/
  | long (name : String) (value : Option String)
  /-- A short option: its letter and what follows that. -/
  | short (letter : Char) (rest : List Char)
  /-- A plain word. -/
  | word
deriving DecidableEq, Repr

/-- Splits the text of a long option at the first `=`. -/
def splitLong (text : List Char) : Form :=
  let name := String.ofList (text.takeWhile (· ≠ '='))
  match text.dropWhile (· ≠ '=') with
  | [] => .long name none
  | _ :: value => .long name (some (String.ofList value))

/-- The form of an argument. -/
def formOf : List Char → Form
  | ['-', '-'] => .mark
  | '-' :: '-' :: text => splitLong text
  | '-' :: letter :: rest => .short letter rest
  | _ => .word

/-- Whether a text is an exponent: nothing, or the letter `e` and digits. -/
def isExponent : List Char → Bool
  | [] => true
  | letter :: digits =>
    (letter = 'e' || letter = 'E') && !digits.isEmpty && digits.all Char.isDigit

/-- Whether a text is a number without a sign: digits, then perhaps a point and digits, of
which there may be none, then perhaps an exponent. -/
def isNumber (text : List Char) : Bool :=
  !(text.takeWhile Char.isDigit).isEmpty &&
    match text.dropWhile Char.isDigit with
    | '.' :: fraction => isExponent (fraction.dropWhile Char.isDigit)
    | rest => isExponent rest

/-- The value that follows the letter of a short option in the same argument, if one does: all
that is there, except for a leading `=`. -/
def gluedValue : List Char → Option String
  | [] => none
  | '=' :: value => some (String.ofList value)
  | value => some (String.ofList value)

namespace Reading

/-- Reads a long option. -/
def stepLong (reading : Reading) (name : String) (value : Option String) :
    Except Halt Reading :=
  match name, value with
  | "digits", value => reading.take .digits value
  | "timeout-ms", value => reading.take .timeout value
  | "verify", some value => .error (.misuse (.unexpectedValue .audit value))
  | "verify", none => reading.takeAudit
  | "help", some value => .error (.misuse (.unexpectedValue .help value))
  | "help", none => reading.takeHelp
  | name, _ => .error (.misuse (.unexpectedArgument ("--" ++ name)))

/-- Reads a short option. -/
def stepShort (reading : Reading) (letter : Char) (rest : List Char) : Except Halt Reading :=
  match letter with
  | 'n' => reading.take .digits (gluedValue rest)
  | 'h' => reading.takeHelp
  | letter => .error (.misuse (.unexpectedArgument (String.ofList ['-', letter])))

/-- Reads one argument. A negative number is the value of the number of digits, where that
waits for one, and not a short option. -/
def step (reading : Reading) (argument : String) : Except Halt Reading :=
  if reading.wordsOnly then
    .error (.misuse (.unexpectedArgument argument))
  else
    match formOf argument.toList with
    | .mark => .ok { reading with wordsOnly := true }
    | .long name value => reading.stepLong name value
    | .short letter rest =>
      -- Only the number of digits may be negative, so only there is a sign no option.
      if reading.awaits .digits && isNumber (letter :: rest) then
        reading.takeWord argument
      else
        reading.stepShort letter rest
    | .word => reading.takeWord argument

/-- The options, with the usual number of digits if none was given. -/
def options (reading : Reading) : Options where
  digits := reading.digits.getD defaultDigits.toInt64
  timeout := reading.timeout
  audited := reading.audited

end Reading

/-- Reads a command line, without the name of the program. -/
def parse (arguments : List String) : Except Halt Options := do
  let reading ← arguments.foldlM Reading.step {}
  return (← reading.close).options

end DecimalPi.CommandLine
