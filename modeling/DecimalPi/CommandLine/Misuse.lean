import DecimalPi.Literal
import DecimalPi.Output.Terminal

/-!
# Misuse of the Command Line

What can be wrong with a command line, how it is said, and the help that the program gives.

## Names in the program

* `Setter` and `Switch`: the options in `Args`, by the attributes `long` and `short`;
* `help`: its `about`, and the comments of its fields.
-/

namespace DecimalPi.CommandLine

open Terminal (visible)

/-- An option that takes a value. -/
inductive Setter where
  /-- The number of digits. -/
  | digits
  /-- The time for the run. -/
  | timeout
deriving DecidableEq, Repr

/-- How an option is shown: by its long name and the name of its value. -/
def Setter.shown : Setter → String
  | .digits => "--digits <DIGITS>"
  | .timeout => "--timeout-ms <TIMEOUT_MS>"

/-- An option that takes no value. -/
inductive Switch where
  /-- Compare the digits with the reference. -/
  | audit
  /-- Give help and do nothing else. -/
  | help
deriving DecidableEq, Repr

/-- How an option is shown: by its long name. -/
def Switch.shown : Switch → String
  | .audit => "--verify"
  | .help => "--help"

/-- Something wrong with a command line. -/
inductive Misuse where
  /-- An argument that means nothing here. -/
  | unexpectedArgument (argument : String)
  /-- An option that takes a value and got none. -/
  | missingValue (setter : Setter)
  /-- A value that its option cannot take. -/
  | invalidValue (setter : Setter) (value : String) (reason : Literal.Refusal)
  /-- An option with a value that was given twice. -/
  | repeatedSetter (setter : Setter)
  /-- An option without a value that was given twice. -/
  | repeatedSwitch (switch : Switch)
  /-- A value for an option that takes none. -/
  | unexpectedValue (switch : Switch) (value : String)
deriving DecidableEq, Repr

namespace Misuse

/-- The wording of a misuse. What was written on the command line is repeated as far as a
terminal shows it, so that the wording cannot control the terminal it is read on. -/
def wording (interrupted : Terminal.Interrupted) : Misuse → String
  | unexpectedArgument argument =>
    s!"error: unexpected argument '{visible interrupted argument}' found"
  | missingValue setter =>
    s!"error: a value is required for '{setter.shown}' but none was supplied"
  | invalidValue setter value reason =>
    s!"error: invalid value '{visible interrupted value}' for '{setter.shown}': " ++
      reason.message
  | repeatedSetter setter =>
    s!"error: the argument '{setter.shown}' cannot be used multiple times"
  | repeatedSwitch switch =>
    s!"error: the argument '{switch.shown}' cannot be used multiple times"
  | unexpectedValue switch value =>
    s!"error: unexpected value '{visible interrupted value}' for '{switch.shown}' found; " ++
      "no more were expected"

/-- The message of a misuse, in which a sequence is over where it is interrupted. -/
def message (what : Misuse) : String :=
  what.wording .abandoned

/-- What the program says of a misuse on its way out, in which a sequence that is interrupted
goes on later. -/
def complaint (what : Misuse) : String :=
  what.wording .suspended ++ "\n"

end Misuse

/-- The lines of the help. -/
def helpLines : List String :=
  [ "Print decimal digits of π in 4-digit groups",
    "",
    "Usage: spigot [OPTIONS]",
    "",
    "Options:",
    "  -n, --digits <DIGITS>          Number of decimal digits to generate, rounded up to " ++
      "whole 4-digit groups [default: 800]",
    "      --timeout-ms <TIMEOUT_MS>  Give up if generation takes longer than this many " ++
      "milliseconds",
    "      --verify                   Check the digits against the built-in reference " ++
      "expansion of π",
    "  -h, --help                     Print help" ]

/-- The text of the help. -/
def help : String :=
  String.join (helpLines.map fun line => line ++ "\n")

end DecimalPi.CommandLine
