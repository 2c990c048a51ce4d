import DecimalPi.Program

/-!
# The Command

The program with a real clock and a real output. What the program writes goes to the standard
output, and nothing else does; the events go to the standard error, as many of them as the
environment variable `RUST_LOG` asks for.
-/

namespace DecimalPi.Main

/-- Writes a text to the standard output and flushes it; the reason if that fails. -/
def write (text : List Char) : IO (Option String) := do
  let out ← IO.getStdout
  try
    out.putStr (String.ofList text)
    out.flush
    return none
  catch
    | .resourceExhausted _ code details => return some s!"{details} (os error {code})"
    | .resourceVanished code details => return some s!"{details} (os error {code})"
    | failure => return some (toString failure)

/-- How the time that a run took is shown. -/
def milliseconds (elapsed : Nat) : String :=
  s!"{elapsed}ms"

/-- How many events the environment asks to show: none below errors if it asks for nothing. -/
def verbosity : IO Verbosity := do
  let wanted ← IO.getEnv "RUST_LOG"
  return (wanted.bind Verbosity.ofName?).getD (.upTo .error)

end DecimalPi.Main

open DecimalPi in
/-- Runs the program. -/
def main (arguments : List String) : IO UInt32 := do
  let start ← IO.monoMsNow
  let clock (_ : Nat) : IO Nat := return (← IO.monoMsNow) - start
  let report ← Program.run clock none Main.write arguments
  let err ← IO.getStderr
  for event in (← Main.verbosity).select report.events do
    err.putStrLn (event.level.name ++ " " ++ event.text Main.milliseconds)
  err.putStr report.complaint
  return UInt32.ofNat report.status
