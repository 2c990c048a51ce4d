import DecimalPi.Event
import DecimalPi.Extent

/-!
# Plans for Runs

What is wanted of a run, and the conditions under which it has to stop early. A run is
stopped when it was cancelled or when its time is over, and the first of these wins.

## Names in the program

* `Plan`: `RunConfig`;
* `Plan.interruption?`, with `Interruption.event` for what it logs: `should_stop`.
-/

namespace DecimalPi

/-- What is wanted of a run. -/
structure Plan where
  /-- Digits to produce. -/
  digits : UInt64 := defaultDigits
  /-- The time for the run in milliseconds, if it is limited. -/
  timeout : Option UInt64 := none
  /-- Whether a complete run is compared with the reference. -/
  audited : Bool := false
deriving DecidableEq, Repr

/-- Why a run has to stop early. -/
inductive Interruption where
  /-- The run was cancelled. -/
  | cancelled
  /-- The time for the run is over, so many milliseconds after its start. -/
  | timedOut (elapsed : Nat)
deriving DecidableEq, Repr

namespace Interruption

/-- The reason for which an interrupted run ends. -/
def reason : Interruption → StopReason
  | cancelled => .cancelled
  | timedOut _ => .timedOut

/-- The event of finding an interruption when `remaining` groups are still to come. -/
def event (remaining : UInt64) : Interruption → Event
  | cancelled => .foundCancelled remaining
  | timedOut elapsed => .foundTimedOut elapsed

end Interruption

/-- The interruption of a run that was or was not cancelled and has taken `elapsed`
milliseconds so far. -/
def Plan.interruption? (plan : Plan) (cancelled : Bool) (elapsed : Nat) : Option Interruption :=
  if cancelled then
    some .cancelled
  else
    match plan.timeout with
    | some limit => if limit.toNat ≤ elapsed then some (.timedOut elapsed) else none
    | none => none

end DecimalPi
