import DecimalPi.Group

/-!
# Outcomes of Runs

A run ends because every group was produced, because it was cancelled or because its time
was over. Its outcome is that reason together with the groups produced until then.

## Names in the program

* `StopReason`: `StopReason`, with `Timeout` for `timedOut`;
* `Outcome`, `Outcome.isComplete` and `Outcome.text`: `RunOutcome`, `is_complete` and `render`.
-/

namespace DecimalPi

/-- Why a run ended. -/
inductive StopReason where
  /-- Every group was produced. -/
  | completed
  /-- The run was cancelled. -/
  | cancelled
  /-- The time for the run was over. -/
  | timedOut
deriving DecidableEq, Repr

/-- The name by which a reason is reported. -/
def StopReason.name : StopReason → String
  | .completed => "Completed"
  | .cancelled => "Cancelled"
  | .timedOut => "Timeout"

/-- What a run produced and why it ended. -/
structure Outcome where
  /-- The groups that were produced, in order. -/
  groups : List Group
  /-- Why the run ended. -/
  stop : StopReason
deriving DecidableEq, Repr

namespace Outcome

/-- Whether every group was produced. -/
def isComplete (outcome : Outcome) : Bool :=
  outcome.stop = .completed

/-- The digits of all groups without separators. -/
def digits (outcome : Outcome) : List Char :=
  Group.concat outcome.groups

/-- The digits as a text. -/
def text (outcome : Outcome) : String :=
  String.ofList outcome.digits

end Outcome

end DecimalPi
