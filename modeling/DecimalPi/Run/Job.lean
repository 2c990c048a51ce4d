import DecimalPi.Audit
import DecimalPi.DigitStream.Basic
import DecimalPi.Run.Plan

/-!
# Jobs and Runs

A job is a plan with the stream that will carry it out. Running it emits one group after the
other, and before each group, as well as after the last, looks whether it has to stop. A run
that was not interrupted is complete; if the plan says so, it is then audited.

The look is an effect of any monad, so that it can consult a clock, and it is told how many
groups there are so far, so that a schedule of interruptions can stand in for the world.

## Names in the program

* `Job`, `Job.prepare` and `Job.interruption?`: `Runner`, its `new` and its `should_stop`;
* `Job.runWith`, with `DigitStream.drive` for the loop in it: the `run` of a `Runner`, up to the
  audit;
* `Run.result` and `Run.events`: what `run` returns, and what it logs.
-/

namespace DecimalPi

/-- A plan with the stream that will carry it out. -/
structure Job where
  /-- What is wanted. -/
  plan : Plan
  /-- The stream of digits. -/
  stream : DigitStream
deriving DecidableEq, Repr

/-- The course of a run. -/
structure Run where
  /-- The groups emitted, in order. -/
  emissions : List Emission
  /-- Why the run was stopped, if it did not end by itself. -/
  interruption : Option Interruption
  /-- The stream that is left. -/
  stream : DigitStream
deriving DecidableEq, Repr

namespace Run

/-- The same run with one more group in front. -/
def cons (emission : Emission) (run : Run) : Run :=
  { run with emissions := emission :: run.emissions }

/-- The groups produced, in order. -/
def groups (run : Run) : List Group :=
  run.emissions.map Emission.group

/-- The outcome of a run. -/
def outcome (run : Run) : Outcome where
  groups := run.groups
  stop :=
    match run.interruption with
    | none => .completed
    | some interruption => interruption.reason

/-- Whether a run is to be audited under a plan: an interrupted run never is. -/
def isAudited (plan : Plan) (run : Run) : Bool :=
  plan.audited && run.outcome.isComplete

/-- The result of a run under a plan. -/
def result (plan : Plan) (run : Run) : Except Fault Outcome :=
  if run.isAudited plan then
    match audit run.groups with
    | .ok () => .ok run.outcome
    | .error fault => .error fault
  else
    .ok run.outcome

/-- The events of a run under a plan: those of its groups, its interruption and its audit. -/
def events (plan : Plan) (run : Run) : List Event :=
  run.emissions.map Emission.event ++
    (run.interruption.map (Interruption.event run.stream.length)).toList ++
    if run.isAudited plan then auditEvents run.groups else []

end Run

/-- Emits up to `left` groups, looking for an interruption before each and after the last;
`produced` groups are there already. -/
@[specialize]
def DigitStream.drive {m : Type → Type} [Monad m] (look : Nat → m (Option Interruption)) :
    (produced left : Nat) → DigitStream → m Run
  | produced, 0, stream => do
    return { emissions := [], interruption := ← look produced, stream }
  | produced, left + 1, stream => do
    match ← look produced with
    | some interruption =>
      return { emissions := [], interruption := some interruption, stream }
    | none =>
      match stream.next? with
      | none => return { emissions := [], interruption := none, stream }
      | some (emission, stream) =>
        return (← drive look (produced + 1) left stream).cons emission

namespace Job

/-- Prepares a job; `room` is the number of entries that a table may have, where there is
such a limit. -/
def prepare (room : Option UInt64) (plan : Plan) : Except Fault Job := do
  return { plan, stream := ← DigitStream.start room plan.digits }

/-- The events of preparing a job, given what came of it. -/
def prepareEvents (plan : Plan) (prepared : Except Fault Job) : List Event :=
  DigitStream.startEvents plan.digits ++
    match prepared with
    | .ok job =>
      [.jobPrepared plan.digits job.stream.length (UInt64.ofNat job.stream.table.size)]
    | .error _ => []

/-- The interruption of a job that was or was not cancelled and has taken `elapsed`
milliseconds so far. -/
def interruption? (job : Job) (cancelled : Bool) (elapsed : Nat) : Option Interruption :=
  job.plan.interruption? cancelled elapsed

/-- The events of looking for an interruption. -/
def interruptionEvents (job : Job) (cancelled : Bool) (elapsed : Nat) : List Event :=
  (job.interruption? cancelled elapsed).toList.map
    (Interruption.event job.stream.length)

/-- Runs a job, looking for interruptions as told. -/
@[specialize]
def runWith {m : Type → Type} [Monad m] (look : Nat → m (Option Interruption)) (job : Job) :
    m Run :=
  job.stream.drive look 0 job.stream.remaining.toNat

/-- Runs a job under a fixed schedule of interruptions: `schedule j` is what a look finds when
there are `j` groups. -/
def run (schedule : Nat → Option Interruption) (job : Job) : Run :=
  Id.run (job.runWith fun produced => pure (schedule produced))

end Job

end DecimalPi
