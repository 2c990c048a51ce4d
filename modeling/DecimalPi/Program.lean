import DecimalPi.CommandLine.Parser
import DecimalPi.Output.Sink
import DecimalPi.Run.Job

/-!
# The Program

The program reads its command line, prepares a job, runs it and says how it ended: with all
the digits and nothing else, or with a single line that tells what went wrong. It writes
nothing before the end, so that an incomplete expansion is never seen.

The clock and the writing are effects of any monad: the real ones on a machine, a schedule
and a sink where the program is reasoned about.

## Names in the program

* `Program.run`: `main`;
* `Program.deliver`: `emit` where there are digits, `fault` where something went wrong;
* `Program.success` and `Program.failure`: `EXIT_SUCCESS` and `EXIT_FAULT`.
-/

namespace DecimalPi

/-- How the program ends once its options are known. -/
inductive Ending where
  /-- All the digits are there. -/
  | digits (text : List Char)
  /-- Something went wrong. -/
  | fault (message : String)
deriving DecidableEq, Repr

namespace Ending

/-- The ending for the outcome of a run. -/
def ofOutcome (outcome : Outcome) : Ending :=
  match outcome.stop with
  | .completed => .digits outcome.digits
  | .timedOut => .fault "timeout reached before all groups were generated"
  | .cancelled => .fault "generation cancelled"

/-- What the program writes: the digits as they are, or the first line of what went wrong with
a line end. -/
def written : Ending → List Char
  | digits text => text
  | fault message => firstLine message.toList ++ ['\n']

end Ending

namespace Program

/-- The status of a program that has done what it was asked for. -/
abbrev success : Nat := 0

/-- The status of a program in which something went wrong. -/
abbrev failure : Nat := 1

/-- The status of a program with a command line that it cannot read. -/
abbrev misused : Nat := 2

/-- What is left to be seen of a program, apart from what it wrote. -/
structure Report where
  /-- The status with which it exits. -/
  status : Nat
  /-- What it says on the side when it cannot read its command line or cannot write. -/
  complaint : String := ""
  /-- What happened. -/
  events : List Event := []
deriving DecidableEq, Repr

variable {m : Type → Type} [Monad m]

/-- Runs a prepared job; `clock j` reads the milliseconds since the start when there are `j`
groups. -/
@[specialize]
def runJob (clock : Nat → m Nat) (job : Job) : m (Ending × List Event) := do
  let run ← job.runWith fun produced => return job.interruption? false (← clock produced)
  let elapsed ← clock run.emissions.length
  match run.result job.plan with
  -- A run that fails its audit is not reported as finished.
  | .error fault => return (.fault fault.message, run.events job.plan)
  | .ok outcome =>
    let closing :=
      [.finished, .stopped outcome.stop, .groupsProduced outcome.groups.length,
        .timeTaken elapsed]
    return (.ofOutcome outcome, run.events job.plan ++ closing)

/-- Does what a plan wants. -/
@[specialize]
def carryOut (clock : Nat → m Nat) (room : Option UInt64) (plan : Plan) :
    m (Ending × List Event) := do
  let prepared := Job.prepare room plan
  let opening := .preparing :: Job.prepareEvents plan prepared
  match prepared with
  | .error fault => return (.fault fault.message, opening)
  | .ok job =>
    let (ending, events) ← runJob clock job
    return (ending, opening ++ .running :: events)

/-- Does what the options ask for. -/
@[specialize]
def produce (clock : Nat → m Nat) (room : Option UInt64) (options : Options) :
    m (Ending × List Event) :=
  match options.plan with
  | .error fault => return (.fault fault.message, [])
  | .ok plan => carryOut clock room plan

/-- Writes how the program ended. A failure to write the digits is told on the side; where not
even a fault can be written, nothing more can be told. -/
@[specialize]
def deliver (write : List Char → m (Option String)) (ending : Ending) : m Report := do
  match ending, ← write ending.written with
  | .digits _, none => return { status := success }
  | .digits _, some reason =>
    return { status := failure, complaint := s!"Failed to write digits: {reason}\n" }
  | .fault _, _ => return { status := failure }

/-- Runs the program on its arguments. `write` writes a text and tells the reason if it
cannot. -/
@[specialize]
def run (clock : Nat → m Nat) (room : Option UInt64) (write : List Char → m (Option String))
    (arguments : List String) : m Report :=
  match CommandLine.parse arguments with
  | .error .help => do
    let _ ← write CommandLine.help.toList
    return { status := success }
  | .error (.misuse what) =>
    return { status := misused, complaint := what.complaint }
  | .ok options => do
    let (ending, events) ← produce clock room options
    return { ← deliver write ending with events }

/-- Runs the program with a fixed schedule of clock readings and with a sink to write to. -/
def runTo (clock : Nat → Nat) (room : Option UInt64) (sink : Sink) (arguments : List String) :
    Report × Sink :=
  let write (text : List Char) : StateM Sink (Option String) := fun sink =>
    let (failed, after) := sink.writeText text
    (failed.map SinkFailure.message, after)
  (run (fun produced => pure (clock produced)) room write arguments).run sink

end Program

end DecimalPi
