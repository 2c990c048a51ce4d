import DecimalPi.Run.Outcome

/-!
# Events

Facts about an expansion in progress that are worth a line in a log. Events are values: an
operation that causes some says which and in what order, and whoever runs it decides which
of them to show.

## Names in the program

* `Event.text` and `Event.level`: the lines that are logged, and the levels they are logged at;
* `Verbosity`: the levels that the variable `RUST_LOG` can ask for.
-/

namespace DecimalPi

/-- How much attention an event deserves. -/
inductive Level where
  /-- Something failed. -/
  | error
  /-- Something looks wrong. -/
  | warn
  /-- A step of the work was taken. -/
  | info
  /-- A detail of a step. -/
  | debug
  /-- A detail of every single group. -/
  | trace
deriving DecidableEq, Repr

namespace Level

/-- The more attention a level deserves, the lower its rank. -/
def rank : Level → Nat
  | error => 0
  | warn => 1
  | info => 2
  | debug => 3
  | trace => 4

/-- The name of a level in a log. -/
def name : Level → String
  | error => "ERROR"
  | warn => "WARN"
  | info => "INFO"
  | debug => "DEBUG"
  | trace => "TRACE"

end Level

/-- How many events a log shows: those of one level and above, or none at all. -/
inductive Verbosity where
  /-- Nothing is shown. -/
  | off
  /-- Events of this level and of all that deserve more attention are shown. -/
  | upTo (level : Level)
deriving DecidableEq, Repr

namespace Verbosity

/-- Whether a log shows events of a level. -/
def shows : Verbosity → Level → Bool
  | off, _ => false
  | upTo threshold, level => level.rank ≤ threshold.rank

/-- The verbosity of a given name. -/
def ofName? : String → Option Verbosity
  | "off" => some off
  | "error" => some (upTo .error)
  | "warn" => some (upTo .warn)
  | "info" => some (upTo .info)
  | "debug" => some (upTo .debug)
  | "trace" => some (upTo .trace)
  | _ => none

end Verbosity

/-- Something that happened while digits were produced. -/
inductive Event where
  /-- The table for an expansion was measured. -/
  | tableMeasured (entries count groups : UInt64)
  /-- A group was emitted by the pass that started at `cursor`. -/
  | groupEmitted (cursor : UInt64) (group : Group)
  /-- A job for an expansion was prepared. -/
  | jobPrepared (count groups entries : UInt64)
  /-- A job was found to be cancelled. -/
  | foundCancelled (remaining : UInt64)
  /-- The time for a job was found to be over, so many milliseconds after its start. -/
  | foundTimedOut (elapsed : Nat)
  /-- The last group was left out of a comparison with the reference. -/
  | lastGroupSkipped (group : Group)
  /-- So many digits were compared with the reference and agree. -/
  | digitsVerified (count : Nat)
  /-- The program turns to preparing a job. -/
  | preparing
  /-- The program turns to running its job. -/
  | running
  /-- The program has run its job. -/
  | finished
  /-- The reason why a run ended. -/
  | stopped (reason : StopReason)
  /-- The number of groups that a run produced. -/
  | groupsProduced (count : Nat)
  /-- The time that a run took, in milliseconds. -/
  | timeTaken (elapsed : Nat)
deriving DecidableEq, Repr

namespace Event

/-- The attention that an event deserves. -/
def level : Event → Level
  | tableMeasured .. | lastGroupSkipped .. | digitsVerified .. => .debug
  | groupEmitted .. => .trace
  | jobPrepared .. | foundCancelled .. | foundTimedOut .. | preparing | running | finished
  | stopped .. | groupsProduced .. | timeTaken .. => .info

/-- The wording of an event; `showTime` is how the time that a run took is shown. -/
def text (showTime : Nat → String) : Event → String
  | tableMeasured entries count groups =>
    s!"Remainder table: {entries} entries for {count} digits ({groups} groups)"
  | groupEmitted cursor group => s!"k={cursor} group={group.text}"
  | jobPrepared count groups entries =>
    s!"Generating {count} digits ({groups} groups, table length {entries})"
  | foundCancelled remaining => s!"Cancelled with {remaining} groups remaining"
  | foundTimedOut elapsed => s!"Timeout reached: {elapsed} ms"
  | lastGroupSkipped group => s!"Skipping final group {group.text}"
  | digitsVerified count => s!"Verified {count} digits against reference"
  | preparing => "=== Creating Generator ==="
  | running => "=== Running Generator ==="
  | finished => "=== Generation Complete ==="
  | stopped reason => s!"Stop reason: {reason.name}"
  | groupsProduced count => s!"Groups: {count}"
  | timeTaken elapsed => s!"Elapsed: {showTime elapsed}"

end Event

/-- The events that a log of the given verbosity shows. -/
def Verbosity.select (verbosity : Verbosity) (events : List Event) : List Event :=
  events.filter fun event => verbosity.shows event.level

end DecimalPi
