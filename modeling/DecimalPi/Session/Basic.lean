import DecimalPi.Run.Job
import DecimalPi.Session.Registry

/-!
# Sessions

A session keeps jobs and cancellation tokens under names and carries out commands on them.

A token holds a flag, and so does every job. The flag of a new token or job is its own;
tokens and jobs come to share a flag only by being given one another's. Raising a flag
cancels every job that holds it at that time or later, and no other, and a flag that was
raised stays raised.

A run can raise a flag itself, after a given number of groups. The flag need not be the one
of the job that is run.

## Names in the program

* `Flag`: what the clones of a `CancelToken` share;
* `Command.newJob`, `takeToken`, `giveToken`, `askInterruption` and `runJob`: `new`,
  `cancel_token`, `with_cancel_token`, `should_stop` and `run` of a `Runner`;
* `Command.newToken`, `copyToken`, `cancel` and `askCancelled`: `new`, `clone`, `cancel` and
  `is_cancelled` of a `CancelToken`.
-/

namespace DecimalPi

/-- The identity of a cancellation flag. Flags are numbered in the order in which they are
made. -/
abbrev Flag := Nat

/-- A job together with the flag that cancels it. -/
structure FlaggedJob where
  /-- The job. -/
  job : Job
  /-- The flag that cancels the job. -/
  flag : Flag
deriving DecidableEq, Repr

/-- The intent to raise a flag in the course of a run. -/
structure Cancellation where
  /-- The flag. -/
  flag : Flag
  /-- The number of groups after which the flag is raised; zero counts as one. -/
  after : UInt64
deriving DecidableEq, Repr

/-- Whether the flag is raised when `produced` groups are there. -/
def Cancellation.hasFired (cancellation : Cancellation) (produced : Nat) : Bool :=
  max cancellation.after.toNat 1 ≤ produced

/-- The conditions under which a session works. -/
structure Setting where
  /-- The number of entries that a table may have, if there is such a limit. -/
  room : Option UInt64 := none
  /-- The milliseconds that a run has taken when it has produced so many groups. -/
  clock : Nat → Nat := fun _ => 0

/-- What a session holds. -/
structure Session where
  /-- The jobs that were not run yet, under their names. -/
  jobs : Registry FlaggedJob := {}
  /-- The flags of the tokens, under the names of these. -/
  tokens : Registry Flag := {}
  /-- The flags that were raised. -/
  raised : List Flag := []
  /-- The number of flags that were made. -/
  flagCount : Nat := 0
deriving Repr

/-- A command to a session. -/
inductive Command where
  /-- Prepare a job and file it under a name. -/
  | newJob (name : String) (plan : Plan)
  /-- Make a token and file it under a name. -/
  | newToken (name : String)
  /-- File the flag of a token under a further name. -/
  | copyToken (token name : String)
  /-- File the flag of a job as a token under a name. -/
  | takeToken (job name : String)
  /-- Give the flag of a token to a job, in place of the one it has. -/
  | giveToken (token job : String)
  /-- Raise the flag of a token. -/
  | cancel (token : String)
  /-- Ask whether the flag of a token is raised. -/
  | askCancelled (token : String)
  /-- Ask whether a job has to stop. -/
  | askInterruption (job : String)
  /-- Run a job and forget its name; where a token is given, raise its flag after so many
  groups. -/
  | runJob (job : String) (cancellation : Option (String × UInt64))
deriving DecidableEq, Repr

/-- The response of a session to a command. -/
inductive Response where
  /-- A job was prepared for this plan. -/
  | prepared (plan : Plan)
  /-- The command was carried out. -/
  | done
  /-- Whether the flag is raised. -/
  | cancelled (answer : Bool)
  /-- Why the job has to stop, if it has to. -/
  | interruption (found : Option Interruption)
  /-- The outcome of a run. -/
  | finished (outcome : Outcome)
  /-- The first name in the command that stands for nothing. -/
  | unknownName (name : String)
  /-- The command could not be carried out. -/
  | failed (fault : Fault)
deriving DecidableEq, Repr

/-- A response together with its effects. -/
structure Turn where
  /-- The response. -/
  response : Response
  /-- The events of the command. -/
  events : List Event
  /-- The session after the command. -/
  session : Session

namespace Session

/-- Whether a flag was raised. -/
def isRaised (session : Session) (flag : Flag) : Bool :=
  flag ∈ session.raised

/-- Raises a flag. -/
def raise (session : Session) (flag : Flag) : Session :=
  { session with raised := flag :: session.raised }

/-- Whether a flag is raised when a run has produced so many groups. -/
def isRaisedDuring (session : Session) (cancellation : Option Cancellation)
    (produced : Nat) (flag : Flag) : Bool :=
  session.isRaised flag ||
    cancellation.any fun intent => intent.flag = flag && intent.hasFired produced

/-- Raises the flag of a cancellation if a run with so many groups has come to it. -/
def settle (session : Session) (cancellation : Option Cancellation) (produced : Nat) :
    Session :=
  match cancellation with
  | some intent => if intent.hasFired produced then session.raise intent.flag else session
  | none => session

/-- The course of a job that is run in a session. -/
def course (session : Session) (setting : Setting) (cancellation : Option Cancellation)
    (flagged : FlaggedJob) : Run :=
  flagged.job.run fun produced =>
    flagged.job.interruption?
      (session.isRaisedDuring cancellation produced flagged.flag) (setting.clock produced)

/-- Runs a job that was filed under a name. -/
def runNamed (session : Session) (setting : Setting) (name : String)
    (cancellation : Option Cancellation) : Turn :=
  match session.jobs.find? name with
  | none => { response := .unknownName name, events := [], session }
  | some flagged =>
    -- The name is gone whatever comes of the run.
    let plan := flagged.job.plan
    let session := { session with jobs := session.jobs.remove name }
    let run := session.course setting cancellation flagged
    { response :=
        match run.result plan with
        | .ok outcome => .finished outcome
        | .error fault => .failed fault
      events := run.events plan
      session := session.settle cancellation run.emissions.length }

/-- Carries out a command. -/
def perform (session : Session) (setting : Setting) : Command → Turn
  | .newJob name plan =>
    let prepared := Job.prepare setting.room plan
    let events := Job.prepareEvents plan prepared
    match prepared with
    | .error fault => { response := .failed fault, events, session }
    | .ok job =>
      { response := .prepared plan
        events
        session :=
          { session with
            jobs := session.jobs.file name { job, flag := session.flagCount }
            flagCount := session.flagCount + 1 } }
  | .newToken name =>
    { response := .done
      events := []
      session :=
        { session with
          tokens := session.tokens.file name session.flagCount
          flagCount := session.flagCount + 1 } }
  | .copyToken token name =>
    match session.tokens.find? token with
    | none => { response := .unknownName token, events := [], session }
    | some flag =>
      { response := .done
        events := []
        session := { session with tokens := session.tokens.file name flag } }
  | .takeToken job name =>
    match session.jobs.find? job with
    | none => { response := .unknownName job, events := [], session }
    | some flagged =>
      { response := .done
        events := []
        session := { session with tokens := session.tokens.file name flagged.flag } }
  | .giveToken token job =>
    match session.tokens.find? token with
    | none => { response := .unknownName token, events := [], session }
    | some flag =>
      match session.jobs.find? job with
      | none => { response := .unknownName job, events := [], session }
      | some flagged =>
        { response := .done
          events := []
          session := { session with jobs := session.jobs.file job { flagged with flag } } }
  | .cancel token =>
    match session.tokens.find? token with
    | none => { response := .unknownName token, events := [], session }
    | some flag => { response := .done, events := [], session := session.raise flag }
  | .askCancelled token =>
    match session.tokens.find? token with
    | none => { response := .unknownName token, events := [], session }
    | some flag =>
      { response := .cancelled (session.isRaised flag), events := [], session }
  | .askInterruption job =>
    match session.jobs.find? job with
    | none => { response := .unknownName job, events := [], session }
    | some flagged =>
      let cancelled := session.isRaised flagged.flag
      { response := .interruption (flagged.job.interruption? cancelled (setting.clock 0))
        events := flagged.job.interruptionEvents cancelled (setting.clock 0)
        session }
  | .runJob job none => session.runNamed setting job none
  -- The token is looked up first, so that an unknown one leaves the job where it is.
  | .runJob job (some (token, after)) =>
    match session.tokens.find? token with
    | none => { response := .unknownName token, events := [], session }
    | some flag => session.runNamed setting job (some { flag, after })

/-- Carries out commands one after the other. -/
def performAll (session : Session) (setting : Setting) : List Command → List Turn
  | [] => []
  | command :: commands =>
    let turn := session.perform setting command
    turn :: turn.session.performAll setting commands

end Session

end DecimalPi
