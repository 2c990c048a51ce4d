import DecimalPi.Proofs.Session.Dialogue

/-!
# What a cancellation leaves alone

Two sessions may be the same but for one flag, which is raised in the second and need not be in
the first. They respond alike to every command that does not look at that flag, and as long as
they do, they go on to raise the same other flags.

A job that holds the flag runs in the first session and not in the second, where it stops at its
first look. Its run may raise another flag after so many groups, and this is the only way in which
the difference can spread. Where no run spreads it, the sessions stay the same but for the flag.

## Main definitions

* `Session.AgreeExcept`: the sessions are the same but for a flag;
* `Session.LooksAt`: the commands that can tell such sessions apart;
* `Session.KeepsWithin`: no command of a sequence spreads the difference.

## Main results

* `Session.AgreeExcept.perform_alike`: other commands have the same responses and events;
* `Session.AgreeExcept.afterMoves`: the sessions go on to agree.
-/

namespace DecimalPi

/-- A command with the conditions under which it is carried out. -/
structure Move where
  /-- The conditions. -/
  setting : Setting
  /-- The command. -/
  command : Command

/-- Two turns have the same response and the same events. -/
structure Turn.Alike (turn turn' : Turn) : Prop where
  response_eq : turn'.response = turn.response
  events_eq : turn'.events = turn.events

namespace Session

variable {flag : Flag} {session session' : Session}

/-- The session after a sequence of commands. -/
def afterMoves (session : Session) : List Move → Session
  | [] => session
  | move :: moves => (session.perform move.setting move.command).session.afterMoves moves

/-! ## Files -/

/-- Two sessions have the same on file, and as many flags. -/
def SameFiles (session session' : Session) : Prop :=
  ∃ raised, session' = { session with raised }

/-- What a run comes to has no bearing on what is on file after it. -/
theorem sameFiles_settle (session : Session) (cancellation : Option Cancellation) (produced : ℕ) :
    SameFiles session (session.settle cancellation produced) := by
  cases cancellation with
  | none => exact ⟨_, rfl⟩
  | some intent =>
    rw [settle_eq]
    split_ifs
    · exact ⟨_, rfl⟩
    · exact ⟨_, rfl⟩

namespace SameFiles

variable (h : SameFiles session session')

include h

theorem flagOf?_eq : session'.flagOf? = session.flagOf? := by
  obtain ⟨raised, rfl⟩ := h
  funext holder
  cases holder <;> rfl

theorem auditsPass (passes : session.AuditsPass) : session'.AuditsPass := by
  obtain ⟨raised, rfl⟩ := h
  exact passes

theorem runNamed (setting : Setting) (name : String) (cancellation : Option Cancellation) :
    SameFiles (session.runNamed setting name cancellation).session
      (session'.runNamed setting name cancellation).session := by
  obtain ⟨raised, rfl⟩ := h
  rw [Session.runNamed, Session.runNamed]
  cases session.jobs.find? name with
  | none => exact ⟨_, rfl⟩
  | some flagged =>
    -- the courses of the two runs may differ, but decide only which flags are raised
    obtain ⟨first, hfirst⟩ := sameFiles_settle (session.without name) cancellation
      ((session.without name).course setting cancellation flagged).emissions.length
    obtain ⟨second, hsecond⟩ := sameFiles_settle (without { session with raised } name)
      cancellation
      ((without { session with raised } name).course setting cancellation flagged).emissions.length
    refine ⟨second, hsecond.trans ?_⟩
    exact congrArg (fun base : Session => { base with raised := second }) hfirst.symm

/-- Which flags are raised has no bearing on what is filed. -/
theorem perform (setting : Setting) (command : Command) :
    SameFiles (session.perform setting command).session
      (session'.perform setting command).session := by
  obtain ⟨raised, rfl⟩ := h
  cases command with
  | newJob name plan =>
    rw [Session.perform, Session.perform]
    cases Job.prepare setting.room plan <;> exact ⟨_, rfl⟩
  | newToken name => exact ⟨_, rfl⟩
  | copyToken token name | cancel token | askCancelled token =>
    rw [Session.perform, Session.perform]
    cases session.tokens.find? token <;> exact ⟨_, rfl⟩
  | takeToken job name | askInterruption job =>
    rw [Session.perform, Session.perform]
    cases session.jobs.find? job <;> exact ⟨_, rfl⟩
  | giveToken token job =>
    rw [Session.perform, Session.perform]
    cases session.tokens.find? token with
    | none => exact ⟨_, rfl⟩
    | some flag => cases session.jobs.find? job <;> exact ⟨_, rfl⟩
  | runJob job cancellation =>
    cases cancellation with
    | none => exact runNamed ⟨raised, rfl⟩ setting job none
    | some intent =>
      obtain ⟨token, after⟩ := intent
      rw [Session.perform, Session.perform]
      cases session.tokens.find? token with
      | none => exact ⟨_, rfl⟩
      | some flag => exact runNamed ⟨raised, rfl⟩ setting job (some ⟨flag, after⟩)

end SameFiles

/-! ## Sessions that are the same but for a flag -/

/-- Two sessions are the same but for whether a flag is raised. -/
structure AgreeExcept (flag : Flag) (session session' : Session) : Prop where
  sameFiles : SameFiles session session'
  isRaised_eq : ∀ other, other ≠ flag → session'.isRaised other = session.isRaised other

/-- A command asks whether a flag is raised, or runs a job that holds it. -/
def LooksAt (session : Session) (flag : Flag) : Command → Prop
  | .askCancelled token => session.flagOf? (.token token) = some flag
  | .askInterruption job | .runJob job _ => session.flagOf? (.job job) = some flag
  | _ => False

/-- A command that looks at a flag raises no other one. -/
def KeepsTo (session : Session) (flag : Flag) (move : Move) : Prop :=
  session.LooksAt flag move.command →
    ∀ token, (session.exchange move.setting move.command).effect.raises? = some token →
      session.flagOf? (.token token) = some flag

/-- No command of a sequence raises another flag on account of this one. -/
def KeepsWithin (session : Session) (flag : Flag) : List Move → Prop
  | [] => True
  | move :: moves =>
    session.KeepsTo flag move ∧
      KeepsWithin (session.perform move.setting move.command).session flag moves

theorem SameFiles.looksAt_iff (h : SameFiles session session') {command : Command} :
    session'.LooksAt flag command ↔ session.LooksAt flag command := by
  rw [LooksAt.eq_def, LooksAt.eq_def, h.flagOf?_eq]

/-- Where a flag is raised already, commands that look at it raise none. -/
theorem raises?_of_looksAt (passes : session.AuditsPass) (raised : session.isRaised flag = true)
    (setting : Setting) {command : Command} (looks : session.LooksAt flag command) :
    (session.exchange setting command).effect.raises? = none := by
  cases command with
  | newJob | newToken | copyToken | takeToken | giveToken | cancel => exact looks.elim
  | askCancelled | askInterruption => rfl
  | runJob job cancellation =>
    cases cancellation with
    | none =>
      rw [exchange]
      cases (session.perform setting (.runJob job none)).response <;> rfl
    | some intent =>
      obtain ⟨token, after⟩ := intent
      obtain ⟨flagged, hfound, hflag⟩ := Option.map_eq_some_iff.mp looks
      cases hheld : session.tokens.find? token with
      | none =>
        simp only [exchange, perform, hheld]
        rfl
      | some intended =>
        -- the run has no groups, and a flag is raised after one at the earliest
        have hraised : (session.without job).isRaised flagged.flag = true := by
          rw [isRaised_without, hflag]
          exact raised
        have hnone : ((session.without job).course setting (some ⟨intended, after⟩)
            flagged).emissions = [] := emissions_course_of_isRaised hraised
        simp [exchange, perform, hheld, runNamed_eq (passes job flagged hfound) _ _ hfound,
          Exchange.effect, Run.outcome, Run.groups, hnone, Effect.raises?]

namespace AgreeExcept

variable (h : AgreeExcept flag session session')

include h

theorem runNamed_alike (setting : Setting) {name : String} (cancellation : Option Cancellation)
    (hother : session.flagOf? (.job name) ≠ some flag) :
    (session.runNamed setting name cancellation).Alike
      (session'.runNamed setting name cancellation) := by
  obtain ⟨⟨raised, rfl⟩, hraised⟩ := h
  rw [runNamed, runNamed]
  cases hfound : session.jobs.find? name with
  | none => exact ⟨rfl, rfl⟩
  | some flagged =>
    have hne : flagged.flag ≠ flag := fun heq => hother (heq ▸ flagOf?_job hfound)
    -- a run sees nothing of its session but whether its own flag is raised
    have hcourse : (without { session with raised } name).course setting cancellation flagged =
        (session.without name).course setting cancellation flagged := by
      simp only [course, isRaisedDuring, isRaised_without, hraised _ hne]
    simp only [without] at hcourse
    simp only [hcourse]
    exact ⟨rfl, rfl⟩

/-- A command that does not look at the flag is carried out as if there were no difference. -/
theorem perform_alike (setting : Setting) {command : Command}
    (hother : ¬ session.LooksAt flag command) :
    (session.perform setting command).Alike (session'.perform setting command) := by
  have hagree := h
  obtain ⟨⟨raised, rfl⟩, hraised⟩ := h
  cases command with
  | newJob name plan =>
    rw [perform, perform]
    cases Job.prepare setting.room plan <;> exact ⟨rfl, rfl⟩
  | newToken name => exact ⟨rfl, rfl⟩
  | copyToken token name | cancel token =>
    rw [perform, perform]
    cases session.tokens.find? token <;> exact ⟨rfl, rfl⟩
  | takeToken job name =>
    rw [perform, perform]
    cases session.jobs.find? job <;> exact ⟨rfl, rfl⟩
  | giveToken token job =>
    rw [perform, perform]
    cases session.tokens.find? token with
    | none => exact ⟨rfl, rfl⟩
    | some flag => cases session.jobs.find? job <;> exact ⟨rfl, rfl⟩
  | askCancelled token =>
    rw [perform, perform]
    cases hheld : session.tokens.find? token with
    | none => exact ⟨rfl, rfl⟩
    | some other =>
      have hne : other ≠ flag := fun heq => hother (hheld.trans (congrArg some heq))
      simp only [hraised other hne]
      exact ⟨rfl, rfl⟩
  | askInterruption job =>
    rw [perform, perform]
    cases hfound : session.jobs.find? job with
    | none => exact ⟨rfl, rfl⟩
    | some flagged =>
      have hne : flagged.flag ≠ flag := fun heq => hother (heq ▸ flagOf?_job hfound)
      simp only [hraised flagged.flag hne]
      exact ⟨rfl, rfl⟩
  | runJob job cancellation =>
    cases cancellation with
    | none => exact hagree.runNamed_alike setting none hother
    | some intent =>
      obtain ⟨token, after⟩ := intent
      rw [perform, perform]
      cases session.tokens.find? token with
      | none => exact ⟨rfl, rfl⟩
      | some intended => exact hagree.runNamed_alike setting (some ⟨intended, after⟩) hother

/-- Sessions stay the same but for the flag when no other one is raised on account of it. -/
theorem perform (passes : session.AuditsPass) (raised : session'.isRaised flag = true)
    {move : Move} (keeps : session.KeepsTo flag move) :
    AgreeExcept flag (session.perform move.setting move.command).session
      (session'.perform move.setting move.command).session where
  sameFiles := h.sameFiles.perform move.setting move.command
  isRaised_eq other hne := by
    have hstep := perform_step passes move.setting move.command
    have hstep' := perform_step (h.sameFiles.auditsPass passes) move.setting move.command
    rw [Bool.eq_iff_iff, hstep'.isRaised_iff, hstep.isRaised_iff, h.sameFiles.flagOf?_eq,
      h.isRaised_eq other hne]
    by_cases hlooks : session.LooksAt flag move.command
    · -- a job that holds the flag stops at once where it is raised, and keeps to it elsewhere
      have hnone' : (session'.exchange move.setting move.command).effect.raises? = none :=
        raises?_of_looksAt (h.sameFiles.auditsPass passes) raised move.setting
          (h.sameFiles.looksAt_iff.mpr hlooks)
      have hnone : ¬ ∃ token,
          (session.exchange move.setting move.command).effect.raises? = some token ∧
            session.flagOf? (.token token) = some other := by
        rintro ⟨token, hraises, hheld⟩
        exact hne (Option.some.inj (hheld.symm.trans (keeps hlooks token hraises)))
      simp [hnone', hnone]
    · -- what is said is the same, and so is what it does to flags
      rw [exchange, exchange, (h.perform_alike move.setting hlooks).response_eq]

/-- Sessions that are the same but for the flag stay so, in a sequence of commands that keep to
it. -/
theorem afterMoves (passes : session.AuditsPass) (raised : session'.isRaised flag = true)
    {moves : List Move} (keeps : session.KeepsWithin flag moves) :
    AgreeExcept flag (session.afterMoves moves) (session'.afterMoves moves) := by
  induction moves generalizing session session' with
  | nil => exact h
  | cons move moves ih =>
    have hpasses' := h.sameFiles.auditsPass passes
    have hstep := perform_step passes move.setting move.command
    have hstep' := perform_step hpasses' move.setting move.command
    exact ih (h.perform passes raised keeps.1) (hstep.auditsPass passes)
      ((hstep'.isRaised_iff flag).mpr (.inr raised)) keeps.2

end AgreeExcept

end Session

end DecimalPi
