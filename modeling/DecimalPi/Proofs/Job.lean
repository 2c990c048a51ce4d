import DecimalPi.Proofs.Words.Run
import DecimalPi.Run.Job

/-!
# Jobs under a schedule of interruptions

A job looks for an interruption before each of its groups and after the last. Under a fixed
schedule of what the looks find, its run is a recursion on the groups that are left, and as
long as nothing is found it is the emission of one group after the other.

The recursion counts the groups that are left, while a run itself knows nothing of them: it goes
on until the stream has no further group. `Run.Loop` tells of a run in this way, without a count.

## Main definitions

* `Run.Loop`: a run turn by turn.

## Main results

* `Run.Loop.unique` and `Run.Loop.next?_eq_none`: turns lead to one run, and it is not complete
  before the stream is exhausted;
* `DigitStream.drive_succ`: the recursion;
* `DigitStream.drive_pure`: the same run in every monad, as long as looks have no effect in it;
* `Run.isAudited_iff`: only a run that was not interrupted is audited;
* `Job.interruption_run`: a run ends with what its last look finds;
* `Job.groups_of_uninterrupted`: a run that was not interrupted has all the groups.
-/

namespace DecimalPi

namespace Run

/-- A run turn by turn, when `produced` groups were there before it. A turn looks for an
interruption, and only if there is none it asks the stream for a group. -/
inductive Loop (schedule : ℕ → Option Interruption) : ℕ → DigitStream → Run → Prop
  /-- The look finds an interruption, and the run ends with it. -/
  | interrupted {produced : ℕ} {stream : DigitStream} {interruption : Interruption}
    (found : schedule produced = some interruption) :
    Loop schedule produced stream { emissions := [], interruption := some interruption, stream }
  /-- The look finds nothing and the stream has no group, so the run is complete. -/
  | exhausted {produced : ℕ} {stream : DigitStream} (quiet : schedule produced = none)
    (ended : stream.next? = none) :
    Loop schedule produced stream { emissions := [], interruption := none, stream }
  /-- The look finds nothing and the stream has a group, after which it is the next turn. -/
  | emitted {produced : ℕ} {stream rest : DigitStream} {emission : Emission} {run : Run}
    (quiet : schedule produced = none) (next : stream.next? = some (emission, rest))
    (loop : Loop schedule (produced + 1) rest run) :
    Loop schedule produced stream (run.cons emission)

namespace Loop

variable {schedule : ℕ → Option Interruption} {produced : ℕ} {stream : DigitStream}
  {run run' : Run}

/-- What a turn does depends on the look and on the stream, so they lead to one run. -/
theorem unique (h : Loop schedule produced stream run) (h' : Loop schedule produced stream run') :
    run = run' := by
  induction h generalizing run' with
  | interrupted found =>
    cases h' with
    | interrupted found' =>
      obtain rfl := Option.some.inj (found.symm.trans found')
      rfl
    | exhausted quiet' => simp [found] at quiet'
    | emitted quiet' => simp [found] at quiet'
  | exhausted quiet ended =>
    cases h' with
    | interrupted found' => simp [quiet] at found'
    | exhausted => rfl
    | emitted _ next' => simp [ended] at next'
  | emitted quiet next _ ih =>
    cases h' with
    | interrupted found' => simp [quiet] at found'
    | exhausted _ ended' => simp [next] at ended'
    | emitted _ next' loop' =>
      obtain ⟨rfl, rfl⟩ := Prod.mk.inj (Option.some.inj (next.symm.trans next'))
      rw [ih loop']

/-- A run is not complete as long as its stream has a group. -/
theorem next?_eq_none (h : Loop schedule produced stream run)
    (hcomplete : run.interruption = none) : run.stream.next? = none := by
  induction h with
  | interrupted => contradiction
  | exhausted _ ended => exact ended
  | emitted _ _ _ ih => exact ih hcomplete

end Loop

end Run

namespace DigitStream

/-- A run under a schedule of interruptions when no group is left: one more look. -/
theorem drive_zero (schedule : ℕ → Option Interruption) (produced : ℕ) (stream : DigitStream) :
    Id.run (stream.drive (fun count => pure (schedule count)) produced 0) =
      { emissions := [], interruption := schedule produced, stream } := rfl

/-- A run under a schedule of interruptions, taken apart at its first group. -/
theorem drive_succ (schedule : ℕ → Option Interruption) (produced left : ℕ)
    (stream : DigitStream) :
    Id.run (stream.drive (fun count => pure (schedule count)) produced (left + 1)) =
      match schedule produced with
      | some interruption => { emissions := [], interruption := some interruption, stream }
      | none =>
        match stream.next? with
        | none => { emissions := [], interruption := none, stream }
        | some (emission, rest) =>
          (Id.run (rest.drive (fun count => pure (schedule count)) (produced + 1) left)).cons
            emission := by
  rw [drive]
  cases schedule produced with
  | some interruption => rfl
  | none => cases stream.next? <;> rfl

/-- Looks that have no effect leave the monad out of the run. -/
theorem drive_pure {m : Type → Type} [Monad m] [LawfulMonad m]
    (schedule : ℕ → Option Interruption) (produced left : ℕ) (stream : DigitStream) :
    stream.drive (fun count => (pure (schedule count) : m (Option Interruption))) produced left =
      pure (Id.run (stream.drive (fun count => pure (schedule count)) produced left)) := by
  induction left generalizing produced stream with
  | zero =>
    rw [drive, pure_bind]
    rfl
  | succ left ih =>
    rw [drive_succ, drive, pure_bind]
    cases schedule produced with
    | some interruption => rfl
    | none =>
      cases stream.next? with
      | none => rfl
      | some next =>
        obtain ⟨emission, rest⟩ := next
        dsimp only
        rw [ih, pure_bind]

/-- A run that was not interrupted has the groups that it was to have. -/
theorem emissions_of_uninterrupted {schedule : ℕ → Option Interruption} {produced left : ℕ}
    {stream : DigitStream}
    (h : (Id.run (stream.drive (fun count => pure (schedule count)) produced left)).interruption
      = none) :
    (Id.run (stream.drive (fun count => pure (schedule count)) produced left)).emissions =
      (stream.pull left).1 := by
  induction left generalizing produced stream with
  | zero => rfl
  | succ left ih =>
    rw [drive_succ] at h ⊢
    rw [pull_succ]
    cases hlook : schedule produced with
    | some interruption =>
      -- The look that interrupts the run would be on its record.
      rw [hlook] at h
      contradiction
    | none =>
      rw [hlook] at h
      cases hnext : stream.next? with
      | none => rfl
      | some next =>
        rw [hnext] at h
        exact congrArg _ (ih h)

end DigitStream

namespace Run

/-- No interruption has completion for its reason. -/
theorem stop_outcome_eq_completed_iff {run : Run} :
    run.outcome.stop = .completed ↔ run.interruption = none := by
  rw [outcome]
  cases run.interruption with
  | none => simp
  | some interruption => cases interruption <;> simp [Interruption.reason]

theorem isAudited_iff {plan : Plan} {run : Run} :
    run.isAudited plan = true ↔ plan.audited = true ∧ run.interruption = none := by
  rw [isAudited, Bool.and_eq_true, Outcome.isComplete, decide_eq_true_eq,
    stop_outcome_eq_completed_iff]

end Run

namespace Job

theorem runWith_pure {m : Type → Type} [Monad m] [LawfulMonad m]
    (schedule : ℕ → Option Interruption) (job : Job) :
    job.runWith (fun count => (pure (schedule count) : m (Option Interruption))) =
      pure (job.run schedule) :=
  DigitStream.drive_pure schedule 0 _ _

/-- A run that is interrupted by its first look has no groups. -/
theorem emissions_run_of_first {schedule : ℕ → Option Interruption} {interruption : Interruption}
    (h : schedule 0 = some interruption) (job : Job) : (job.run schedule).emissions = [] := by
  rw [run, runWith]
  cases job.stream.remaining.toNat with
  | zero => rfl
  | succ left => rw [DigitStream.drive_succ, h]

theorem groups_of_uninterrupted {schedule : ℕ → Option Interruption} {job : Job}
    (h : (job.run schedule).interruption = none) :
    (job.run schedule).groups = job.stream.groups :=
  congrArg _ (DigitStream.emissions_of_uninterrupted h)

end Job

end DecimalPi
