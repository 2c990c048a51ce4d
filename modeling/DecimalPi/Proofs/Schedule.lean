import DecimalPi.Proofs.Audit
import DecimalPi.Proofs.Words.Pull
import DecimalPi.Session.Basic

/-!
# Runs that are interrupted

A job of so many groups looks once more often than it has groups. The first look that finds an
interruption decides the run: it has the groups that were there at that look, and no more passes
were made. If none finds any, not even the one after the last group, the stream is exhausted and
the run is complete, and only then is it audited. The log has a trace of each group and then one
line more for an interruption, or the two lines of an audit.

A cancellation and the end of the time may be found by the same look, and the cancellation wins.
A session that raises the flag of a job after a number of groups is found out by the next look,
so that it is in time even after the last group.

## Main definitions

* `InterruptedAt` and `Undisturbed`: what the looks of a job find;
* `Run.EndsAfter`: a run with the groups of so many passes;
* `Run.IsAuditedUnder`: a run that is audited where a plan wants it, and not elsewhere;
* `traces`: what groups leave in the log.

## Main results

* `DigitStream.InRange.loop_drive` and `Job.loop_iff`: a run is what its turns lead to;
* `Job.run_of_interruptedAt` and `Job.run_of_undisturbed`: the two ways in which a run ends;
* `Run.isAuditedUnder`: the result and the log of any run tell of its audit;
* `Job.run_follows_schedule`: all of this for every plan that can be prepared.
-/

namespace DecimalPi

/-- Of the looks of a job with `groups` groups, the one when `produced` of them are there is the
first to find an interruption. -/
structure InterruptedAt (schedule : ℕ → Option Interruption) (groups produced : ℕ)
    (interruption : Interruption) : Prop where
  produced_le : produced ≤ groups
  found : schedule produced = some interruption
  earlier : ∀ before < produced, schedule before = none

/-- No look of a job with `groups` groups finds an interruption. -/
def Undisturbed (schedule : ℕ → Option Interruption) (groups : ℕ) : Prop :=
  ∀ produced ≤ groups, schedule produced = none

/-- A job is undisturbed, or there is a first look that finds an interruption. -/
theorem undisturbed_or_interruptedAt (schedule : ℕ → Option Interruption) (groups : ℕ) :
    Undisturbed schedule groups ∨
      ∃ produced interruption, InterruptedAt schedule groups produced interruption := by
  by_cases h : ∃ produced, produced ≤ groups ∧ schedule produced ≠ none
  · right
    obtain ⟨hle, hfound⟩ := Nat.find_spec h
    obtain ⟨interruption, hinterruption⟩ := Option.ne_none_iff_exists'.mp hfound
    refine ⟨Nat.find h, interruption, hle, hinterruption, ?_⟩
    intro before hbefore
    by_contra hsome
    exact Nat.find_min h hbefore ⟨by omega, hsome⟩
  · left
    intro produced hle
    by_contra hsome
    exact h ⟨produced, hle, hsome⟩

namespace Plan

variable {plan : Plan} {cancelled : Bool} {elapsed : ℕ}

theorem interruption?_eq_none_iff :
    plan.interruption? cancelled elapsed = none ↔
      cancelled = false ∧ ∀ limit ∈ plan.timeout, elapsed < limit.toNat := by
  rw [interruption?]
  cases cancelled with
  | true => simp
  | false => cases plan.timeout <;> simp

/-- A cancellation wins over the end of the time. -/
theorem eq_of_interruption?_eq_some {interruption : Interruption}
    (h : plan.interruption? cancelled elapsed = some interruption) :
    interruption = if cancelled then .cancelled else .timedOut elapsed := by
  rw [interruption?] at h
  cases cancelled with
  | true => exact (Option.some.inj h).symm
  | false =>
    cases htimeout : plan.timeout with
    | none => simp [htimeout] at h
    | some limit =>
      simp only [htimeout, Bool.false_eq_true, reduceIte, Option.ite_none_right_eq_some,
        Option.some_inj] at h
      exact h.2.symm

end Plan

/-- The traces of groups in the log of a run with `total` groups, of which they are the first. The
last term of a pass is fourteen terms below that of the pass before. -/
def traces (total : ℕ) (groups : List Group) : List Event :=
  groups.zipIdx.map fun (group, index) => .groupEmitted (UInt64.ofNat (14 * (total - index))) group

namespace DigitStream

/-- Counting the groups that are left makes no difference to a run: when the count is used up, the
stream is exhausted. -/
theorem InRange.loop_drive {stream : DigitStream} (h : InRange stream)
    (schedule : ℕ → Option Interruption) (produced : ℕ) :
    Run.Loop schedule produced stream
      (Id.run (stream.drive (fun count => pure (schedule count)) produced
        stream.remaining.toNat)) := by
  induction hleft : stream.remaining.toNat generalizing stream produced with
  | zero =>
    rw [drive_zero]
    cases hlook : schedule produced with
    | none => exact .exhausted hlook (h.next?_eq_none_iff.mpr hleft)
    | some interruption => exact .interrupted hlook
  | succ left ih =>
    rw [drive_succ]
    cases hlook : schedule produced with
    | some interruption => exact .interrupted hlook
    | none =>
      cases hnext : stream.next? with
      | none => exact .exhausted hlook hnext
      | some next =>
        obtain ⟨emission, rest⟩ := next
        have hrest : rest.remaining.toNat = left := by
          have := h.remaining_of_next? hnext
          omega
        exact .emitted hlook hnext (ih (h.of_next? hnext) (produced + 1) hrest)

theorem Opened.events_pull {groups : ℕ} {stream : DigitStream} (h : Opened groups stream)
    (produced : ℕ) :
    (stream.pull produced).1.map Emission.event =
      traces groups (stream.groups.take produced) := by
  rw [h.inRange.fst_pull_eq produced 0, traces, List.map_map]
  refine List.map_congr_left ?_
  rintro ⟨group, index⟩ -
  have hcursor : stream.cursor.toNat + 14 * 0 - 14 * index = 14 * (groups - index) := by
    rw [h.cursor_eq]
    omega
  exact congrArg (fun cursor => Event.groupEmitted (UInt64.ofNat cursor) group) hcursor

/-- As long as looks find nothing, turns emit one group after the other. -/
theorem InRange.loop_of_quiet {schedule : ℕ → Option Interruption} {produced count : ℕ}
    {stream left : DigitStream} {interruption : Option Interruption} (h : InRange stream)
    (hle : count ≤ stream.remaining.toNat)
    (hquiet : ∀ before < count, schedule (produced + before) = none)
    (hloop : Run.Loop schedule (produced + count) (stream.pull count).2
      { emissions := [], interruption, stream := left }) :
    Run.Loop schedule produced stream
      { emissions := (stream.pull count).1, interruption, stream := left } := by
  induction count generalizing produced stream with
  | zero => exact hloop
  | succ count ih =>
    -- there is a group, as the stream has some left
    obtain ⟨⟨emission, rest⟩, hnext⟩ : ∃ next, stream.next? = some next := by
      refine Option.ne_none_iff_exists'.mp fun hnone => ?_
      have := h.next?_eq_none_iff.mp hnone
      omega
    have hremaining := h.remaining_of_next? hnext
    have hquiet' : ∀ before < count, schedule (produced + 1 + before) = none := by
      intro before hbefore
      rw [Nat.add_right_comm]
      exact hquiet (before + 1) (by omega)
    rw [pull_succ, hnext, ← Nat.add_assoc, Nat.add_right_comm] at hloop
    rw [pull_succ, hnext]
    have hrest := ih (h.of_next? hnext) (by omega) hquiet' hloop
    exact .emitted (hquiet 0 (Nat.succ_pos count)) hnext hrest

end DigitStream

namespace Run

/-- The run stops after so many passes of a stream, with the groups of these. -/
structure EndsAfter (stream : DigitStream) (produced : ℕ) (interruption : Option Interruption)
    (run : Run) : Prop where
  emissions_eq : run.emissions = (stream.pull produced).1
  groups_eq : run.groups = stream.groups.take produced
  length_eq : run.groups.length = produced
  interruption_eq : run.interruption = interruption
  stream_eq : run.stream = (stream.pull produced).2
  remaining_add : run.stream.remaining.toNat + run.groups.length = stream.groups.length

theorem endsAfter_pull {stream : DigitStream} (h : stream.InRange) {produced : ℕ}
    (hle : produced ≤ stream.remaining.toNat) (interruption : Option Interruption) :
    EndsAfter stream produced interruption
      { emissions := (stream.pull produced).1, interruption, stream := (stream.pull produced).2 }
    where
  emissions_eq := rfl
  groups_eq := (h.take_groups produced).symm
  length_eq := by rw [groups, List.length_map, h.length_fst_pull, Nat.min_eq_left hle]
  interruption_eq := rfl
  stream_eq := rfl
  remaining_add := by
    rw [groups, List.length_map, h.length_fst_pull, Nat.min_eq_left hle, h.length_groups,
      h.remaining_pull, Nat.sub_add_cancel hle]

/-- A run is audited where a plan wants it and the run is complete, and nowhere else. The verdict is
then the result of the run, and the log tells which group was left out and, if that is the verdict,
how many digits agree. -/
structure IsAuditedUnder (plan : Plan) (run : Run) : Prop where
  result_eq : run.result plan =
    if plan.audited = true ∧ run.interruption = none then
      (audit run.groups).map fun _ => run.outcome
    else .ok run.outcome
  skipped_iff : ∀ group, .lastGroupSkipped group ∈ run.events plan ↔
    (plan.audited = true ∧ run.interruption = none) ∧ run.groups.getLast? = some group
  verified_iff : ∀ count, .digitsVerified count ∈ run.events plan ↔
    (plan.audited = true ∧ run.interruption = none) ∧ run.groups ≠ [] ∧
      audit run.groups = .ok () ∧ count = min (trustedDigits run.groups).length reference.length

/-- Nothing but its audit leaves an event of an audit in the log of a run. -/
theorem mem_events_iff {plan : Plan} {run : Run} {event : Event}
    (hgroup : ∀ cursor group, event ≠ .groupEmitted cursor group)
    (hcancelled : ∀ remaining, event ≠ .foundCancelled remaining)
    (htimedOut : ∀ elapsed, event ≠ .foundTimedOut elapsed) :
    event ∈ run.events plan ↔
      (plan.audited = true ∧ run.interruption = none) ∧ event ∈ auditEvents run.groups := by
  have hemissions : event ∉ run.emissions.map Emission.event := by
    intro hmem
    obtain ⟨emission, -, rfl⟩ := List.mem_map.mp hmem
    exact hgroup _ _ rfl
  have hinterruption :
      event ∉ (run.interruption.map (Interruption.event run.stream.length)).toList := by
    intro hmem
    obtain ⟨interruption, -, hevent⟩ := Option.map_eq_some_iff.mp (Option.mem_toList.mp hmem)
    cases interruption with
    | cancelled => exact hcancelled _ hevent.symm
    | timedOut elapsed => exact htimedOut _ hevent.symm
  have hothers := not_or.mpr ⟨hemissions, hinterruption⟩
  rw [events, List.mem_append, List.mem_append, or_iff_right hothers, ← isAudited_iff]
  cases run.isAudited plan <;> simp

theorem isAuditedUnder (plan : Plan) (run : Run) : run.IsAuditedUnder plan where
  result_eq := by
    rw [result]
    simp only [isAudited_iff]
    cases audit run.groups <;> rfl
  skipped_iff group := by
    rw [mem_events_iff (by simp) (by simp) (by simp), lastGroupSkipped_mem_auditEvents_iff]
  verified_iff count := by
    rw [mem_events_iff (by simp) (by simp) (by simp), digitsVerified_mem_auditEvents_iff]

end Run

namespace Job

theorem prepare_eq_ok_iff {room : Option UInt64} {plan : Plan} {job : Job} :
    prepare room plan = .ok job ↔
      DigitStream.start room plan.digits = .ok job.stream ∧ job.plan = plan := by
  obtain ⟨plan', stream⟩ := job
  rw [prepare]
  cases DigitStream.start room plan.digits with
  | error fault => simp [bind, Except.bind]
  | ok opened => simp [bind, Except.bind, pure, Except.pure, eq_comm, and_comm]

section Opened

variable {groups produced : ℕ} {job : Job} {schedule : ℕ → Option Interruption}
  (h : job.stream.Opened groups)

include h

/-- A run is what its turns lead to. -/
theorem loop_iff {run : Run} :
    Run.Loop schedule 0 job.stream run ↔ job.run schedule = run := by
  have hloop : Run.Loop schedule 0 job.stream (job.run schedule) := h.inRange.loop_drive schedule 0
  constructor
  · exact hloop.unique
  · rintro rfl
    exact hloop

theorem run_of_interruptedAt {interruption : Interruption}
    (hschedule : InterruptedAt schedule groups produced interruption) :
    (job.run schedule).EndsAfter job.stream produced (some interruption) := by
  have hle := hschedule.produced_le
  rw [← h.remaining_eq] at hle
  have hquiet : ∀ before < produced, schedule (0 + before) = none := by
    intro before hbefore
    rw [Nat.zero_add]
    exact hschedule.earlier before hbefore
  have hfound : schedule (0 + produced) = some interruption := by
    rw [Nat.zero_add]
    exact hschedule.found
  rw [(loop_iff h).mp (h.inRange.loop_of_quiet hle hquiet (.interrupted hfound))]
  exact Run.endsAfter_pull h.inRange hle _

theorem run_of_undisturbed (hschedule : Undisturbed schedule groups) :
    (job.run schedule).EndsAfter job.stream groups none := by
  have hlook : ∀ before ≤ groups, schedule (0 + before) = none := by
    intro before hbefore
    rw [Nat.zero_add]
    exact hschedule before hbefore
  have hended : (job.stream.pull groups).2.next? = none := by
    rw [(h.inRange.pull groups).next?_eq_none_iff, h.inRange.remaining_pull, h.remaining_eq,
      Nat.sub_self]
  rw [(loop_iff h).mp (h.inRange.loop_of_quiet h.remaining_eq.ge
    (fun before hbefore => hlook before hbefore.le) (.exhausted (hlook groups le_rfl) hended))]
  exact Run.endsAfter_pull h.inRange h.remaining_eq.ge none

theorem result_of_interruptedAt {interruption : Interruption}
    (hschedule : InterruptedAt schedule groups produced interruption) (plan : Plan) :
    (job.run schedule).result plan =
      .ok { groups := job.stream.groups.take produced, stop := interruption.reason } := by
  have hends := run_of_interruptedAt h hschedule
  have houtcome : (job.run schedule).outcome =
      { groups := job.stream.groups.take produced, stop := interruption.reason } := by
    rw [Run.outcome, hends.groups_eq, hends.interruption_eq]
  -- only a run that was not interrupted is audited
  rw [(Run.isAuditedUnder plan _).result_eq, hends.interruption_eq, houtcome]
  simp

theorem events_of_interruptedAt {interruption : Interruption}
    (hschedule : InterruptedAt schedule groups produced interruption) (plan : Plan) :
    (job.run schedule).events plan = traces groups (job.stream.groups.take produced) ++
      [interruption.event (job.run schedule).stream.length] := by
  have hends := run_of_interruptedAt h hschedule
  have haudited : (job.run schedule).isAudited plan = false := by
    rw [Bool.eq_false_iff, ne_eq, Run.isAudited_iff, hends.interruption_eq]
    simp
  rw [Run.events, haudited, hends.emissions_eq, h.events_pull, hends.interruption_eq]
  simp

/-- The line that a cancellation leaves in the log tells how many groups are missing. -/
theorem exists_events_of_cancelled (hschedule : InterruptedAt schedule groups produced .cancelled)
    (plan : Plan) :
    ∃ remaining : UInt64, remaining.toNat + produced = groups ∧
      (job.run schedule).events plan =
        traces groups (job.stream.groups.take produced) ++ [.foundCancelled remaining] := by
  have hends := run_of_interruptedAt h hschedule
  have hmissing := hends.remaining_add
  rw [hends.length_eq, h.length_groups] at hmissing
  exact ⟨(job.run schedule).stream.length, hmissing, events_of_interruptedAt h hschedule plan⟩

theorem result_of_undisturbed (hschedule : Undisturbed schedule groups) (plan : Plan) :
    (job.run schedule).result plan =
      if plan.audited then
        (audit job.stream.groups).map fun _ => { groups := job.stream.groups, stop := .completed }
      else .ok { groups := job.stream.groups, stop := .completed } := by
  have hends := run_of_undisturbed h hschedule
  have hgroups := groups_of_uninterrupted hends.interruption_eq
  have houtcome : (job.run schedule).outcome =
      { groups := job.stream.groups, stop := .completed } := by
    rw [Run.outcome, hgroups, hends.interruption_eq]
  rw [(Run.isAuditedUnder plan _).result_eq, hends.interruption_eq, hgroups, houtcome]
  simp

theorem events_of_undisturbed (hschedule : Undisturbed schedule groups) (plan : Plan) {last : Group}
    (hlast : job.stream.groups.getLast? = some last) :
    (job.run schedule).events plan = traces groups job.stream.groups ++
      if plan.audited then
        [.lastGroupSkipped last, .digitsVerified (min (4 * (groups - 1)) 800)]
      else [] := by
  have hends := run_of_undisturbed h hschedule
  have hgroups := groups_of_uninterrupted hends.interruption_eq
  have haudited : (job.run schedule).isAudited plan = plan.audited := by
    rw [Bool.eq_iff_iff, Run.isAudited_iff, hends.interruption_eq]
    simp
  have hall : job.stream.groups.take groups = job.stream.groups := by
    rw [← h.length_groups, List.take_length]
  rw [Run.events, haudited, hends.emissions_eq, h.events_pull, hall, hends.interruption_eq, hgroups,
    h.auditEvents_groups hlast]
  simp

end Opened

/-- A flag that is raised after a number of groups is found by the look that comes next. -/
theorem interruption?_isRaisedDuring {session : Session} {flag : Flag} {after : UInt64}
    {produced elapsed : ℕ} {job : Job} (hraised : session.isRaised flag = false)
    (hintime : ∀ limit ∈ job.plan.timeout, elapsed < limit.toNat) :
    job.interruption? (session.isRaisedDuring (some { flag, after }) produced flag) elapsed =
      if max after.toNat 1 ≤ produced then some .cancelled else none := by
  have hfired : session.isRaisedDuring (some { flag, after }) produced flag =
      decide (max after.toNat 1 ≤ produced) := by
    simp [Session.isRaisedDuring, hraised, Cancellation.hasFired]
  rw [hfired, interruption?]
  by_cases hafter : max after.toNat 1 ≤ produced
  · rw [decide_eq_true hafter, if_pos hafter]
    rfl
  · rw [decide_eq_false hafter, if_neg hafter]
    exact Plan.interruption?_eq_none_iff.mpr ⟨rfl, hintime⟩

/-- The response of a session to the run of a job. -/
theorem response_of_result_eq_ok {session : Session} {setting : Setting} {name token : String}
    {job : Job} {flag cancelled : Flag} {after : UInt64} {outcome : Outcome}
    (hjob : session.jobs.find? name = some { job, flag })
    (htoken : session.tokens.find? token = some cancelled)
    (hresult : (Session.course { session with jobs := session.jobs.remove name } setting
      (some { flag := cancelled, after }) { job, flag }).result job.plan = .ok outcome) :
    (session.perform setting (.runJob name (some (token, after)))).response =
      .finished outcome := by
  simp only [Session.perform, htoken, Session.runNamed, hjob, hresult]

/-- A job that is run in a session and cancelled with its own flag after a number of groups. -/
theorem response_of_cancelled_after {groups : ℕ} {job : Job} {session : Session}
    {setting : Setting} {name token : String} {flag : Flag} {after : UInt64}
    (h : job.stream.Opened groups) (haudit : audit job.stream.groups = .ok ())
    (hjob : session.jobs.find? name = some { job, flag })
    (htoken : session.tokens.find? token = some flag) (hraised : session.isRaised flag = false)
    (hintime : ∀ produced ≤ groups, ∀ limit ∈ job.plan.timeout,
      setting.clock produced < limit.toNat) :
    (session.perform setting (.runJob name (some (token, after)))).response = .finished
      (if max after.toNat 1 ≤ groups then
        { groups := job.stream.groups.take (max after.toNat 1), stop := .cancelled }
      else { groups := job.stream.groups, stop := .completed }) := by
  -- The name of the job is gone before it runs, which its flag does not notice.
  obtain ⟨schedule, hschedule⟩ : ∃ schedule, schedule = fun produced => job.interruption?
      (Session.isRaisedDuring { session with jobs := session.jobs.remove name }
        (some { flag, after }) produced flag) (setting.clock produced) := ⟨_, rfl⟩
  have hlook : ∀ produced ≤ groups, schedule produced =
      if max after.toNat 1 ≤ produced then some .cancelled else none := by
    intro produced hle
    rw [hschedule]
    exact interruption?_isRaisedDuring hraised (hintime produced hle)
  have hresponse : ∀ outcome, (job.run schedule).result job.plan = .ok outcome →
      (session.perform setting (.runJob name (some (token, after)))).response =
        .finished outcome := by
    intro outcome hresult
    rw [hschedule] at hresult
    exact response_of_result_eq_ok hjob htoken hresult
  by_cases hafter : max after.toNat 1 ≤ groups
  · have hinterrupted : InterruptedAt schedule groups (max after.toNat 1) .cancelled := by
      refine ⟨hafter, ?_, fun before hbefore => ?_⟩
      · rw [hlook _ hafter, if_pos le_rfl]
      · rw [hlook _ (by omega), if_neg (by omega)]
    rw [if_pos hafter]
    exact hresponse _ (result_of_interruptedAt h hinterrupted _)
  · have hundisturbed : Undisturbed schedule groups := by
      intro produced hle
      rw [hlook produced hle, if_neg (by omega)]
    rw [if_neg hafter]
    apply hresponse
    rw [result_of_undisturbed h hundisturbed, haudit]
    cases job.plan.audited <;> rfl

/-- Runs follow their schedule, whatever it is. A run takes its turns, and the first look that finds
an interruption ends it with the groups that are there, after as many passes, and with the reason
that was found; the log then has the traces of the groups and the interruption, and a cancellation
tells there how many groups are missing. Where no look finds an interruption, the run has all groups
and ends because the stream is exhausted. An audit takes place if the plan wants one and the run is
complete, and in no other case: the run has its verdict for a result, and its log tells what was
compared.

A job has to stop if it was cancelled or its time is over, and a cancellation wins over the end of
the time. A job that is cancelled with its own flag after a number of groups, at least one, ends
with that many, also if these are all. -/
theorem run_follows_schedule {room : Option UInt64} {plan : Plan} {job : Job}
    (prepared : prepare room plan = .ok job) :
    ∃ groups, groupsFor plan.digits = .ok groups ∧
      DigitStream.start room plan.digits = .ok job.stream ∧
      job.stream.groups.length = groups.toNat ∧
      (∀ schedule run, Run.Loop schedule 0 job.stream run ↔ job.run schedule = run) ∧
      (∀ schedule produced, InterruptedAt schedule groups.toNat produced .cancelled →
        (job.run schedule).EndsAfter job.stream produced (some .cancelled) ∧
        (job.run schedule).result plan =
          .ok { groups := job.stream.groups.take produced, stop := .cancelled } ∧
        ∃ remaining : UInt64, remaining.toNat + produced = groups.toNat ∧
          (job.run schedule).events plan =
            traces groups.toNat (job.stream.groups.take produced) ++ [.foundCancelled remaining] ∧
          ∀ showTime, (Event.foundCancelled remaining).text showTime =
            s!"Cancelled with {groups.toNat - produced} groups remaining") ∧
      (∀ schedule produced elapsed,
        InterruptedAt schedule groups.toNat produced (.timedOut elapsed) →
          (job.run schedule).EndsAfter job.stream produced (some (.timedOut elapsed)) ∧
          (job.run schedule).result plan =
            .ok { groups := job.stream.groups.take produced, stop := .timedOut } ∧
          (job.run schedule).events plan =
            traces groups.toNat (job.stream.groups.take produced) ++ [.foundTimedOut elapsed]) ∧
      (∀ schedule, Undisturbed schedule groups.toNat →
        (job.run schedule).EndsAfter job.stream groups.toNat none ∧
        (job.run schedule).stream.next? = none ∧
        ((job.run schedule).result plan =
          if plan.audited then
            (audit job.stream.groups).map fun _ =>
              { groups := job.stream.groups, stop := .completed }
          else .ok { groups := job.stream.groups, stop := .completed }) ∧
        (job.run schedule).result plan =
          .ok { groups := job.stream.groups, stop := .completed } ∧
        ∃ last, job.stream.groups.getLast? = some last ∧
          (job.run schedule).events plan = traces groups.toNat job.stream.groups ++
            if plan.audited then
              [.lastGroupSkipped last, .digitsVerified (min (4 * (groups.toNat - 1)) 800)]
            else []) ∧
      (∀ run : Run, run.IsAuditedUnder plan) ∧
      (∀ cancelled elapsed, job.interruption? cancelled elapsed = none ↔
        cancelled = false ∧ ∀ limit ∈ plan.timeout, elapsed < limit.toNat) ∧
      (∀ (raised : ℕ → Bool) (clock : ℕ → ℕ) produced interruption,
        InterruptedAt (fun count => job.interruption? (raised count) (clock count)) groups.toNat
            produced interruption →
          interruption = if raised produced then .cancelled else .timedOut (clock produced)) ∧
      ∀ (session : Session) (setting : Setting) (name token : String) (flag : Flag)
        (after : UInt64), session.jobs.find? name = some { job, flag } →
        session.tokens.find? token = some flag → session.isRaised flag = false →
        (∀ produced ≤ groups.toNat, ∀ limit ∈ plan.timeout,
          setting.clock produced < limit.toNat) →
        (session.perform setting (.runJob name (some (token, after)))).response = .finished
          (if max after.toNat 1 ≤ groups.toNat then
            { groups := job.stream.groups.take (max after.toNat 1), stop := .cancelled }
          else { groups := job.stream.groups, stop := .completed }) := by
  obtain ⟨hstart, rfl⟩ := prepare_eq_ok_iff.mp prepared
  obtain ⟨entries, accepted, granted, -⟩ := DigitStream.start_eq_ok_iff.mp hstart
  obtain ⟨groups, stream, hgroups, hopen, -, hopened⟩ :=
    DigitStream.exists_opened accepted granted
  obtain rfl : job.stream = stream := Except.ok.inj (hstart.symm.trans hopen)
  refine ⟨groups, hgroups, hstart, hopened.length_groups, fun schedule run => loop_iff hopened,
    ?_, ?_, ?_, Run.isAuditedUnder job.plan, fun _ _ => Plan.interruption?_eq_none_iff, ?_, ?_⟩
  · intro schedule produced hschedule
    obtain ⟨remaining, hremaining, hevents⟩ :=
      exists_events_of_cancelled hopened hschedule job.plan
    refine ⟨run_of_interruptedAt hopened hschedule, result_of_interruptedAt hopened hschedule _,
      remaining, hremaining, hevents, fun showTime => ?_⟩
    rw [← hremaining, Nat.add_sub_cancel]
    rfl
  · intro schedule produced elapsed hschedule
    exact ⟨run_of_interruptedAt hopened hschedule, result_of_interruptedAt hopened hschedule _,
      events_of_interruptedAt hopened hschedule _⟩
  · intro schedule hschedule
    have hends := run_of_undisturbed hopened hschedule
    have hexhausted : (job.run schedule).stream.next? = none :=
      ((loop_iff hopened).mpr rfl).next?_eq_none hends.interruption_eq
    have hresult := result_of_undisturbed hopened hschedule job.plan
    obtain ⟨last, hlast⟩ : ∃ last, job.stream.groups.getLast? = some last := by
      have hpos := hopened.pos
      rw [← hopened.length_groups] at hpos
      exact ⟨_, List.getLast?_eq_some_getLast (List.ne_nil_of_length_pos hpos)⟩
    refine ⟨hends, hexhausted, hresult, ?_, last, hlast,
      events_of_undisturbed hopened hschedule job.plan hlast⟩
    rw [hresult, hopened.audit_groups]
    cases job.plan.audited <;> rfl
  · intro raised clock produced interruption hschedule
    exact Plan.eq_of_interruption?_eq_some hschedule.found
  · intro session setting name token flag after hjob htoken hraised hintime
    exact response_of_cancelled_after hopened hopened.audit_groups hjob htoken hraised hintime

/-- Three groups in five milliseconds, four for each of them. A cancellation that is found after the
second group, when the time is over as well, is what ends the run, and the log tells that one group
is missing; without it the end of the time does. Left alone, the run is audited, and eight digits
are compared. In a session that raises its flag after the last group, it is cancelled with all
groups. -/
theorem run_follows_schedule_ten :
    let plan : Plan := { digits := 10, timeout := some 5, audited := true }
    let job : Job := { plan, stream := .seeded 43 }
    let look (raised : ℕ → Bool) (count : ℕ) := job.interruption? (raised count) (4 * count)
    let raised (count : ℕ) : Bool := 2 ≤ count
    let never (_ : ℕ) : Bool := false
    let session : Session :=
      { jobs := Registry.file {} "job" { job, flag := 0 }, tokens := Registry.file {} "token" 0,
        flagCount := 1 }
    prepare none plan = .ok job ∧
      InterruptedAt (look raised) 3 2 .cancelled ∧ 5 ≤ 4 * 2 ∧
      (job.run (look raised)).EndsAfter job.stream 2 (some .cancelled) ∧
      (job.run (look raised)).events plan =
        traces 3 (job.stream.groups.take 2) ++ [.foundCancelled 1] ∧
      InterruptedAt (look never) 3 2 (.timedOut 8) ∧
      (job.run (look never)).result plan =
        .ok { groups := job.stream.groups.take 2, stop := .timedOut } ∧
      (job.run (look never)).events plan =
        traces 3 (job.stream.groups.take 2) ++ [.foundTimedOut 8] ∧
      Undisturbed (fun _ => none) 3 ∧
      (job.run fun _ => none).stream.next? = none ∧
      (job.run fun _ => none).result plan = (audit job.stream.groups).map (fun _ =>
        { groups := job.stream.groups, stop := .completed }) ∧
      (∃ last, job.stream.groups.getLast? = some last ∧
        (job.run fun _ => none).events plan = traces 3 job.stream.groups ++
          [.lastGroupSkipped last, .digitsVerified 8]) ∧
      session.jobs.find? "job" = some { job, flag := 0 } ∧
      session.tokens.find? "token" = some 0 ∧ session.isRaised 0 = false ∧
      (session.perform {} (.runJob "job" (some ("token", 3)))).response =
        .finished { groups := job.stream.groups.take 3, stop := .cancelled } := by
  intro plan job look raised never session
  have prepared : prepare none plan = .ok job := by decide +kernel
  have hcancelled : InterruptedAt (look raised) 3 2 .cancelled :=
    { produced_le := by decide, found := by decide, earlier := by decide }
  have htimedOut : InterruptedAt (look never) 3 2 (.timedOut 8) :=
    { produced_le := by decide, found := by decide, earlier := by decide }
  have hnone : Undisturbed (fun _ => none) 3 := fun _ _ => rfl
  obtain ⟨groups, hgroups, -, -, -, hwhenCancelled, hwhenTimedOut, hwhenUndisturbed, -, -, -,
    hsession⟩ := run_follows_schedule prepared
  obtain rfl : groups = 3 := by
    have hthree : groupsFor 10 = .ok 3 := by decide
    exact Except.ok.inj (hgroups.symm.trans hthree)
  obtain ⟨hends, -, remaining, hremaining, hevents, -⟩ :=
    hwhenCancelled (look raised) 2 hcancelled
  obtain rfl : remaining = 1 := UInt64.toNat_inj.mp (Nat.add_right_cancel hremaining)
  obtain ⟨-, htimedOutResult, htimedOutEvents⟩ := hwhenTimedOut (look never) 2 8 htimedOut
  obtain ⟨-, hexhausted, haudited, -, hlog⟩ := hwhenUndisturbed _ hnone
  have hjob : session.jobs.find? "job" = some { job, flag := 0 } := Registry.find?_file_self _ _ _
  have htoken : session.tokens.find? "token" = some 0 := Registry.find?_file_self _ _ _
  -- the clock of the session stands still at zero
  have hintime : ∀ produced ≤ (3 : UInt64).toNat, ∀ limit ∈ plan.timeout,
      ({} : Setting).clock produced < limit.toNat := by
    intro produced hle limit hlimit
    obtain rfl : 5 = limit := Option.some.inj hlimit
    exact Nat.zero_lt_succ 4
  exact ⟨prepared, hcancelled, by decide, hends, hevents, htimedOut, htimedOutResult,
    htimedOutEvents, hnone, hexhausted, haudited, hlog, hjob, htoken, rfl,
    hsession session {} "job" "token" 0 3 hjob htoken rfl hintime⟩

end Job

end DecimalPi
