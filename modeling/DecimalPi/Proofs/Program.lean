import DecimalPi.Program
import DecimalPi.Proofs.CommandLine.Options
import DecimalPi.Proofs.Schedule
import DecimalPi.Proofs.Wording

/-!
# The program writes all or nothing

Once its options are known the program ends in one of two ways. Either it writes all the digits
and nothing else, or it writes a single line that tells what went wrong. Everything that may fail
comes before anything is written: the number of digits may be refused, there may be no room for
the table, the time may be over at a look, and an audit may fail. The last of these never happens,
and nobody can cancel the run of a program.

The effects are a clock, of which all that matters is what it shows at each look, and a sink, here
one that does not refuse anything.

## Main definitions

* `Options.InTime`: no look finds that the time is over;
* `Options.result` and `Ending.ofResult`: what comes of options, and how the program ends with it;
* `Program.deliverTo`: the writing at the end.

## Main results

* `Options.ofResult_result_eq_digits` and `Options.ofResult_result_eq_fault`: the two endings;
* `Program.runTo_of_parse`: a run of the program is the delivery of its ending;
* `Program.runTo_of_obliging`: what is to be seen of a run;
* `Program.all_or_nothing`: all of this for every command line that can be read.
-/

namespace DecimalPi

/-! ## What comes of options -/

namespace Options

variable {options : Options} {clock : ℕ → ℕ} {room : Option UInt64}

/-- No look of a run finds that its time is over. There is one before each group and one after
the last. -/
def InTime (options : Options) (clock : ℕ → ℕ) : Prop :=
  ∀ groups, groupsFor options.digits.toUInt64 = .ok groups →
    ∀ produced ≤ groups.toNat, ∀ limit ∈ options.timeout, clock produced < limit.toNat

/-- What comes of options, if nobody cancels the run. -/
def result (clock : ℕ → ℕ) (room : Option UInt64) (options : Options) :
    Except Fault Outcome := do
  let plan ← options.plan
  plan.carriedOut room fun produced => plan.interruption? false (clock produced)

/-- Every number that fits has its entries. -/
theorem exists_entriesFor_digits (hpos : 1 ≤ options.digits.toInt)
    (hle : options.digits.toInt ≤ 613566756) :
    ∃ entries, entriesFor options.digits.toUInt64 = .ok entries := by
  have hcount := toNat_toUInt64_digits hpos
  exact exists_entriesFor (by omega) (by omega)

/-- The looks of a run that nobody cancels find nothing where it is in time. -/
theorem undisturbed_iff_inTime {plan : Plan} {groups : UInt64}
    (hplan : plan.timeout = options.timeout)
    (hgroups : groupsFor options.digits.toUInt64 = .ok groups) :
    Undisturbed (fun produced => plan.interruption? false (clock produced)) groups.toNat ↔
      options.InTime clock := by
  have hlook (produced : ℕ) : plan.interruption? false (clock produced) = none ↔
      ∀ limit ∈ options.timeout, clock produced < limit.toNat := by
    rw [Plan.interruption?_eq_none_iff, hplan]
    simp only [true_and]
  rw [Undisturbed, InTime, hgroups]
  simp only [hlook, Except.ok.injEq, forall_eq']

theorem result_of_plan {planned : Plan} (h : options.plan = .ok planned) :
    options.result clock room =
      planned.carriedOut room fun produced => planned.interruption? false (clock produced) := by
  rw [result, h]
  rfl

theorem result_of_lt (h : options.digits.toInt < 1) :
    options.result clock room = .error (.nonPositiveCount options.digits) := by
  rw [result, plan_of_lt h]
  rfl

theorem result_of_gt (h : 613566756 < options.digits.toInt) :
    options.result clock room = .error (.tooManyDigits options.digits.toUInt64) := by
  have hpos : 1 ≤ options.digits.toInt := by omega
  have hcount := toNat_toUInt64_digits hpos
  have hlt : 613566756 < options.digits.toUInt64.toNat := by omega
  rw [result_of_plan (plan_of_le hpos), Plan.carriedOut_eq, DigitStream.start,
    entriesFor_of_lt hlt]
  rfl

/-- What comes of options does not depend on whether an audit is asked for. -/
theorem result_with_audited (audited : Bool) :
    { options with audited }.result clock room = options.result clock room := by
  rw [result, result, plan, plan]
  -- only what is done after the number of digits is known can tell the two apart
  change (options.count >>= _) >>= _ = (options.count >>= _) >>= _
  cases options.count with
  | error fault => rfl
  | ok digits =>
    change Plan.carriedOut room _ _ = Plan.carriedOut room _ _
    rw [Plan.carriedOut_eq, Plan.carriedOut_eq]
    rfl

section Accepted

variable {entries : UInt64} (accepted : entriesFor options.digits.toUInt64 = .ok entries)
  (granted : ∀ limit ∈ room, entries ≤ limit) (hpos : 1 ≤ options.digits.toInt)

include accepted granted hpos

/-- Where the number of digits is accepted and there is room, a run decides what comes of the
options. -/
theorem exists_result_eq (clock : ℕ → ℕ) :
    ∃ groups, ∃ job : Job, groupsFor options.digits.toUInt64 = .ok groups ∧
      DigitStream.start room options.digits.toUInt64 = .ok job.stream ∧
      job.stream.Opened groups.toNat ∧ job.plan.timeout = options.timeout ∧
      options.result clock room =
        (job.run fun produced => job.plan.interruption? false (clock produced)).result
          job.plan := by
  obtain ⟨groups, stream, hgroups, hstart, -, hopened⟩ :=
    DigitStream.exists_opened accepted granted
  let planned : Plan :=
    { digits := options.digits.toUInt64, timeout := options.timeout, audited := options.audited }
  refine ⟨groups, { plan := planned, stream }, hgroups, hstart, hopened, rfl, ?_⟩
  rw [result_of_plan (plan_of_le hpos), Plan.carriedOut, Job.prepare, hstart]
  rfl

theorem result_of_inTime (h : options.InTime clock) :
    ∃ stream, DigitStream.start room options.digits.toUInt64 = .ok stream ∧
      options.result clock room = .ok { groups := stream.groups, stop := .completed } := by
  obtain ⟨groups, job, hgroups, hstart, hopened, htimeout, hresult⟩ :=
    exists_result_eq accepted granted hpos clock
  have hundisturbed := (undisturbed_iff_inTime htimeout hgroups).mpr h
  refine ⟨job.stream, hstart, ?_⟩
  rw [hresult, Job.result_of_undisturbed hopened hundisturbed job.plan, hopened.audit_groups]
  cases job.plan.audited <;> rfl

theorem result_of_not_inTime (h : ¬ options.InTime clock) :
    ∃ groups, options.result clock room = .ok { groups, stop := .timedOut } := by
  obtain ⟨groups, job, hgroups, -, hopened, htimeout, hresult⟩ :=
    exists_result_eq accepted granted hpos clock
  rcases undisturbed_or_interruptedAt
    (fun produced => job.plan.interruption? false (clock produced)) groups.toNat with
    hundisturbed | ⟨produced, interruption, hinterrupted⟩
  · exact absurd ((undisturbed_iff_inTime htimeout hgroups).mp hundisturbed) h
  · have hreason := Plan.eq_of_interruption?_eq_some hinterrupted.found
    refine ⟨job.stream.groups.take produced, ?_⟩
    rw [hresult, Job.result_of_interruptedAt hopened hinterrupted job.plan, hreason]
    rfl

end Accepted

end Options

/-! ## Endings -/

namespace Ending

/-- The ending for what came of options. -/
def ofResult : Except Fault Outcome → Ending
  | .ok outcome => ofOutcome outcome
  | .error reason => fault reason.message

/-- The status with which the program exits. -/
def status : Ending → ℕ
  | digits _ => Program.success
  | fault _ => Program.failure

theorem written_fault_of_notMem {message : String} (h : '\n' ∉ message.toList) :
    (fault message).written = message.toList ++ ['\n'] := by
  rw [written, firstLine_eq_self h]

/-- A message is not confused with one that it is not the beginning of. -/
theorem ne_written_fault {text : List Char} {message : String} (h : ¬ text <+: message.toList) :
    text ++ ['\n'] ≠ (fault message).written := by
  intro heq
  obtain rfl := List.append_cancel_right heq
  exact h (firstLine_isPrefix _)

/-- A text without line feeds is not what is written of a fault. -/
theorem ne_written_fault_of_notMem {text : List Char} (h : '\n' ∉ text) (message : String) :
    text ≠ (fault message).written := by
  rintro rfl
  exact h List.mem_concat_self

end Ending

theorem newline_notMem_of_expansion {room : Option UInt64} {count : UInt64} {text : List Char}
    (h : expansion room count = .ok text) : '\n' ∉ text := by
  rw [expansion] at h
  cases hstart : DigitStream.start room count with
  | error fault =>
    rw [hstart] at h
    contradiction
  | ok stream =>
    rw [hstart] at h
    obtain rfl : Group.concat stream.groups = text := Except.ok.inj h
    exact Group.newline_notMem_concat _

namespace Options

variable {options : Options} {clock : ℕ → ℕ} {room : Option UInt64}
  (granted : ∀ entries, entriesFor options.digits.toUInt64 = .ok entries →
    ∀ limit ∈ room, entries ≤ limit)

include granted

/-- All digits are there if so many are accepted and no look finds that the time is over. -/
theorem ofResult_result_eq_digits
    (h : 1 ≤ options.digits.toInt ∧ options.digits.toInt ≤ 613566756 ∧ options.InTime clock) :
    ∃ text, expansion room options.digits.toUInt64 = .ok text ∧
      Ending.ofResult (options.result clock room) = .digits text := by
  obtain ⟨hpos, hle, hintime⟩ := h
  obtain ⟨entries, accepted⟩ := exists_entriesFor_digits hpos hle
  obtain ⟨stream, hstart, hresult⟩ :=
    result_of_inTime accepted (granted entries accepted) hpos hintime
  refine ⟨Group.concat stream.groups, ?_, ?_⟩
  · rw [expansion, hstart]
    rfl
  · rw [hresult]
    rfl

/-- Otherwise the first thing that is wrong is told. -/
theorem ofResult_result_eq_fault
    (h : ¬ (1 ≤ options.digits.toInt ∧ options.digits.toInt ≤ 613566756 ∧
      options.InTime clock)) :
    Ending.ofResult (options.result clock room) = .fault options.objection := by
  rcases Int.lt_or_le options.digits.toInt 1 with hneg | hpos
  · rw [result_of_lt hneg, objection, if_pos (digits_le_zero_iff.mpr hneg)]
    rfl
  rw [objection, if_neg (by rw [digits_le_zero_iff]; omega)]
  rcases Int.lt_or_le 613566756 options.digits.toInt with hgt | hle
  · have hcount := toNat_toUInt64_digits hpos
    rw [result_of_gt hgt, entriesFor_of_lt (by omega)]
    rfl
  · obtain ⟨entries, accepted⟩ := exists_entriesFor_digits hpos hle
    have hlate : ¬ options.InTime clock := fun hintime => h ⟨hpos, hle, hintime⟩
    obtain ⟨groups, hresult⟩ :=
      result_of_not_inTime accepted (granted entries accepted) hpos hlate
    rw [hresult, accepted]
    rfl

end Options

/-! ## The program -/

namespace Program

section Pure

variable {m : Type → Type} [Monad m] [LawfulMonad m]

theorem runJob_pure (clock : ℕ → ℕ) (job : Job) :
    ∃ events, runJob (fun produced => (pure (clock produced) : m ℕ)) job =
      pure (.ofResult ((job.run fun produced => job.interruption? false (clock produced)).result
        job.plan), events) := by
  rw [runJob]
  simp only [pure_bind]
  rw [Job.runWith_pure, pure_bind]
  cases (job.run _).result job.plan with
  | error fault => exact ⟨_, rfl⟩
  | ok outcome => exact ⟨_, rfl⟩

/-- With a clock that has no other effects, the ending is what comes of the options. -/
theorem produce_pure (clock : ℕ → ℕ) (room : Option UInt64) (options : Options) :
    ∃ events, produce (fun produced => (pure (clock produced) : m ℕ)) room options =
      pure (.ofResult (options.result clock room), events) := by
  rw [produce, Options.result]
  cases options.plan with
  | error fault => exact ⟨[], rfl⟩
  | ok plan =>
    change ∃ events, carryOut _ room plan = pure (.ofResult (plan.carriedOut room _), events)
    rw [carryOut, Plan.carriedOut]
    cases hprepared : Job.prepare room plan with
    | error fault => exact ⟨_, rfl⟩
    | ok job =>
      -- the looks of the program consult the plan of the job, which is the one prepared
      obtain ⟨-, rfl⟩ := Job.prepare_eq_ok_iff.mp hprepared
      obtain ⟨events, hrun⟩ := runJob_pure (m := m) clock job
      dsimp only
      rw [hrun, pure_bind]
      exact ⟨_, rfl⟩

end Pure

/-- Writes to a sink how the program ended. -/
def deliverTo (sink : Sink) (ending : Ending) : Report × Sink :=
  let write (text : List Char) : StateM Sink (Option String) := fun sink =>
    let (failed, after) := sink.writeText text
    (failed.map SinkFailure.message, after)
  (deliver write ending).run sink

/-- Where the sink is obliging, an ending is written in full and its status is what it should
be. -/
theorem deliverTo_of_obliging {sink : Sink} (h : sink.Obliging) (ending : Ending) :
    ∃ after, deliverTo sink ending = ({ status := ending.status }, after) ∧
      after.written = sink.written ++ encoded ending.written := by
  obtain ⟨after, hwrite, hwritten⟩ := Sink.writeText_of_obliging h ending.written
  refine ⟨after, ?_, hwritten⟩
  simp only [deliverTo, deliver, StateT.run, bind, StateT.bind, hwrite]
  cases ending with
  | digits text => rfl
  | fault message => rfl

/-- Nothing is written before the ending is known. -/
theorem runTo_of_parse {arguments : List String} {options : Options}
    (parsed : CommandLine.parse arguments = .ok options) (clock : ℕ → ℕ) (room : Option UInt64)
    (sink : Sink) :
    ∃ events, runTo clock room sink arguments =
      ({ (deliverTo sink (.ofResult (options.result clock room))).1 with events },
        (deliverTo sink (.ofResult (options.result clock room))).2) := by
  obtain ⟨events, hproduce⟩ := produce_pure (m := StateM Sink) clock room options
  refine ⟨events, ?_⟩
  rw [runTo, run, parsed]
  dsimp only
  rw [hproduce, pure_bind]
  rfl

/-- Where the sink is obliging, the ending is all that is to be seen of a run. Whether an audit was
asked for shows neither in what is written nor in the status. -/
theorem runTo_of_obliging {options : Options} (clock : ℕ → ℕ) (room : Option UInt64) {sink : Sink}
    (obliging : sink.Obliging) {ending : Ending}
    (h : .ofResult (options.result clock room) = ending) :
    ∃ after, after.written = sink.written ++ encoded ending.written ∧
      ∀ audited arguments, CommandLine.parse arguments = .ok { options with audited } →
        ∃ report, runTo clock room sink arguments = (report, after) ∧
          report.status = ending.status := by
  obtain ⟨after, hdeliver, hwritten⟩ := deliverTo_of_obliging obliging ending
  refine ⟨after, hwritten, ?_⟩
  intro audited arguments parsed
  obtain ⟨events, hrun⟩ := runTo_of_parse parsed clock room sink
  rw [Options.result_with_audited, h, hdeliver] at hrun
  exact ⟨_, hrun, rfl⟩

/-- The program writes all the digits, or a single line and no digits. Where so many digits are
accepted and no look finds that the time is over, it succeeds with the expansion and no line end,
and an audit makes no difference. In every other case it fails with one line that tells the first
thing that is wrong; of a message with several lines only the first would be written. Some of the
digits but not all are never written, and neither a cancellation nor a wrong digit is ever
reported. -/
theorem all_or_nothing {arguments : List String} {options : Options}
    (parsed : CommandLine.parse arguments = .ok options) {room : Option UInt64}
    (granted : ∀ entries, entriesFor options.digits.toUInt64 = .ok entries →
      ∀ limit ∈ room, entries ≤ limit) {sink : Sink} (obliging : sink.Obliging)
    (clock : ℕ → ℕ) :
    (∃ report after text, runTo clock room sink arguments = (report, after) ∧
      after.written = sink.written ++ encoded text ∧
      (report.status = success ∧ expansion room options.digits.toUInt64 = .ok text ∧
          10 ∉ encoded text ∨
        report.status = failure ∧ text = options.objection.toList ++ ['\n'] ∧
          IsLine (encoded text) ∧ ∀ groups, ¬ text <+: Group.concat groups) ∧
      (report.status = success ↔ 1 ≤ options.digits.toInt ∧
        options.digits.toInt ≤ 613566756 ∧ options.InTime clock) ∧
      (∀ audited others, CommandLine.parse others = .ok { options with audited } →
        ∃ report', runTo clock room sink others = (report', after) ∧
          report'.status = report.status) ∧
      text ≠ (Ending.fault "generation cancelled").written ∧
      ∀ position expected actual,
        text ≠ (Ending.fault (Fault.wrongDigit position expected actual).message).written) ∧
    ∀ message, ∃ after, deliverTo sink (.fault message) = ({ status := failure }, after) ∧
      after.written = sink.written ++ encoded (firstLine message.toList ++ ['\n']) ∧
      IsLine (encoded (firstLine message.toList ++ ['\n'])) := by
  constructor
  · by_cases h : 1 ≤ options.digits.toInt ∧ options.digits.toInt ≤ 613566756 ∧
        options.InTime clock
    · obtain ⟨text, hexpansion, hending⟩ := Options.ofResult_result_eq_digits granted h
      obtain ⟨after, hwritten, hruns⟩ := runTo_of_obliging clock room obliging hending
      obtain ⟨report, hrun, hstatus⟩ := hruns options.audited arguments parsed
      have hnewline := newline_notMem_of_expansion hexpansion
      -- the digits are written, and every fault has a line feed that they do not have
      refine ⟨report, after, text, hrun, hwritten, .inl ⟨hstatus, hexpansion, ?_⟩, ?_, ?_, ?_, ?_⟩
      · rwa [newline_mem_encoded]
      · exact iff_of_true hstatus h
      · rw [hstatus]
        exact hruns
      · exact Ending.ne_written_fault_of_notMem hnewline _
      · intro position expected actual
        exact Ending.ne_written_fault_of_notMem hnewline _
    · have hending := Options.ofResult_result_eq_fault granted h
      have hnewline := options.newline_notMem_objection
      obtain ⟨after, hwritten, hruns⟩ := runTo_of_obliging clock room obliging hending
      obtain ⟨report, hrun, hstatus⟩ := hruns options.audited arguments parsed
      rw [Ending.written_fault_of_notMem hnewline] at hwritten
      -- the line is the objection itself, which begins neither digits nor any other message
      refine ⟨report, after, _, hrun, hwritten, .inr ⟨hstatus, rfl, ?_, ?_⟩, ?_, ?_, ?_, ?_⟩
      · exact isLine_encoded hnewline
      · intro groups hbegins
        exact Group.newline_notMem_concat groups (hbegins.subset List.mem_concat_self)
      · exact iff_of_false (by rw [hstatus]; exact Nat.one_ne_zero) h
      · rw [hstatus]
        exact hruns
      · exact Ending.ne_written_fault options.not_objection_prefix_cancelled
      · intro position expected actual
        exact Ending.ne_written_fault
          (options.not_objection_prefix_wrongDigit position expected actual)
  · intro message
    obtain ⟨after, hdeliver, hwritten⟩ := deliverTo_of_obliging obliging (.fault message)
    exact ⟨after, hdeliver, hwritten, isLine_encoded (newline_notMem_firstLine _)⟩

/-- Ten digits in five milliseconds, written byte by byte. In four milliseconds they are all
there; with two for each group, the look after the last one finds that the time is over. -/
theorem all_or_nothing_ten :
    let arguments := ["--digits", "10", "--verify", "--timeout-ms=5"]
    let options : Options := { digits := 10, timeout := some 5, audited := true }
    let sink : Sink := { chunk := some 1, interrupts := 2 }
    CommandLine.parse arguments = .ok options ∧ sink.Obliging ∧
      (∀ entries, entriesFor options.digits.toUInt64 = .ok entries →
        ∀ limit ∈ some (43 : UInt64), entries ≤ limit) ∧
      (∃ report after, runTo (fun _ => 4) (some 43) sink arguments = (report, after) ∧
        report.status = success ∧ after.written = encoded "314159265358".toList) ∧
      ∃ report after, runTo (2 * ·) (some 43) sink arguments = (report, after) ∧
        report.status = failure ∧
        after.written = encoded "timeout reached before all groups were generated\n".toList := by
  intro arguments options sink
  have parsed : CommandLine.parse arguments = .ok options := by decide +kernel
  have obliging : sink.Obliging := ⟨rfl, rfl⟩
  have accepted : entriesFor options.digits.toUInt64 = .ok 43 := by decide
  have granted : ∀ entries, entriesFor options.digits.toUInt64 = .ok entries →
      ∀ limit ∈ some (43 : UInt64), entries ≤ limit := by
    intro entries hentries limit hlimit
    obtain rfl : 43 = entries := Except.ok.inj (accepted.symm.trans hentries)
    obtain rfl : 43 = limit := Option.some.inj hlimit
    exact UInt64.le_refl 43
  refine ⟨parsed, obliging, granted, ?_, ?_⟩
  · obtain ⟨⟨report, after, text, hrun, hwritten, hways, hsuccess, -⟩, -⟩ :=
      all_or_nothing parsed granted obliging fun _ => 4
    have hstatus : report.status = success := by
      refine hsuccess.mpr ⟨by decide, by decide, ?_⟩
      intro groups hgroups produced hle limit hlimit
      obtain rfl : 5 = limit := Option.some.inj hlimit
      exact Nat.lt_succ_self 4
    rcases hways with ⟨-, hexpansion, -⟩ | ⟨hfailure, -⟩
    · have hdigits : expansion (some 43) 10 = .ok "314159265358".toList := by decide +kernel
      obtain rfl : text = "314159265358".toList :=
        Except.ok.inj (hexpansion.symm.trans hdigits)
      exact ⟨report, after, hrun, hstatus, hwritten.trans (List.nil_append _)⟩
    · exact absurd (hstatus.symm.trans hfailure) (by decide)
  · obtain ⟨⟨report, after, text, hrun, hwritten, hways, hsuccess, -⟩, -⟩ :=
      all_or_nothing parsed granted obliging (2 * ·)
    rcases hways with ⟨hstatus, -⟩ | ⟨hfailure, htext, -⟩
    · have hthree : groupsFor options.digits.toUInt64 = .ok 3 := by decide
      have hintime : options.InTime (2 * ·) := (hsuccess.mp hstatus).2.2
      exact absurd (hintime 3 hthree 3 (Nat.le_refl 3) 5 rfl) (by decide)
    · have hline : options.objection.toList ++ ['\n'] =
          "timeout reached before all groups were generated\n".toList := by decide +kernel
      rw [htext, hline] at hwritten
      exact ⟨report, after, hrun, hfailure, hwritten.trans (List.nil_append _)⟩

end Program

end DecimalPi
