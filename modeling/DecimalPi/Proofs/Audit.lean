import DecimalPi.Proofs.Job
import DecimalPi.Proofs.Reference

/-!
# The audit never raises a false alarm

The groups of a complete expansion always pass the audit, however long the expansion is. Each
length starts from a table of its own and gives up its terms at places of its own; what all
lengths have in common is the accuracy of their groups. It makes every group but the last equal
to the block of the reference digits at its place, as far as these go. So a plan may ask for an
audit without any effect on what comes of it.

## Main definitions

* `Plan.carriedOut`: what comes of a plan under a schedule of interruptions.

## Main results

* `audit_eq_ok` and `min_length_trustedDigits`: groups that are written with the blocks of the
  reference pass the audit, and how many digits of them are compared;
* `lastGroupSkipped_mem_auditEvents_iff` and `digitsVerified_mem_auditEvents_iff`: what an audit
  logs tells what it did and its verdict;
* `DigitStream.Opened.toNat_value_getElem`: the groups of a stream are the leading ones of `π`;
* `Run.result_eq_ok`: an audit that a complete run passes has no effect on results;
* `audit_never_alarms`: no audit fails, and no plan is affected by one.
-/

namespace DecimalPi

/-! ## Texts that agree -/

@[simp]
theorem firstDifference?_nil_left (position : ℕ) (expected : List Char) :
    firstDifference? position [] expected = none := by
  rw [firstDifference?]
  simp

@[simp]
theorem firstDifference?_nil_right (position : ℕ) (actual : List Char) :
    firstDifference? position actual [] = none := by
  cases actual <;> rfl

/-- What two texts have in common at their beginning is passed over. -/
theorem firstDifference?_append (position : ℕ) (common actual expected : List Char) :
    firstDifference? position (common ++ actual) (common ++ expected) =
      firstDifference? (position + common.length) actual expected := by
  induction common generalizing position with
  | nil => rfl
  | cons character common ih =>
    rw [List.cons_append, List.cons_append, firstDifference?, if_pos rfl, ih,
      List.length_cons, Nat.add_assoc, Nat.add_comm 1]

/-- Groups that are written with the blocks of a text are its beginning. -/
theorem concat_take_eq_take {groups : List Group} {text : List Char} {count : ℕ}
    (hle : count ≤ groups.length)
    (h : ∀ index (hlt : index < groups.length), index < count →
      groups[index].digits = (text.drop (4 * index)).take 4) :
    Group.concat (groups.take count) = text.take (4 * count) := by
  induction count with
  | zero => rfl
  | succ count ih =>
    have hbefore := ih (by omega) fun index hlt hcount => h index hlt (by omega)
    rw [← List.take_append_getElem hle, Group.concat_append, hbefore, Group.concat_cons,
      Group.concat_nil, List.append_nil, h count hle (Nat.lt_add_one count), Nat.mul_succ,
      List.take_add]

theorem length_reference : reference.length = 800 := by
  rw [reference_eq_places, length_places]

section Blocks

variable {groups : List Group}
  (h : ∀ index (hlt : index < groups.length), index < min (groups.length - 1) 200 →
    groups[index].digits = (reference.drop (4 * index)).take 4)

include h

/-- What is trusted of the groups and the reference have a beginning in common, at the end of which
one of the two ends. -/
theorem exists_common_digits :
    ∃ common rest rest', trustedDigits groups = common ++ rest ∧ reference = common ++ rest' ∧
      common.length = min (4 * (groups.length - 1)) 800 ∧ (rest = [] ∨ rest' = []) := by
  obtain ⟨compared, hcompared⟩ : ∃ compared, compared = min (groups.length - 1) 200 := ⟨_, rfl⟩
  have hcommon : Group.concat (groups.dropLast.take compared) = reference.take (4 * compared) := by
    rw [List.dropLast_eq_take, List.take_take, Nat.min_eq_left (by omega)]
    exact concat_take_eq_take (by omega) fun index hlt hindex => h index hlt (by omega)
  refine ⟨reference.take (4 * compared), Group.concat (groups.dropLast.drop compared),
    reference.drop (4 * compared), ?_, (List.take_append_drop _ _).symm, ?_, ?_⟩
  · rw [← hcommon, ← Group.concat_append, List.take_append_drop, trustedDigits]
  · rw [List.length_take, length_reference]
    omega
  · rcases Nat.le_total (groups.length - 1) 200 with hfew | hmany
    · left
      rw [List.drop_of_length_le (by rw [List.length_dropLast]; omega), Group.concat_nil]
    · right
      exact List.drop_of_length_le (by rw [length_reference]; omega)

/-- Groups of which all but the last are written with the blocks of the reference, as far as
that goes, pass the audit. -/
theorem audit_eq_ok : audit groups = .ok () := by
  obtain ⟨common, rest, rest', htrusted, hreference, -, hend⟩ := exists_common_digits h
  have hdifference : firstDifference? 0 (trustedDigits groups) reference = none := by
    rw [htrusted, hreference, firstDifference?_append]
    obtain rfl | rfl := hend
    · exact firstDifference?_nil_left _ _
    · exact firstDifference?_nil_right _ _
  rw [audit, hdifference]

/-- All of the reference is compared, or all digits of the groups, four of each. -/
theorem min_length_trustedDigits :
    min (trustedDigits groups).length reference.length = min (4 * (groups.length - 1)) 800 := by
  obtain ⟨common, rest, rest', htrusted, hreference, hlength, hend⟩ := exists_common_digits h
  rw [htrusted, hreference, List.length_append, List.length_append, hlength]
  obtain rfl | rfl := hend
  · rw [List.length_nil]
    omega
  · rw [List.length_nil]
    omega

end Blocks

/-! ## The log of an audit -/

/-- An audit that succeeds logs which group is left out and how many digits agree. -/
theorem auditEvents_of_ok {groups : List Group} {last : Group}
    (hlast : groups.getLast? = some last) (haudit : audit groups = .ok ()) :
    auditEvents groups = [.lastGroupSkipped last,
      .digitsVerified (min (trustedDigits groups).length reference.length)] := by
  simp only [auditEvents, hlast, haudit]

/-- Whatever its verdict is, an audit logs which group is left out. -/
theorem lastGroupSkipped_mem_auditEvents_iff {groups : List Group} {group : Group} :
    .lastGroupSkipped group ∈ auditEvents groups ↔ groups.getLast? = some group := by
  rw [auditEvents]
  cases groups.getLast? with
  | none => simp
  | some last => cases audit groups <;> simp [eq_comm]

/-- An audit logs that digits agree exactly if that is its verdict. -/
theorem digitsVerified_mem_auditEvents_iff {groups : List Group} {count : ℕ} :
    .digitsVerified count ∈ auditEvents groups ↔
      groups ≠ [] ∧ audit groups = .ok () ∧
        count = min (trustedDigits groups).length reference.length := by
  rw [auditEvents, ← List.getLast?_isSome]
  cases groups.getLast? with
  | none => simp
  | some last => cases audit groups <;> simp

/-! ## Groups of a stream -/

namespace DigitStream

namespace Opened

variable {groups passes index : ℕ} {stream : DigitStream} (h : Opened groups stream)

include h

/-- Before the last group, and as far as they are known, the groups of the stream spell the
leading groups of `π`. -/
theorem spelled_eq_leading (hlt : passes < groups) (hle : passes ≤ 200) :
    spelled (stream.emitted passes) = leading passes := by
  rcases Nat.eq_zero_or_pos passes with rfl | hpos
  · exact leading_zero.symm
  · obtain ⟨last, hlast, hknown⟩ : ∃ last, 14 * groups ≤ last ∧ 2828 ≤ last :=
      ⟨14 * groups + 2828, by omega, by omega⟩
    obtain ⟨hlower, hupper⟩ := target_bounds hle hknown
    have haccount := h.account_le_target hlt.le hlast
    have htarget := h.target_lt_account_add_three hpos hlt hlast
    -- The account is a whole number: it cannot be below the groups if it is less than one short.
    have hfrom : 10000 * leading passes < stream.account passes + 1 := by
      have : (10000 * leading passes : ℚ) < stream.account passes + 1 := by linarith
      exact_mod_cast this
    have hto : stream.account passes < 10000 * (leading passes + 1) := by
      have : (stream.account passes : ℚ) < 10000 * (leading passes + 1) := by linarith
      exact_mod_cast this
    have hcarry := h.carry_pull_lt hpos hlt.le
    rw [account] at hfrom hto
    omega

/-- Each of these groups is the next one of `π`. -/
theorem toNat_value_getElem (hlt : index < groups - 1) (hle : index < 200)
    (hindex : index < stream.groups.length) :
    stream.groups[index].value.toNat = leading (index + 1) % 10000 := by
  have hbefore := h.spelled_eq_leading (by omega : index < groups) hle.le
  have hafter := h.spelled_eq_leading (by omega : index + 1 < groups) hle
  have hdiv := leading_succ_div hle.le
  rw [h.emitted_succ hindex, spelled_concat, hbefore] at hafter
  omega

theorem digits_getElem (hlt : index < groups - 1) (hle : index < 200)
    (hindex : index < stream.groups.length) :
    stream.groups[index].digits = (reference.drop (4 * index)).take 4 := by
  have hvalue := h.toNat_value_getElem hlt hle hindex
  have hsmall : stream.groups[index].value.toNat < 10000 := by
    rw [hvalue]
    exact Nat.mod_lt _ (by norm_num)
  rw [Group.digits_eq_places hsmall, hvalue, reference_block hle]
  exact places_mod le_rfl _

theorem digits_eq_block_of_lt_min (hindex : index < stream.groups.length)
    (hlt : index < min (stream.groups.length - 1) 200) :
    stream.groups[index].digits = (reference.drop (4 * index)).take 4 := by
  rw [h.length_groups] at hlt
  exact h.digits_getElem (by omega) (by omega) hindex

theorem audit_groups : audit stream.groups = .ok () :=
  audit_eq_ok fun _ hindex hlt => h.digits_eq_block_of_lt_min hindex hlt

/-- The audit of a stream compares four digits of each group but the last, as far as they are
known. -/
theorem auditEvents_groups {last : Group} (hlast : stream.groups.getLast? = some last) :
    auditEvents stream.groups =
      [.lastGroupSkipped last, .digitsVerified (min (4 * (groups - 1)) 800)] := by
  have hcount := min_length_trustedDigits fun _ hindex hlt => h.digits_eq_block_of_lt_min hindex hlt
  rw [auditEvents_of_ok hlast h.audit_groups, hcount, h.length_groups]

end Opened

end DigitStream

/-! ## Results of runs -/

/-- A complete run that passes the audit, and any other run, has its outcome for a result. -/
theorem Run.result_eq_ok {plan : Plan} {run : Run}
    (h : run.interruption = none → audit run.groups = .ok ()) :
    run.result plan = .ok run.outcome := by
  rw [result]
  split_ifs with haudited
  · rw [h (isAudited_iff.mp haudited).2]
  · rfl

/-- An audit that succeeds where it can be made has no effect on the results of runs. -/
theorem Job.result_run {job : Job} (haudit : audit job.stream.groups = .ok ())
    (plan : Plan) (schedule : ℕ → Option Interruption) :
    (job.run schedule).result plan = .ok (job.run schedule).outcome := by
  refine Run.result_eq_ok fun hcomplete => ?_
  rw [groups_of_uninterrupted hcomplete]
  exact haudit

/-- What comes of a plan that is carried out under a schedule of interruptions. -/
def Plan.carriedOut (room : Option UInt64) (schedule : ℕ → Option Interruption) (plan : Plan) :
    Except Fault Outcome := do
  let job ← Job.prepare room plan
  (job.run schedule).result plan

/-- The groups of every stream that can be opened pass the audit. -/
theorem DigitStream.audit_groups_of_start {room : Option UInt64} {count : UInt64}
    {stream : DigitStream} (hstart : start room count = .ok stream) :
    audit stream.groups = .ok () := by
  obtain ⟨entries, accepted, granted, -⟩ := start_eq_ok_iff.mp hstart
  obtain ⟨groups, opened, -, hopen, -, hopened⟩ := exists_opened accepted granted
  obtain rfl : stream = opened := Except.ok.inj (hstart.symm.trans hopen)
  exact hopened.audit_groups

namespace Plan

variable (room : Option UInt64) (schedule : ℕ → Option Interruption) (plan : Plan)

/-- What comes of a plan in terms of its stream. -/
theorem carriedOut_eq :
    plan.carriedOut room schedule =
      (DigitStream.start room plan.digits).map fun stream =>
        (Job.run schedule { plan, stream }).outcome := by
  rw [carriedOut, Job.prepare]
  cases hstart : DigitStream.start room plan.digits with
  | error fault => rfl
  | ok stream =>
    have haudit : audit (Job.stream { plan, stream }).groups = .ok () :=
      DigitStream.audit_groups_of_start hstart
    exact Job.result_run haudit plan schedule

end Plan

/-- The audit never raises a false alarm. Where a number of digits is accepted and there is room
for its table, the groups of the expansion pass the audit, because each of them but the last is
the number that four characters of the reference spell. Whatever a plan is and whenever it is
interrupted, the same comes of it with an audit and without one, and it is never a wrong digit. -/
theorem audit_never_alarms (room : Option UInt64) :
    (∀ count entries, entriesFor count = .ok entries → (∀ limit ∈ room, entries ≤ limit) →
      ∃ groups stream, groupsFor count = .ok groups ∧
        DigitStream.start room count = .ok stream ∧ stream.groups.length = groups.toNat ∧
        audit stream.groups = .ok () ∧
        ∀ index (hindex : index < stream.groups.length), index < min (groups.toNat - 1) 200 →
          stream.groups[index].value.toNat =
            Nat.ofDigitChars 10 ((reference.drop (4 * index)).take 4) 0) ∧
    ∀ (plan : Plan) (schedule : ℕ → Option Interruption),
      { plan with audited := true }.carriedOut room schedule =
        { plan with audited := false }.carriedOut room schedule ∧
      ∀ position expected actual, plan.carriedOut room schedule ≠
        .error (.wrongDigit position expected actual) := by
  refine ⟨?_, fun plan schedule => ⟨?_, ?_⟩⟩
  · intro count entries accepted granted
    obtain ⟨groups, stream, hgroups, hstart, -, hopened⟩ :=
      DigitStream.exists_opened accepted granted
    refine ⟨groups, stream, hgroups, hstart, hopened.length_groups, hopened.audit_groups, ?_⟩
    intro index hindex hlt
    rw [hopened.toNat_value_getElem (by omega) (by omega), reference_block (by omega),
      ofDigitChars_places]
    norm_num
  · rw [Plan.carriedOut_eq, Plan.carriedOut_eq]
    rfl
  · intro position expected actual
    rw [Plan.carriedOut_eq]
    cases hstart : DigitStream.start room plan.digits with
    | error fault =>
      rcases DigitStream.eq_of_start_eq_error hstart with rfl | rfl | ⟨entries, rfl⟩ <;>
        simp [Except.map]
    | ok stream => simp [Except.map]

/-- Ten digits, of which two groups are compared, and a run of them that is cancelled before its
second group. -/
theorem audit_never_alarms_ten :
    entriesFor 10 = .ok 43 ∧
      (∃ stream, DigitStream.start none 10 = .ok stream ∧ audit stream.groups = .ok () ∧
        ∃ hindex : 1 < stream.groups.length, stream.groups[1].value.toNat = 5926) ∧
      { digits := 10, audited := true : Plan }.carriedOut none
          (fun produced => if produced = 1 then some .cancelled else none) =
        { digits := 10, audited := false : Plan }.carriedOut none
          (fun produced => if produced = 1 then some .cancelled else none) := by
  have accepted : entriesFor 10 = .ok 43 := by decide
  have granted : ∀ limit ∈ (none : Option UInt64), (43 : UInt64) ≤ limit := by simp
  obtain ⟨haudit, hplan⟩ := audit_never_alarms none
  obtain ⟨groups, stream, hgroups, hstart, hlength, hpassed, hvalues⟩ :=
    haudit 10 43 accepted granted
  obtain rfl : groups = 3 := by
    have hthree : groupsFor 10 = .ok 3 := by decide
    exact Except.ok.inj (hgroups.symm.trans hthree)
  have hindex : 1 < stream.groups.length := by rw [hlength]; decide
  refine ⟨accepted, ⟨stream, hstart, hpassed, hindex, ?_⟩, (hplan { digits := 10 } _).1⟩
  rw [hvalues 1 hindex (by decide)]
  decide +kernel

end DecimalPi
