import DecimalPi.Proofs.Audit

/-!
# The audit reports the first difference

An audit compares characters and knows nothing of groups. These may be written with any number
of characters, so that they begin anywhere in the reference, and one of them may reach beyond
its end. What is reported is the first place at which the digits in front of the last group are
not those of the reference, with both characters that stand there.

A report is settled by the digits up to that place. Groups that follow cannot change it; where
the digits have reached the end of the reference, they cannot even add one. The last group never
takes part, however it is written.

## Main definitions

* `Difference.IsFirst`: the first difference of two texts, place by place.

## Main results

* `firstDifference?_eq_some_iff`: what is in front of a difference, and what stands there;
* `audit_eq_error_iff` and `audit_eq_ok_iff`: what an audit reports;
* `Difference.IsFirst.append` and `Difference.isFirst_append_iff`: differences of longer texts;
* `audit_reports_first_difference`: all of this for groups of any width.
-/

namespace DecimalPi

/-- The difference is the first one of two texts, in the part that both of them cover. -/
structure Difference.IsFirst (actual expected : List Char) (difference : Difference) :
    Prop where
  position_lt : difference.position < min actual.length expected.length
  actual_eq : actual[difference.position]? = some difference.actual
  expected_eq : expected[difference.position]? = some difference.expected
  ne : difference.actual ≠ difference.expected
  agree : ∀ before < difference.position, actual[before]? = expected[before]?

/-! ## The comparison of two texts -/

/-- A difference is found behind what both texts begin with. -/
theorem firstDifference?_eq_some_iff {position : ℕ} {actual expected : List Char}
    {difference : Difference} :
    firstDifference? position actual expected = some difference ↔
      ∃ common rest rest', actual = common ++ difference.actual :: rest ∧
        expected = common ++ difference.expected :: rest' ∧
        difference.actual ≠ difference.expected ∧
        difference.position = position + common.length := by
  constructor
  · intro h
    induction actual generalizing position expected with
    | nil => simp at h
    | cons a actual ih =>
      cases expected with
      | nil => simp at h
      | cons e expected =>
        rw [firstDifference?] at h
        by_cases heq : a = e
        · -- equal characters become part of what the texts have in common
          subst heq
          rw [if_pos rfl] at h
          obtain ⟨common, rest, rest', rfl, rfl, hne, hposition⟩ := ih h
          refine ⟨a :: common, rest, rest', rfl, rfl, hne, ?_⟩
          rw [hposition, List.length_cons]
          omega
        · rw [if_neg heq] at h
          obtain rfl := Option.some.inj h
          exact ⟨[], actual, expected, rfl, rfl, heq, rfl⟩
  · rintro ⟨common, rest, rest', rfl, rfl, hne, hposition⟩
    rw [firstDifference?_append, firstDifference?, if_neg hne, ← hposition]

namespace Difference

variable {actual expected : List Char} {difference : Difference}

theorem isFirst_iff_append :
    difference.IsFirst actual expected ↔
      ∃ common rest rest', actual = common ++ difference.actual :: rest ∧
        expected = common ++ difference.expected :: rest' ∧
        difference.actual ≠ difference.expected ∧ difference.position = common.length := by
  constructor
  · intro h
    have hactual := (Nat.lt_min.mp h.position_lt).1
    -- the texts are cut at the place of the difference
    have hcommon : expected.take difference.position = actual.take difference.position := by
      refine List.ext_getElem? fun index => ?_
      rcases Nat.lt_or_ge index difference.position with hlt | hge
      · rw [List.getElem?_take_of_lt hlt, List.getElem?_take_of_lt hlt, h.agree index hlt]
      · rw [List.getElem?_take_eq_none hge, List.getElem?_take_eq_none hge]
    have hcut : ∀ {text : List Char} {character : Char},
        text[difference.position]? = some character →
        text = text.take difference.position ++
          character :: text.drop (difference.position + 1) := by
      intro text character hcharacter
      obtain ⟨hlt, rfl⟩ := List.getElem?_eq_some_iff.mp hcharacter
      rw [List.getElem_cons_drop, List.take_append_drop]
    have hexpected := hcut h.expected_eq
    rw [hcommon] at hexpected
    refine ⟨actual.take difference.position, _, _, hcut h.actual_eq, hexpected, h.ne, ?_⟩
    rw [List.length_take_of_le hactual.le]
  · rintro ⟨common, rest, rest', rfl, rfl, hne, hposition⟩
    refine
      { position_lt := by rw [hposition]; simp
        actual_eq := by rw [hposition]; simp
        expected_eq := by rw [hposition]; simp
        ne := hne
        agree := ?_ }
    intro before hbefore
    rw [hposition] at hbefore
    rw [List.getElem?_append_left hbefore, List.getElem?_append_left hbefore]

theorem isFirst_iff_firstDifference? :
    difference.IsFirst actual expected ↔ firstDifference? 0 actual expected = some difference := by
  simp only [isFirst_iff_append, firstDifference?_eq_some_iff, Nat.zero_add]

/-- A text that goes on has the same first difference. -/
theorem IsFirst.append (h : difference.IsFirst actual expected) (more : List Char) :
    difference.IsFirst (actual ++ more) expected := by
  obtain ⟨common, rest, rest', rfl, hexpected⟩ := isFirst_iff_append.mp h
  exact isFirst_iff_append.mpr ⟨common, rest ++ more, rest', by simp, hexpected⟩

/-- A text that has covered the other one can go on without a difference. -/
theorem isFirst_append_iff (hcovered : expected.length ≤ actual.length) (more : List Char) :
    difference.IsFirst (actual ++ more) expected ↔ difference.IsFirst actual expected := by
  refine ⟨fun h => ?_, fun h => h.append more⟩
  have hlt : difference.position < actual.length :=
    (Nat.lt_min.mp h.position_lt).2.trans_le hcovered
  have hbefore : ∀ before ≤ difference.position, (actual ++ more)[before]? = actual[before]? :=
    fun before hle => List.getElem?_append_left (by omega)
  exact
    { position_lt := Nat.lt_min.mpr ⟨hlt, (Nat.lt_min.mp h.position_lt).2⟩
      actual_eq := (hbefore _ le_rfl).symm.trans h.actual_eq
      expected_eq := h.expected_eq
      ne := h.ne
      agree := fun before hlt => (hbefore before hlt.le).symm.trans (h.agree before hlt) }

end Difference

/-! ## The report of an audit -/

theorem trustedDigits_concat (groups : List Group) (last : Group) :
    trustedDigits (groups ++ [last]) = Group.concat groups := by
  rw [trustedDigits, List.dropLast_concat]

theorem audit_eq_error_iff {groups : List Group} {fault : Fault} :
    audit groups = .error fault ↔
      ∃ difference : Difference, difference.IsFirst (trustedDigits groups) reference ∧
        fault = .wrongDigit difference.position difference.expected difference.actual := by
  simp only [Difference.isFirst_iff_firstDifference?]
  rw [audit]
  cases firstDifference? 0 (trustedDigits groups) reference with
  | none => simp
  | some difference => simp [eq_comm]

theorem audit_eq_ok_iff {groups : List Group} :
    audit groups = .ok () ↔
      ¬∃ difference : Difference, difference.IsFirst (trustedDigits groups) reference := by
  simp only [Difference.isFirst_iff_firstDifference?]
  rw [audit]
  cases firstDifference? 0 (trustedDigits groups) reference with
  | none => simp
  | some difference => simp

/-- Groups that follow do not change a report. -/
theorem audit_append_eq_error {groups : List Group} {last : Group} {fault : Fault}
    (h : audit (groups ++ [last]) = .error fault) (more : List Group) (last' : Group) :
    audit (groups ++ more ++ [last']) = .error fault := by
  rw [audit_eq_error_iff, trustedDigits_concat] at h
  obtain ⟨difference, hfirst, hfault⟩ := h
  rw [audit_eq_error_iff, trustedDigits_concat, Group.concat_append]
  exact ⟨difference, hfirst.append _, hfault⟩

/-- Two audits that look at digits with the same first difference give the same report. -/
theorem audit_congr {groups groups' : List Group}
    (h : ∀ difference : Difference, difference.IsFirst (trustedDigits groups) reference ↔
      difference.IsFirst (trustedDigits groups') reference) :
    audit groups = audit groups' := by
  cases haudit : audit groups' with
  | ok _ =>
    rw [audit_eq_ok_iff] at haudit ⊢
    simpa only [h] using haudit
  | error fault =>
    rw [audit_eq_error_iff] at haudit ⊢
    simpa only [h] using haudit

/-- The audit of any groups and a last one reports the first difference that the digits of the
groups have from the reference, and nothing if there is none. A report stays the same when
groups follow, and groups that pass could have ended earlier. Groups that reach the end of the
reference settle the report, and the last group has no part in it. -/
theorem audit_reports_first_difference (groups : List Group) (last : Group) :
    reference.length = 800 ∧
      (∀ position expected actual,
        audit (groups ++ [last]) = .error (.wrongDigit position expected actual) ↔
          Difference.IsFirst (Group.concat groups) reference { position, expected, actual }) ∧
      (audit (groups ++ [last]) = .ok () ↔
        ¬∃ position expected actual,
          Difference.IsFirst (Group.concat groups) reference { position, expected, actual }) ∧
      (∀ more last' fault, audit (groups ++ [last]) = .error fault →
        audit (groups ++ more ++ [last']) = .error fault) ∧
      (∀ more last', audit (groups ++ more ++ [last']) = .ok () →
        audit (groups ++ [last]) = .ok ()) ∧
      (800 ≤ (Group.concat groups).length → ∀ more last',
        audit (groups ++ more ++ [last']) = audit (groups ++ [last])) ∧
      ∀ last', audit (groups ++ [last']) = audit (groups ++ [last]) := by
  refine ⟨length_reference, ?_, ?_, ?_, ?_, ?_, ?_⟩
  · intro position expected actual
    rw [audit_eq_error_iff, trustedDigits_concat]
    constructor
    · rintro ⟨⟨_, _, _⟩, hfirst, hfault⟩
      cases hfault
      exact hfirst
    · intro hfirst
      exact ⟨_, hfirst, rfl⟩
  · rw [audit_eq_ok_iff, trustedDigits_concat]
    refine not_congr ⟨?_, ?_⟩
    · rintro ⟨⟨position, expected, actual⟩, hfirst⟩
      exact ⟨position, expected, actual, hfirst⟩
    · rintro ⟨position, expected, actual, hfirst⟩
      exact ⟨_, hfirst⟩
  · intro more last' fault hfault
    exact audit_append_eq_error hfault more last'
  · intro more last' hpassed
    -- a report on the shorter list would be one on the longer
    cases haudit : audit (groups ++ [last]) with
    | ok _ => rfl
    | error fault =>
      rw [audit_append_eq_error haudit more last'] at hpassed
      contradiction
  · intro hlength more last'
    refine audit_congr fun difference => ?_
    rw [trustedDigits_concat, trustedDigits_concat, Group.concat_append]
    refine Difference.isFirst_append_iff ?_ _
    rw [length_reference]
    exact hlength
  · intro last'
    refine audit_congr fun difference => ?_
    rw [trustedDigits_concat, trustedDigits_concat]

/-- A group of five digits moves the one after it out of its block. What is written across the
blocks is compared all the same, whatever comes after it; and a hundred and sixty such groups
reach the end of the reference. -/
theorem audit_reports_first_difference_wide :
    audit ([⟨31415⟩, ⟨9266⟩] ++ [⟨0⟩]) = .error (.wrongDigit 8 '5' '6') ∧
      audit ([⟨31415⟩, ⟨9266⟩] ++ [⟨5358⟩, ⟨979⟩] ++ [⟨10000⟩]) =
        .error (.wrongDigit 8 '5' '6') ∧
      audit ([⟨31415⟩, ⟨9265⟩] ++ [⟨3589⟩] ++ [⟨0⟩]) = .ok () ∧
      audit ([⟨31415⟩, ⟨9265⟩] ++ [⟨10000⟩]) = .ok () ∧
      800 ≤ (Group.concat (List.replicate 160 ⟨31415⟩)).length ∧
      audit (List.replicate 160 ⟨31415⟩ ++ [⟨9265⟩] ++ [⟨0⟩]) =
        audit (List.replicate 160 ⟨31415⟩ ++ [⟨10000⟩]) := by
  have hfault : audit ([⟨31415⟩, ⟨9266⟩] ++ [⟨0⟩]) = .error (.wrongDigit 8 '5' '6') := by
    decide +kernel
  have hpassed : audit ([⟨31415⟩, ⟨9265⟩] ++ [⟨3589⟩] ++ [⟨0⟩]) = .ok () := by decide +kernel
  have hlength : 800 ≤ (Group.concat (List.replicate 160 ⟨31415⟩)).length := by decide +kernel
  obtain ⟨-, -, -, hextended, -, -, -⟩ := audit_reports_first_difference [⟨31415⟩, ⟨9266⟩] ⟨0⟩
  obtain ⟨-, -, -, -, hshortened, -, -⟩ :=
    audit_reports_first_difference [⟨31415⟩, ⟨9265⟩] ⟨10000⟩
  obtain ⟨-, -, -, -, -, hsettled, -⟩ :=
    audit_reports_first_difference (List.replicate 160 ⟨31415⟩) ⟨10000⟩
  exact ⟨hfault, hextended _ _ _ hfault, hpassed, hshortened _ _ hpassed, hlength,
    hsettled hlength _ _⟩

end DecimalPi
