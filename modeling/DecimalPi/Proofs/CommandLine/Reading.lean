import DecimalPi.Proofs.CommandLine.Form

/-!
# Reading a command line

The reader looks at one argument after the other, but an option may take two of them, and its value
is looked at only when the next option comes or the line ends. Seen from outside this does not
matter: a reading in which an option with its value is open goes on like the one in which it has
been closed. So the arguments of a whole option can be read in one step, from a reading in which
none is open to another one.

## Main definitions

* `Reading.Lacks`, `Reading.given`, `Reading.Holds`: what has been asked for until now;
* `Reading.Settled`: no option is open;
* `Reading.Step`: all that the reading of an argument can do;
* `Reading.finish`: the reading of all arguments that are left.

## Main results

* `Reading.step_eq_ok_iff`: the reader takes exactly these steps;
* `Reading.Settled.finish_opening_iff`: an option with its value may as well be closed;
* `Reading.Settled.finish_arguments`: an option is read in one step;
* `Reading.Settled.cases_of_finish`: nothing but an option or the last mark can be read.
-/

namespace DecimalPi.CommandLine

theorem bind_eq_ok_iff {ε α β : Type} {x : Except ε α} {f : α → Except ε β} {b : β} :
    x >>= f = .ok b ↔ ∃ a, x = .ok a ∧ f a = .ok b := by
  cases x with
  | error e =>
    constructor
    · intro h
      contradiction
    · rintro ⟨a, h, -⟩
      contradiction
  | ok a =>
    constructor
    · intro h
      exact ⟨a, rfl, h⟩
    · rintro ⟨a', heq, h⟩
      obtain rfl := Except.ok.inj heq
      exact h

namespace Reading

/-! ## What has been asked for -/

/-- The option of the setting has not been read. -/
def Lacks (reading : Reading) : Setting → Prop
  | .digits _ => reading.digits = none
  | .timeout _ => reading.timeout = none
  | .audit => reading.audited = false

/-- The setting has been read. -/
def Holds (reading : Reading) : Setting → Prop
  | .digits number => reading.digits = some number
  | .timeout limit => reading.timeout = some limit
  | .audit => reading.audited = true

/-- The reading with one more setting. -/
def given (reading : Reading) : Setting → Reading
  | .digits number => { reading with digits := some number }
  | .timeout limit => { reading with timeout := some limit }
  | .audit => { reading with audited := true }

variable {reading : Reading}

theorem lacks_given_iff {setting setting' : Setting} :
    (reading.given setting).Lacks setting' ↔
      reading.Lacks setting' ∧ setting.option ≠ setting'.option := by
  cases setting <;> cases setting' <;> simp [given, Lacks, Setting.option]

theorem holds_given_iff {setting setting' : Setting} (h : reading.Lacks setting) :
    (reading.given setting).Holds setting' ↔ reading.Holds setting' ∨ setting = setting' := by
  cases setting <;> cases setting' <;> simp_all [given, Lacks, Holds]

/-- The reading after the mark. -/
def marked (reading : Reading) : Reading := { reading with wordsOnly := true }

theorem lacks_marked_iff {setting : Setting} :
    reading.marked.Lacks setting ↔ reading.Lacks setting := by
  cases setting <;> rfl

theorem given_marked (setting : Setting) :
    reading.marked.given setting = (reading.given setting).marked := by
  cases setting <;> rfl

theorem denotes_digits_iff {value : String} {setting : Setting} :
    Denotes .digits value setting ↔
      ∃ number, Literal.readSigned value.toList = .ok number ∧ .digits number = setting := by
  simp only [Literal.readSigned_eq_ok_iff]
  constructor
  · intro h
    cases h with
    | digits literal => exact ⟨_, literal, rfl⟩
  · rintro ⟨number, literal, rfl⟩
    exact .digits literal

theorem denotes_timeout_iff {value : String} {setting : Setting} :
    Denotes .timeout value setting ↔
      ∃ limit, Literal.readUnsigned value.toList = .ok limit ∧ .timeout limit = setting := by
  simp only [Literal.readUnsigned_eq_ok_iff]
  constructor
  · intro h
    cases h with
    | timeout literal => exact ⟨_, literal, rfl⟩
  · rintro ⟨limit, literal, rfl⟩
    exact .timeout literal

/-- An option can be given a value if that is one of its literals and it does not have one yet. -/
theorem record_eq_ok_iff {setter : Setter} {value : String} {next : Reading} :
    reading.record setter value = .ok next ↔
      ∃ setting, Denotes setter value setting ∧ reading.Lacks setting ∧
        reading.given setting = next := by
  cases setter with
  | digits =>
    cases hdigits : reading.digits <;> cases hread : Literal.readSigned value.toList <;>
      simp [record, hdigits, hread, denotes_digits_iff, Lacks, given]
  | timeout =>
    cases htimeout : reading.timeout <;> cases hread : Literal.readUnsigned value.toList <;>
      simp [record, htimeout, hread, denotes_timeout_iff, Lacks, given]

theorem record_marked_eq_ok_iff {setter : Setter} {value : String} {next : Reading} :
    reading.marked.record setter value = .ok next ↔
      ∃ closed, reading.record setter value = .ok closed ∧ closed.marked = next := by
  simp only [record_eq_ok_iff, lacks_marked_iff, given_marked]
  constructor
  · rintro ⟨setting, hdenotes, hlacks, rfl⟩
    exact ⟨_, ⟨setting, hdenotes, hlacks, rfl⟩, rfl⟩
  · rintro ⟨_, ⟨setting, hdenotes, hlacks, rfl⟩, rfl⟩
    exact ⟨setting, hdenotes, hlacks, rfl⟩

/-! ## Closing -/

/-- No option is open, and options may follow. -/
structure Settled (reading : Reading) : Prop where
  opened_eq : reading.opened = none
  wordsOnly_eq : reading.wordsOnly = false

/-- The reading with an option that is open. -/
def opening (reading : Reading) (setter : Setter) (value : Option String) : Reading :=
  { reading with opened := some { setter, value } }

theorem close_of_opened_eq (h : reading.opened = none) : reading.close = .ok reading := by
  rw [close, h]

theorem close_opening_none (setter : Setter) :
    (reading.opening setter none).close = .error (.misuse (.missingValue setter)) := rfl

theorem close_opening_some (h : reading.opened = none) (setter : Setter) (value : String) :
    (reading.opening setter (some value)).close = reading.record setter value := by
  obtain ⟨digits, timeout, audited, opened, wordsOnly⟩ := reading
  subst h
  rfl

namespace Settled

variable (h : Settled reading)

include h

theorem given (setting : Setting) : Settled (reading.given setting) := by
  cases setting <;> exact ⟨h.opened_eq, h.wordsOnly_eq⟩

theorem of_record {setter : Setter} {value : String} {next : Reading}
    (hrecord : reading.record setter value = .ok next) : Settled next := by
  obtain ⟨setting, -, -, rfl⟩ := record_eq_ok_iff.mp hrecord
  exact h.given setting

theorem take_some (setter : Setter) (value : String) :
    reading.take setter (some value) = reading.record setter value := by
  rw [take, close_of_opened_eq h.opened_eq]
  rfl

theorem take_none (setter : Setter) :
    reading.take setter none = .ok (reading.opening setter none) := by
  rw [take, close_of_opened_eq h.opened_eq]
  rfl

theorem takeAudit_eq_ok_iff {next : Reading} :
    reading.takeAudit = .ok next ↔ reading.Lacks .audit ∧ reading.given .audit = next := by
  rw [takeAudit, close_of_opened_eq h.opened_eq]
  change (if reading.audited then _ else _) = _ ↔ _
  cases haudited : reading.audited <;> simp [Lacks, Reading.given, haudited, pure, Except.pure]

end Settled

/-! ## One argument -/

/-- All that the reading of an argument can do, as long as options may follow. -/
inductive Step (reading : Reading) : String → Reading → Prop
  /-- The mark is read. -/
  | mark : Step reading "--" reading.marked
  /-- An option with a value is taken up. -/
  | set {argument : String} {setter : Setter} {value : Option String} {next : Reading}
    (names : Names argument setter value) (takes : reading.take setter value = .ok next) :
    Step reading argument next
  /-- The option without a value is taken up. -/
  | audit {next : Reading} (takes : reading.takeAudit = .ok next) : Step reading "--verify" next
  /-- The option that is open gets its value. -/
  | value {argument : String} {setter : Setter}
    (opened : reading.opened = some { setter, value := none })
    (isValue : IsValue setter argument) :
    Step reading argument (reading.opening setter (some argument))

section Step

variable {argument : String} {next : Reading}

theorem takeHelp_ne_ok : reading.takeHelp ≠ .ok next := by
  rw [takeHelp, ne_eq, bind_eq_ok_iff]
  rintro ⟨closed, -, h⟩
  contradiction

theorem takeWord_eq_ok_iff :
    reading.takeWord argument = .ok next ↔
      ∃ setter, reading.opened = some { setter, value := none } ∧
        reading.opening setter (some argument) = next := by
  rcases hopened : reading.opened with - | ⟨setter, - | value⟩ <;>
    simp [takeWord, hopened, opening]

/-- A long option that can be read is one of those with a value, or the one without. -/
theorem step_of_stepLong {name : String} {value : Option String}
    (htext : argument.toList =
      ("--" ++ name).toList ++ value.elim [] fun value => '=' :: value.toList)
    (h : reading.stepLong name value = .ok next) : Step reading argument next := by
  unfold stepLong at h
  split at h
  next =>
    have hnames : Names argument .digits value := .of_long htext
    exact .set hnames h
  next =>
    have hnames : Names argument .timeout value := .of_long htext
    exact .set hnames h
  next => contradiction
  next =>
    obtain rfl : argument = "--verify" := String.toList_inj.mp htext
    exact .audit h
  next => contradiction
  next => exact absurd h takeHelp_ne_ok
  next => contradiction

/-- A short option that can be read is that of the number of digits. -/
theorem step_of_stepShort {letter : Char} {rest : List Char}
    (htext : argument.toList = '-' :: letter :: rest)
    (h : reading.stepShort letter rest = .ok next) : Step reading argument next := by
  unfold stepShort at h
  split at h
  next => exact .set (.of_letter htext) h
  next => exact absurd h takeHelp_ne_ok
  next => contradiction

theorem step_of_step_eq_ok (hwords : reading.wordsOnly = false)
    (h : reading.step argument = .ok next) : Step reading argument next := by
  have htext := text_of_formOf argument.toList
  rw [step, if_neg (by simp [hwords])] at h
  split at h
  next hform =>
    rw [hform] at htext
    obtain rfl : argument = "--" := String.toList_inj.mp htext
    obtain rfl := Except.ok.inj h
    exact .mark
  next name value hform =>
    rw [hform] at htext
    exact step_of_stepLong htext h
  next letter rest hform =>
    rw [hform] at htext
    split at h
    next hnumber =>
      rw [Bool.and_eq_true, awaits, decide_eq_true_iff] at hnumber
      obtain ⟨setter, hopened, rfl⟩ := takeWord_eq_ok_iff.mp h
      obtain rfl : setter = .digits := by simpa [hnumber.1, eq_comm] using hopened
      exact .value hopened (.negative hform hnumber.2)
    next => exact step_of_stepShort htext h
  next hform =>
    obtain ⟨setter, hopened, rfl⟩ := takeWord_eq_ok_iff.mp h
    exact .value hopened (.word hform)

theorem step_of_letter (hwords : reading.wordsOnly = false) {rest : List Char}
    (htext : argument.toList = '-' :: 'n' :: rest) :
    reading.step argument = reading.take .digits (gluedValue rest) := by
  -- The letter is no digit, so the argument is not taken for a negative number.
  have hnumber : isNumber ('n' :: rest) = false := rfl
  rw [step, if_neg (by simp [hwords]), htext, formOf_letter]
  simp only [hnumber, Bool.and_false]
  rfl

theorem step_of_names (hwords : reading.wordsOnly = false) {setter : Setter}
    {value : Option String} (h : Names argument setter value) :
    reading.step argument = reading.take setter value := by
  cases h with
  | long =>
    rw [step, if_neg (by simp [hwords]), formOf_longName]
    cases setter <;> rfl
  | joined =>
    rw [step, if_neg (by simp [hwords]), formOf_joined]
    cases setter <;> rfl
  | letter =>
    have htext : "-n".toList = ['-', 'n'] := rfl
    exact step_of_letter hwords htext
  | @letterGlued value glued =>
    have htext : ("-n" ++ value).toList = '-' :: 'n' :: value.toList := by simp
    rw [step_of_letter hwords htext, glued]
  | @letterJoined value =>
    have htext : ("-n=" ++ value).toList = '-' :: 'n' :: '=' :: value.toList := by simp
    rw [step_of_letter hwords htext, gluedValue, String.ofList_toList]

theorem step_verify (hwords : reading.wordsOnly = false) :
    reading.step "--verify" = reading.takeAudit := by
  have hform : formOf "--verify".toList = .long "verify" none := by simp [formOf, splitLong]
  rw [step, if_neg (by simp [hwords]), hform]
  rfl

theorem step_of_isValue (hwords : reading.wordsOnly = false) {setter : Setter}
    (hopened : reading.opened = some { setter, value := none }) (h : IsValue setter argument) :
    reading.step argument = .ok (reading.opening setter (some argument)) := by
  have hword : reading.takeWord argument = .ok (reading.opening setter (some argument)) :=
    takeWord_eq_ok_iff.mpr ⟨setter, hopened, rfl⟩
  rw [step, if_neg (by simp [hwords])]
  cases h with
  | word form => simp only [form, hword]
  | negative form number => simp [form, number, awaits, hopened, hword]

/-- The reader takes these steps and no others. -/
theorem step_eq_ok_iff (hwords : reading.wordsOnly = false) :
    reading.step argument = .ok next ↔ Step reading argument next := by
  constructor
  · exact step_of_step_eq_ok hwords
  · intro h
    cases h with
    | mark => simp [step, hwords, formOf, marked]
    | set names takes => rw [step_of_names hwords names, takes]
    | audit takes => rw [step_verify hwords, takes]
    | value opened isValue => exact step_of_isValue hwords opened isValue

end Step

/-! ## All arguments -/

/-- The reading of all arguments that are left. -/
def finish (reading : Reading) (arguments : List String) : Except Halt Reading :=
  arguments.foldlM step reading >>= close

variable {argument : String} {arguments : List String} {final : Reading}

theorem finish_nil (reading : Reading) : reading.finish [] = reading.close := rfl

theorem finish_cons_eq_ok_iff :
    reading.finish (argument :: arguments) = .ok final ↔
      ∃ next, reading.step argument = .ok next ∧ next.finish arguments = .ok final := by
  rw [finish, List.foldlM_cons, bind_assoc, bind_eq_ok_iff]
  rfl

/-- After the mark there is nothing more to be read. -/
theorem finish_of_wordsOnly (h : reading.wordsOnly = true) :
    reading.finish arguments = .ok final ↔ arguments = [] ∧ reading.close = .ok final := by
  cases arguments with
  | nil => simp [finish_nil]
  | cons argument arguments =>
    have hstep : reading.step argument = .error (.misuse (.unexpectedArgument argument)) := by
      rw [step, if_pos h]
    simp [finish_cons_eq_ok_iff, hstep]

namespace Settled

variable (h : Settled reading) {setter : Setter} {value : String} {setting : Setting}

include h

/-- What closes the open option first can as well be done after it has been closed. -/
theorem of_closing_iff {next : Reading} {closing after : Reading → Except Halt Reading}
    (hclosing : ∀ reading, closing reading = reading.close >>= after) :
    closing (reading.opening setter (some value)) = .ok next ↔
      ∃ closed, reading.record setter value = .ok closed ∧ closing closed = .ok next := by
  rw [hclosing, close_opening_some h.opened_eq, bind_eq_ok_iff]
  refine exists_congr fun closed => and_congr_right fun hclosed => ?_
  rw [hclosing, close_of_opened_eq (h.of_record hclosed).opened_eq]
  rfl

theorem close_opening_iff :
    (reading.opening setter (some value)).close = .ok final ↔
      ∃ closed, reading.record setter value = .ok closed ∧ closed.close = .ok final :=
  h.of_closing_iff fun reading => (bind_pure reading.close).symm

theorem take_opening_iff {other : Setter} {attached : Option String} {next : Reading} :
    (reading.opening setter (some value)).take other attached = .ok next ↔
      ∃ closed, reading.record setter value = .ok closed ∧ closed.take other attached = .ok next :=
  h.of_closing_iff fun _ => rfl

theorem takeAudit_opening_iff {next : Reading} :
    (reading.opening setter (some value)).takeAudit = .ok next ↔
      ∃ closed, reading.record setter value = .ok closed ∧ closed.takeAudit = .ok next :=
  h.of_closing_iff fun _ => rfl

/-- The steps of a reading in which an option with its value is open are those of the one in which
it has been closed. -/
theorem step_opening_iff {next : Reading} (hmark : argument ≠ "--") :
    (reading.opening setter (some value)).step argument = .ok next ↔
      ∃ closed, reading.record setter value = .ok closed ∧ closed.step argument = .ok next := by
  have hwords : (reading.opening setter (some value)).wordsOnly = false := h.wordsOnly_eq
  constructor
  · intro hstep
    cases (step_eq_ok_iff hwords).mp hstep with
    | mark => contradiction
    | set names takes =>
      obtain ⟨closed, hclosed, htakes⟩ := h.take_opening_iff.mp takes
      refine ⟨closed, hclosed, ?_⟩
      rw [step_of_names (h.of_record hclosed).wordsOnly_eq names, htakes]
    | audit takes =>
      obtain ⟨closed, hclosed, htakes⟩ := h.takeAudit_opening_iff.mp takes
      refine ⟨closed, hclosed, ?_⟩
      rw [step_verify (h.of_record hclosed).wordsOnly_eq, htakes]
    -- An option with its value waits for none.
    | value opened => simp [opening] at opened
  · rintro ⟨closed, hclosed, hstep⟩
    have hsettled := h.of_record hclosed
    cases (step_eq_ok_iff hsettled.wordsOnly_eq).mp hstep with
    | mark => contradiction
    | set names takes =>
      rw [step_of_names hwords names]
      exact h.take_opening_iff.mpr ⟨closed, hclosed, takes⟩
    | audit takes =>
      rw [step_verify hwords]
      exact h.takeAudit_opening_iff.mpr ⟨closed, hclosed, takes⟩
    | value opened =>
      rw [hsettled.opened_eq] at opened
      contradiction

omit h

/-- The mark can only be the last argument. -/
theorem finish_mark_iff (hwords : reading.wordsOnly = false) :
    reading.finish ("--" :: arguments) = .ok final ↔
      arguments = [] ∧ reading.marked.close = .ok final := by
  have hstep : reading.step "--" = .ok reading.marked := (step_eq_ok_iff hwords).mpr .mark
  simp only [finish_cons_eq_ok_iff, hstep, Except.ok.injEq, exists_eq_left']
  exact finish_of_wordsOnly rfl

include h

/-- An option with its value may as well be closed before the next argument is read. -/
theorem finish_opening_iff :
    (reading.opening setter (some value)).finish arguments = .ok final ↔
      ∃ closed, reading.record setter value = .ok closed ∧ closed.finish arguments = .ok final := by
  rcases arguments with - | ⟨argument, arguments⟩
  · exact h.close_opening_iff
  · by_cases hmark : argument = "--"
    -- The mark does not close the option, but nothing can come between it and the end, which does.
    · subst hmark
      have hwords : (reading.opening setter (some value)).wordsOnly = false := h.wordsOnly_eq
      have hmarked : reading.marked.opened = none := h.opened_eq
      have hclose : (reading.opening setter (some value)).marked.close = .ok final ↔
          ∃ closed, reading.record setter value = .ok closed ∧ closed.marked = final := by
        rw [← record_marked_eq_ok_iff]
        exact Eq.congr_left (close_opening_some hmarked setter value)
      rw [finish_mark_iff hwords, hclose, ← exists_and_left]
      refine exists_congr fun closed => ?_
      rw [and_left_comm]
      refine and_congr_right fun hclosed => ?_
      have hsettled := h.of_record hclosed
      have hmarked' : closed.marked.opened = none := hsettled.opened_eq
      rw [finish_mark_iff hsettled.wordsOnly_eq, close_of_opened_eq hmarked', Except.ok.injEq]
    -- Any other argument closes the option before anything else is done.
    · simp only [finish_cons_eq_ok_iff, h.step_opening_iff hmark]
      constructor
      · rintro ⟨next, ⟨closed, hclosed, hstep⟩, hfinish⟩
        exact ⟨closed, hclosed, next, hstep, hfinish⟩
      · rintro ⟨closed, hclosed, next, hstep, hfinish⟩
        exact ⟨next, ⟨closed, hclosed, hstep⟩, hfinish⟩

/-- An option that waits for its value gets it from the next argument. -/
theorem exists_of_finish_opening_none
    (hfinish : (reading.opening setter none).finish arguments = .ok final) :
    ∃ value rest, arguments = value :: rest ∧ IsValue setter value ∧
      (reading.opening setter (some value)).finish rest = .ok final := by
  have hwords : (reading.opening setter none).wordsOnly = false := h.wordsOnly_eq
  rcases arguments with - | ⟨argument, rest⟩
  · rw [finish_nil, close_opening_none] at hfinish
    contradiction
  · obtain ⟨next, hstep, hrest⟩ := finish_cons_eq_ok_iff.mp hfinish
    -- Whatever is not a value would have to close the option first, which has none yet.
    cases (step_eq_ok_iff hwords).mp hstep with
    | mark =>
      obtain ⟨-, hclose⟩ := (finish_of_wordsOnly rfl).mp hrest
      contradiction
    | set names takes =>
      obtain ⟨closed, hclose, -⟩ := bind_eq_ok_iff.mp takes
      contradiction
    | audit takes =>
      obtain ⟨closed, hclose, -⟩ := bind_eq_ok_iff.mp takes
      contradiction
    | value opened isValue =>
      obtain rfl : setter = _ := by simpa [opening] using opened
      exact ⟨argument, rest, rfl, isValue, hrest⟩

theorem finish_of_names (hlacks : reading.Lacks setting) (denotes : Denotes setter value setting)
    (hfinish : (reading.given setting).finish arguments = .ok final)
    (names : Names argument setter (some value)) :
    reading.finish (argument :: arguments) = .ok final := by
  have hrecord : reading.record setter value = .ok (reading.given setting) :=
    record_eq_ok_iff.mpr ⟨setting, denotes, hlacks, rfl⟩
  refine finish_cons_eq_ok_iff.mpr ⟨_, ?_, hfinish⟩
  rw [step_of_names h.wordsOnly_eq names, h.take_some, hrecord]

theorem finish_of_names_apart (hlacks : reading.Lacks setting)
    (denotes : Denotes setter value setting)
    (hfinish : (reading.given setting).finish arguments = .ok final)
    (names : Names argument setter none) :
    reading.finish (argument :: value :: arguments) = .ok final := by
  have hrecord : reading.record setter value = .ok (reading.given setting) :=
    record_eq_ok_iff.mpr ⟨setting, denotes, hlacks, rfl⟩
  have hwords : (reading.opening setter none).wordsOnly = false := h.wordsOnly_eq
  have hvalue : (reading.opening setter none).step value =
      .ok (reading.opening setter (some value)) :=
    step_of_isValue hwords rfl denotes.isValue
  refine finish_cons_eq_ok_iff.mpr ⟨reading.opening setter none, ?_, ?_⟩
  · rw [step_of_names h.wordsOnly_eq names, h.take_none]
  · refine finish_cons_eq_ok_iff.mpr ⟨_, hvalue, ?_⟩
    exact h.finish_opening_iff.mpr ⟨_, hrecord, hfinish⟩

/-- An option that has not been read yet is read in one step, in every spelling. -/
theorem finish_arguments {occurrence : Occurrence} (hlacks : reading.Lacks occurrence.setting)
    (hfinish : (reading.given occurrence.setting).finish arguments = .ok final) :
    reading.finish (occurrence.arguments ++ arguments) = .ok final := by
  cases occurrence with
  | audit =>
    refine finish_cons_eq_ok_iff.mpr ⟨_, ?_, hfinish⟩
    rw [step_verify h.wordsOnly_eq, h.takeAudit_eq_ok_iff]
    exact ⟨hlacks, rfl⟩
  | set spelling value setting denotes =>
    cases spelling with
    | joined => exact h.finish_of_names hlacks denotes hfinish .joined
    | apart => exact h.finish_of_names_apart hlacks denotes hfinish .long
    | letterApart => exact h.finish_of_names_apart hlacks denotes hfinish .letter
    | letterGlued =>
      exact h.finish_of_names hlacks denotes hfinish (.letterGlued denotes.gluedValue_eq)
    | letterJoined => exact h.finish_of_names hlacks denotes hfinish .letterJoined

/-- What can be read begins with the arguments of an option that has not been read yet, unless it
is the mark and nothing more. -/
theorem cases_of_finish (hfinish : reading.finish (argument :: arguments) = .ok final) :
    (argument = "--" ∧ arguments = [] ∧ reading.marked = final) ∨
      ∃ occurrence rest, argument :: arguments = Occurrence.arguments occurrence ++ rest ∧
        reading.Lacks occurrence.setting ∧
        (reading.given occurrence.setting).finish rest = .ok final := by
  obtain ⟨next, hstep, hrest⟩ := finish_cons_eq_ok_iff.mp hfinish
  cases (step_eq_ok_iff h.wordsOnly_eq).mp hstep with
  | mark =>
    have hopened : reading.marked.opened = none := h.opened_eq
    obtain ⟨harguments, hclose⟩ := (finish_of_wordsOnly rfl).mp hrest
    rw [close_of_opened_eq hopened, Except.ok.injEq] at hclose
    exact .inl ⟨rfl, harguments, hclose⟩
  | @set _ setter value _ names takes =>
    cases value with
    -- The value comes along, so the option is closed at once.
    | some value =>
      rw [h.take_some, record_eq_ok_iff] at takes
      obtain ⟨setting, denotes, hlacks, rfl⟩ := takes
      obtain ⟨spelling, hspelling⟩ := names.exists_spelling
      refine .inr ⟨.set spelling value setting denotes, arguments, ?_, hlacks, hrest⟩
      rw [Occurrence.arguments, hspelling, List.singleton_append]
    -- The value is the next argument, after which the option may as well be closed.
    | none =>
      rw [h.take_none] at takes
      obtain rfl := Except.ok.inj takes
      obtain ⟨value, rest, rfl, -, hvalue⟩ := h.exists_of_finish_opening_none hrest
      obtain ⟨closed, hrecord, hclosed⟩ := h.finish_opening_iff.mp hvalue
      obtain ⟨setting, denotes, hlacks, rfl⟩ := record_eq_ok_iff.mp hrecord
      obtain ⟨spelling, hspelling⟩ := names.exists_spelling_apart value
      refine .inr ⟨.set spelling value setting denotes, rest, ?_, hlacks, hclosed⟩
      rw [Occurrence.arguments, hspelling]
      rfl
  | audit takes =>
    obtain ⟨hlacks, rfl⟩ := h.takeAudit_eq_ok_iff.mp takes
    exact .inr ⟨.audit, arguments, rfl, hlacks, hrest⟩
  | value opened =>
    rw [h.opened_eq] at opened
    contradiction

end Settled

end Reading

end DecimalPi.CommandLine
