import DecimalPi.Proofs.CommandLine.Options
import DecimalPi.Proofs.CommandLine.Reading

/-!
# What the command line accepts

The arguments that can be read are those of the command lines, and what is read is what the line
means. One direction goes through the options of a line and reads each of them in one step; the
other takes the options off the arguments one by one, as long as there are any. In both of them it
is the settings read until now that tell which options may still come.

## Main definitions

* `Reading.Admits`: the settings may all still come.

## Main results

* `Reading.Settled.exists_finish_eq`: the options of a line are read;
* `Reading.Settled.exists_of_finish`: nothing else is read;
* `Line.parse_arguments_eq_ok_iff` and `exists_line_of_parse`: what is read of a line is what it
  means, and only lines are read;
* `means_what_it_says`: all of this, and what comes of the options.
-/

namespace DecimalPi.CommandLine

namespace Reading

variable {reading : Reading} {setting : Setting} {settings : List Setting}

/-! ## Settings that may still come -/

/-- The settings may all still come: their options have not been read, and none is among them
twice. -/
structure Admits (reading : Reading) (settings : List Setting) : Prop where
  lacks : ∀ setting ∈ settings, reading.Lacks setting
  nodup : (settings.map Setting.option).Nodup

theorem admits_nil : reading.Admits [] where
  lacks := by simp
  nodup := List.nodup_nil

theorem admits_cons_iff :
    reading.Admits (setting :: settings) ↔
      reading.Lacks setting ∧ (reading.given setting).Admits settings := by
  constructor
  · rintro ⟨hlacks, hnodup⟩
    obtain ⟨hfirst, hrest⟩ := List.forall_mem_cons.mp hlacks
    obtain ⟨hnotMem, hnodup⟩ := List.nodup_cons.mp hnodup
    refine ⟨hfirst, fun other hmem => ?_, hnodup⟩
    -- An option that comes again would be read twice.
    have hne : setting.option ≠ other.option := by
      intro heq
      exact hnotMem (heq ▸ List.mem_map_of_mem hmem)
    exact lacks_given_iff.mpr ⟨hrest other hmem, hne⟩
  · rintro ⟨hfirst, hlacks, hnodup⟩
    simp only [lacks_given_iff] at hlacks
    refine ⟨List.forall_mem_cons.mpr ⟨hfirst, fun other hmem => (hlacks other hmem).1⟩, ?_⟩
    refine List.nodup_cons.mpr ⟨fun hmem => ?_, hnodup⟩
    obtain ⟨other, hother, heq⟩ := List.mem_map.mp hmem
    exact (hlacks other hother).2 heq.symm

/-! ## All options of a line -/

theorem holds_marked_iff : reading.marked.Holds setting ↔ reading.Holds setting := by
  cases setting <;> rfl

namespace Settled

variable {arguments : List String} {final : Reading}

/-- Where no option is left the line may end, with the mark or without it. -/
theorem exists_finish_mark (h : Settled reading) (marked : Bool) :
    ∃ final, reading.finish (if marked then ["--"] else []) = .ok final ∧
      ∀ setting, final.Holds setting ↔ reading.Holds setting := by
  cases marked with
  | false => exact ⟨reading, close_of_opened_eq h.opened_eq, fun _ => Iff.rfl⟩
  | true =>
    have hopened : reading.marked.opened = none := h.opened_eq
    have hfinish := (finish_mark_iff h.wordsOnly_eq).mpr ⟨rfl, close_of_opened_eq hopened⟩
    exact ⟨reading.marked, hfinish, fun _ => holds_marked_iff⟩

/-- The options that may still come are read, and after that nothing holds but what they ask
for. -/
theorem exists_finish_eq (h : Settled reading) {occurrences : List Occurrence}
    (admits : reading.Admits (occurrences.map Occurrence.setting)) (marked : Bool) :
    ∃ final,
      reading.finish (occurrences.flatMap Occurrence.arguments ++ if marked then ["--"] else []) =
        .ok final ∧
      ∀ setting, final.Holds setting ↔
        reading.Holds setting ∨ setting ∈ occurrences.map Occurrence.setting := by
  induction occurrences generalizing reading with
  | nil => simpa using h.exists_finish_mark marked
  -- What the first option asks for is read in one step, and the others may still come after it.
  | cons occurrence occurrences ih =>
    obtain ⟨hlacks, hadmits⟩ := admits_cons_iff.mp admits
    obtain ⟨final, hfinish, hholds⟩ := ih (h.given occurrence.setting) hadmits
    refine ⟨final, ?_, fun setting => ?_⟩
    · rw [List.flatMap_cons, List.append_assoc]
      exact h.finish_arguments hlacks hfinish
    · rw [hholds, holds_given_iff hlacks, List.map_cons, List.mem_cons, or_assoc,
        eq_comm (a := setting)]

/-- All that can be read are options that may still come, and perhaps the mark after them. -/
theorem exists_of_finish (h : Settled reading) (hfinish : reading.finish arguments = .ok final) :
    ∃ (occurrences : List Occurrence) (marked : Bool),
      (occurrences.flatMap Occurrence.arguments ++ if marked then ["--"] else []) = arguments ∧
      reading.Admits (occurrences.map Occurrence.setting) := by
  -- An option may take two arguments, so the induction is on how many are left.
  induction hlength : arguments.length using Nat.strong_induction_on generalizing arguments reading
  case h length ih =>
    rcases arguments with - | ⟨argument, arguments⟩
    · exact ⟨[], false, rfl, admits_nil⟩
    obtain ⟨rfl, rfl, -⟩ | ⟨occurrence, rest, harguments, hlacks, hrest⟩ :=
      h.cases_of_finish hfinish
    · exact ⟨[], true, rfl, admits_nil⟩
    · have hshorter : rest.length < length := by
        have hpos := occurrence.length_arguments_pos
        rw [← hlength, harguments, List.length_append]
        omega
      obtain ⟨occurrences, marked, hrestEq, hadmits⟩ :=
        ih rest.length hshorter (h.given occurrence.setting) hrest rfl
      refine ⟨occurrence :: occurrences, marked, ?_, admits_cons_iff.mpr ⟨hlacks, hadmits⟩⟩
      rw [List.flatMap_cons, List.append_assoc, hrestEq, harguments]

end Settled

/-! ## The options that are read -/

theorem settled_nothing : Settled {} where
  opened_eq := rfl
  wordsOnly_eq := rfl

theorem lacks_nothing (setting : Setting) : Lacks {} setting := by
  cases setting <;> rfl

theorem not_holds_nothing (setting : Setting) : ¬ Holds {} setting := by
  cases setting <;> simp [Holds]

/-- A reading that has read the settings of a line, and nothing else, has read its meaning. -/
theorem means_options {line : Line}
    (h : ∀ setting, reading.Holds setting ↔ setting ∈ line.settings) :
    line.Means reading.options where
  digits_eq := by
    intro number hmem
    have hdigits : reading.digits = some number := (h (.digits number)).mpr hmem
    rw [options, hdigits, Option.getD_some]
  digits_eq_usual := by
    intro hnone
    have hdigits : reading.digits = none := by
      refine Option.eq_none_iff_forall_ne_some.mpr fun number hdigits => ?_
      exact hnone number ((h (.digits number)).mp hdigits)
    rw [options, hdigits]
    rfl
  timeout_iff limit := h (.timeout limit)
  audited_iff := h .audit

end Reading

/-! ## All arguments -/

theorem parse_eq_ok_iff {arguments : List String} {options : Options} :
    parse arguments = .ok options ↔
      ∃ final, Reading.finish {} arguments = .ok final ∧ final.options = options := by
  constructor
  · intro h
    obtain ⟨reading, hread, h⟩ := bind_eq_ok_iff.mp h
    obtain ⟨final, hclose, h⟩ := bind_eq_ok_iff.mp h
    exact ⟨final, bind_eq_ok_iff.mpr ⟨reading, hread, hclose⟩, Except.ok.inj h⟩
  · rintro ⟨final, hfinish, rfl⟩
    obtain ⟨reading, hread, hclose⟩ := bind_eq_ok_iff.mp hfinish
    exact bind_eq_ok_iff.mpr ⟨reading, hread, bind_eq_ok_iff.mpr ⟨final, hclose, rfl⟩⟩

namespace Line

variable (line : Line)

theorem admits_settings : Reading.Admits {} line.settings where
  lacks setting _ := Reading.lacks_nothing setting
  nodup := by
    rw [settings, List.map_map]
    exact line.nodup

/-- Every line is read as what it means. -/
theorem exists_parse_eq : ∃ options, parse line.arguments = .ok options ∧ line.Means options := by
  obtain ⟨final, hfinish, hholds⟩ :=
    Reading.settled_nothing.exists_finish_eq line.admits_settings line.marked
  refine ⟨final.options, parse_eq_ok_iff.mpr ⟨final, hfinish, rfl⟩, ?_⟩
  refine Reading.means_options fun setting => ?_
  rw [hholds, or_iff_right (Reading.not_holds_nothing setting)]
  rfl

theorem parse_arguments_eq_ok_iff {options : Options} :
    parse line.arguments = .ok options ↔ line.Means options := by
  obtain ⟨read, hparse, hmeans⟩ := line.exists_parse_eq
  rw [hparse, Except.ok.injEq]
  constructor
  · rintro rfl
    exact hmeans
  · exact hmeans.unique

end Line

/-- Only lines are read. -/
theorem exists_line_of_parse {arguments : List String} {options : Options}
    (h : parse arguments = .ok options) : ∃ line : Line, line.arguments = arguments := by
  obtain ⟨final, hfinish, -⟩ := parse_eq_ok_iff.mp h
  obtain ⟨occurrences, marked, harguments, hadmits⟩ :=
    Reading.settled_nothing.exists_of_finish hfinish
  have hnodup := hadmits.nodup
  rw [List.map_map] at hnodup
  exact ⟨{ occurrences, marked, nodup := hnodup }, harguments⟩

/-- The command line accepts exactly its grammar and means what it says. The arguments that can be
read are those of the lines, and what is read of a line is what it means, whatever the order of its
options and their spelling. All options can be written, in each spelling. They make a plan exactly
if they ask for a positive number of digits, and then nothing is changed on the way. -/
theorem means_what_it_says :
    (∀ arguments, (∃ options, parse arguments = .ok options) ↔
      ∃ line : Line, line.arguments = arguments) ∧
    (∀ (line : Line) (options : Options),
      parse line.arguments = .ok options ↔ line.Means options) ∧
    (∀ line line' : Line, (∀ setting, setting ∈ line.settings ↔ setting ∈ line'.settings) →
      parse line.arguments = parse line'.arguments) ∧
    (∀ (options : Options) (spelling : Spelling .digits) (spelling' : Spelling .timeout),
      parse (options.arguments spelling spelling') = .ok options) ∧
    ∀ options : Options,
      (1 ≤ options.digits.toInt →
        ∃ plan, options.plan = .ok plan ∧ (plan.digits.toNat : ℤ) = options.digits.toInt ∧
          plan.timeout = options.timeout ∧ plan.audited = options.audited ∧
          options.count = .ok plan.digits ∧ options.check = .ok ()) ∧
      (options.digits.toInt < 1 →
        options.plan = .error (.nonPositiveCount options.digits) ∧
          options.count = .error (.nonPositiveCount options.digits) ∧
          options.check = .error (.nonPositiveCount options.digits)) := by
  refine ⟨fun arguments => ⟨?_, ?_⟩, fun line options => line.parse_arguments_eq_ok_iff, ?_, ?_,
    fun options => ⟨fun hpos => ?_, fun hneg => ?_⟩⟩
  · rintro ⟨options, hparse⟩
    exact exists_line_of_parse hparse
  · rintro ⟨line, rfl⟩
    obtain ⟨options, hparse, -⟩ := line.exists_parse_eq
    exact ⟨options, hparse⟩
  · intro line line' hsettings
    obtain ⟨options, hparse, hmeans⟩ := line.exists_parse_eq
    have hparse' : parse line'.arguments = .ok options :=
      line'.parse_arguments_eq_ok_iff.mpr ((Line.Means.congr hsettings).mp hmeans)
    rw [hparse, hparse']
  · intro options spelling spelling'
    rw [← options.arguments_line, Line.parse_arguments_eq_ok_iff]
    exact options.means_line spelling spelling'
  · exact ⟨_, Options.plan_of_le hpos, Options.toNat_toUInt64_digits hpos, rfl, rfl,
      Options.count_of_le hpos, Options.check_of_le hpos⟩
  · exact ⟨Options.plan_of_lt hneg, Options.count_of_lt hneg, Options.check_of_lt hneg⟩

/-- A negative number of digits is read however it is written, but makes no plan, while a positive
one does. -/
theorem means_what_it_says_negative :
    parse ["-n", "-3", "--timeout-ms=5"] =
        .ok { digits := -3, timeout := some 5, audited := false } ∧
      parse ["--timeout-ms", "+5", "--digits=-03", "--"] = parse ["-n", "-3", "--timeout-ms=5"] ∧
      Options.plan { digits := -3, timeout := some 5, audited := false } =
        .error (.nonPositiveCount (-3)) ∧
      ∃ plan, Options.plan { digits := 3 } = .ok plan ∧ (plan.digits.toNat : ℤ) = 3 := by
  obtain ⟨-, -, hsame, hwritten, hplan⟩ := means_what_it_says
  let options : Options := { digits := -3, timeout := some 5, audited := false }
  have hfive : Literal.IsUnsigned ['+', '5'] 5 := .plus ⟨by simp, by simp, rfl⟩
  have hthree : Literal.IsSigned ['-', '0', '3'] (-3) := .minus ⟨by simp, by simp, rfl⟩
  let line : Line :=
    { occurrences :=
        [.set .apart "+5" (.timeout 5) (.timeout hfive),
          .set .joined "-03" (.digits (-3)) (.digits hthree)]
      marked := true
      nodup := by simp [Occurrence.setting, Setting.option] }
  have hsettings (setting : Setting) :
      setting ∈ line.settings ↔ setting ∈ (options.line .letterApart .joined).settings := by
    rw [Options.mem_settings_line]
    simp [line, options, Line.settings, Occurrence.setting, or_comm]
  have hlines := hsame line (options.line .letterApart .joined) hsettings
  rw [Options.arguments_line] at hlines
  obtain ⟨hrefused, -⟩ := (hplan options).2 (by decide)
  obtain ⟨plan, haccepted, hdigits, -⟩ := (hplan { digits := 3 }).1 (by decide)
  exact ⟨hwritten options .letterApart .joined, hlines, hrefused, plan, haccepted, hdigits⟩

end DecimalPi.CommandLine
