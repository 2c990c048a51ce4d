import DecimalPi.CommandLine.Parser
import DecimalPi.Proofs.Literals

/-!
# The grammar of the command line

A command line consists of options in any order, none of them given twice, and perhaps of the mark
`--` at its very end. Here it is described as something to be written: a line is a list of options
with the way in which each is spelled, and its arguments can be read off it.

What a line means depends on what its options ask for, and not on how or in which order they are
written.

## Main definitions

* `Spelling` and `Spelling.arguments`: the ways to write an option with its value;
* `Setting`, `Denotes`: what an option asks for, and the literals that denote it;
* `Occurrence`, `Line`: options as they are written, and command lines;
* `Line.Means`: the options that a command line asks for;
* `Options.arguments`: a command line that asks for given options.

## Main results

* `Line.Means.congr`: the order and the spelling do not matter;
* `Line.Means.unique`: a line means one thing only;
* `Options.arguments_line` and `Options.means_line`: what can be asked for can be written, in every
  spelling.
-/

namespace DecimalPi

namespace CommandLine

/-! ## Options with a value -/

/-- The name of an option. -/
def Setter.name : Setter → String
  | .digits => "digits"
  | .timeout => "timeout-ms"

/-- The name of an option as it stands in an argument. -/
def Setter.longName (setter : Setter) : String := "--" ++ setter.name

/-- A way to write an option with its value. Only the number of digits has a letter. -/
inductive Spelling : Setter → Type where
  /-- The long name and the value in one argument, with `=` between them. -/
  | joined {setter : Setter} : Spelling setter
  /-- The long name and then the value. -/
  | apart {setter : Setter} : Spelling setter
  /-- The letter and then the value. -/
  | letterApart : Spelling .digits
  /-- The letter and the value in one argument. -/
  | letterGlued : Spelling .digits
  /-- The letter and the value in one argument, with `=` between them. -/
  | letterJoined : Spelling .digits

/-- The arguments for an option with a value. -/
def Spelling.arguments {setter : Setter} (spelling : Spelling setter) (value : String) :
    List String :=
  match spelling with
  | joined => [setter.longName ++ "=" ++ value]
  | apart => [setter.longName, value]
  | letterApart => ["-n", value]
  | letterGlued => ["-n" ++ value]
  | letterJoined => ["-n=" ++ value]

/-- What a single option asks for. -/
inductive Setting where
  /-- So many digits. -/
  | digits (number : Int64)
  /-- No more than so much time. -/
  | timeout (limit : UInt64)
  /-- The comparison with the reference. -/
  | audit
deriving DecidableEq, Repr

/-- The option that asks for something. -/
def Setting.option : Setting → Setter ⊕ Switch
  | digits _ => .inl .digits
  | timeout _ => .inl .timeout
  | audit => .inr .audit

/-- The values that an option can have: literals of the numbers that a word can hold. Only the
number of digits may be negative. -/
inductive Denotes : Setter → String → Setting → Prop
  /-- A number of digits. -/
  | digits {value : String} {number : Int64}
    (literal : Literal.IsSigned value.toList number.toInt) :
    Denotes .digits value (.digits number)
  /-- A time. -/
  | timeout {value : String} {limit : UInt64}
    (literal : Literal.IsUnsigned value.toList limit.toNat) :
    Denotes .timeout value (.timeout limit)

/-! ## Lines -/

/-- An option as it is written. -/
inductive Occurrence where
  /-- An option with a value. -/
  | set {setter : Setter} (spelling : Spelling setter) (value : String) (setting : Setting)
    (denotes : Denotes setter value setting)
  /-- The option without one. -/
  | audit

namespace Occurrence

/-- What an option asks for. -/
def setting : Occurrence → Setting
  | set _ _ setting _ => setting
  | audit => .audit

/-- The arguments that an option consists of. -/
def arguments : Occurrence → List String
  | set spelling value _ _ => spelling.arguments value
  | audit => ["--verify"]

theorem length_arguments_pos (occurrence : Occurrence) : 0 < occurrence.arguments.length := by
  cases occurrence with
  | audit => exact Nat.zero_lt_one
  | set spelling => cases spelling <;> exact Nat.succ_pos _

end Occurrence

/-- A command line: options in some order, none of them given twice, and perhaps the mark at the
end. -/
structure Line where
  /-- The options. -/
  occurrences : List Occurrence
  /-- Whether the mark stands at the end. -/
  marked : Bool
  nodup : (occurrences.map fun occurrence => occurrence.setting.option).Nodup

namespace Line

/-- The arguments of a command line. -/
def arguments (line : Line) : List String :=
  line.occurrences.flatMap Occurrence.arguments ++ if line.marked then ["--"] else []

/-- What the options of a command line ask for, one by one. -/
def settings (line : Line) : List Setting := line.occurrences.map Occurrence.setting

/-- The options that a command line asks for: what is written where something is, and otherwise
eight hundred digits, no limit to the time and no comparison with the reference. -/
structure Means (line : Line) (options : Options) : Prop where
  digits_eq : ∀ number, .digits number ∈ line.settings → options.digits = number
  digits_eq_usual : (∀ number, .digits number ∉ line.settings) → options.digits = 800
  timeout_iff : ∀ limit, options.timeout = some limit ↔ .timeout limit ∈ line.settings
  audited_iff : options.audited ↔ .audit ∈ line.settings

namespace Means

variable {line line' : Line} {options options' : Options}

/-- What a line means depends on what its options ask for, but not on the order or the spelling. -/
theorem congr (h : ∀ setting, setting ∈ line.settings ↔ setting ∈ line'.settings) :
    line.Means options ↔ line'.Means options := by
  constructor
  · rintro ⟨hdigits, husual, htimeout, haudited⟩
    simp only [h] at hdigits husual htimeout haudited
    exact ⟨hdigits, husual, htimeout, haudited⟩
  · rintro ⟨hdigits, husual, htimeout, haudited⟩
    simp only [← h] at hdigits husual htimeout haudited
    exact ⟨hdigits, husual, htimeout, haudited⟩

/-- A line means one thing only. -/
theorem unique (h : line.Means options) (h' : line.Means options') : options = options' := by
  have hdigits : options.digits = options'.digits := by
    by_cases hgiven : ∃ number, .digits number ∈ line.settings
    · obtain ⟨number, hmem⟩ := hgiven
      rw [h.digits_eq number hmem, h'.digits_eq number hmem]
    · rw [not_exists] at hgiven
      rw [h.digits_eq_usual hgiven, h'.digits_eq_usual hgiven]
  have htimeout : options.timeout = options'.timeout := by
    refine Option.ext fun limit => ?_
    rw [h.timeout_iff, h'.timeout_iff]
  have haudited : options.audited = options'.audited := by
    rw [Bool.eq_iff_iff, h.audited_iff, h'.audited_iff]
  obtain ⟨digits, timeout, audited⟩ := options
  simp only at hdigits htimeout haudited
  rw [hdigits, htimeout, haudited]

end Means

end Line

end CommandLine

open CommandLine

namespace Options

variable (options : Options) (spelling : Spelling .digits) (spelling' : Spelling .timeout)

/-- The arguments of a command line that asks for the options, with literals as they are usually
written. -/
def arguments : List String :=
  spelling.arguments (toString options.digits) ++
    options.timeout.elim [] (fun limit => spelling'.arguments (toString limit)) ++
    if options.audited then ["--verify"] else []

/-- The number of digits as it is usually written. -/
def digitsOccurrence : Occurrence :=
  .set spelling (toString options.digits) (.digits options.digits)
    (.digits (Literal.isSigned_repr options.digits.toInt))

/-- A time as it is usually written. -/
def timeoutOccurrence (limit : UInt64) : Occurrence :=
  .set spelling' (toString limit) (.timeout limit)
    (.timeout (Literal.isUnsigned_repr limit.toNat))

/-- A command line that asks for the options. -/
def line : Line where
  occurrences :=
    options.digitsOccurrence spelling ::
      ((options.timeout.map (timeoutOccurrence spelling')).toList ++
        if options.audited then [.audit] else [])
  marked := false
  nodup := by
    cases options.timeout <;> cases options.audited <;>
      simp [digitsOccurrence, timeoutOccurrence, Occurrence.setting, Setting.option]

theorem arguments_line :
    (options.line spelling spelling').arguments = options.arguments spelling spelling' := by
  obtain ⟨digits, timeout, audited⟩ := options
  cases timeout <;> cases audited <;>
    simp [Line.arguments, line, arguments, digitsOccurrence, timeoutOccurrence,
      Occurrence.arguments]

theorem mem_settings_line {setting : Setting} :
    setting ∈ (options.line spelling spelling').settings ↔
      setting = .digits options.digits ∨ (∃ limit, options.timeout = some limit ∧
        setting = .timeout limit) ∨ (options.audited ∧ setting = .audit) := by
  obtain ⟨digits, timeout, audited⟩ := options
  cases timeout <;> cases audited <;>
    simp [Line.settings, line, digitsOccurrence, timeoutOccurrence, Occurrence.setting]

/-- The line asks for nothing but the options. -/
theorem means_line : (options.line spelling spelling').Means options where
  digits_eq := by
    intro number hmem
    have hnumber : number = options.digits := by simpa [mem_settings_line] using hmem
    exact hnumber.symm
  digits_eq_usual := by
    intro hnone
    have hmem := (mem_settings_line options spelling spelling').mpr (.inl rfl)
    exact absurd hmem (hnone options.digits)
  timeout_iff := by simp [mem_settings_line]
  audited_iff := by simp [mem_settings_line]

end Options

end DecimalPi
