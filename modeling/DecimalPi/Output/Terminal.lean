/-!
# What a Terminal Shows

A terminal shows most characters and obeys the others. Control characters do something or
nothing, but are never shown, except that those which lay out a text (tab, line feed, form
feed, carriage return) take effect in the text itself. The escape character opens a sequence
that is meant for the terminal and is not shown either:

- an escape sequence ends with its first character from `0` to `~`;
- a control sequence, opened by `[` after the escape character, ends with its first character
  from `@` to `~`;
- a command, opened by `]`, ends with the bell;
- a control string, opened by `X`, `^` or `_`, ends with a character that holds the byte of
  the string terminator when it is encoded;
- a device control string, opened by `P`, has a header first and is a control string after
  that.

Wherever it stands, the escape character abandons a sequence and opens another, and the
characters for cancelling and substituting abandon it. A character that lays out a text
interrupts an escape sequence or a control sequence; what becomes of that sequence depends on
the terminal (`Interrupted`).

`visible` is what remains of a text when all that is not shown is left out. It holds nothing
but characters that are shown (`shows_of_mem_visibleFrom`), a text of such characters remains
as it is (`visible_eq_self`), and terminals differ only where a text is laid out
(`visible_eq_of_no_layout`).
-/

namespace DecimalPi.Terminal

/-- Whether a control character lays out a text. -/
def isLayout (c : Char) : Bool :=
  c = '\t' || c = '\n' || c = '\x0c' || c = '\r'

/-- Whether a character is one of the control characters, of which there are thirty-two in
front of the space and one after `~`. -/
def isControl (c : Char) : Bool :=
  c < ' ' || c = '\x7f'

/-- Whether a character is shown where a terminal expects text. -/
def isShown (c : Char) : Bool :=
  isLayout c || !isControl c

/-- Whether a character lies between two others, both included. -/
def isBetween (first last c : Char) : Bool :=
  first ≤ c && c ≤ last

/-- The byte that ends a control string. -/
def terminator : UInt8 := 0x9c

/-- Whether the terminator is among the bytes that encode a character. It ends a control
string wherever it stands in a character, because the bytes of a control string have no
encoding of their own. -/
def holdsTerminator (c : Char) : Bool :=
  (String.utf8EncodeChar c).contains terminator

/-- What is left of something that the escape character has opened. -/
inductive Sequence where
  /-- The character after the escape character. -/
  | escape
  /-- The rest of an escape sequence. -/
  | intermediate
  /-- The rest of a control sequence. -/
  | control
  /-- The rest of a command. -/
  | command
  /-- The whole header of a device control string. -/
  | header
  /-- The rest of such a header after a parameter. -/
  | headerParameter
  /-- The rest of such a header after an intermediate character. -/
  | headerIntermediate
  /-- The rest of a control string. -/
  | string
deriving DecidableEq, Repr

namespace Sequence

/-- Whether a text can be laid out within a sequence. Commands and control strings have
contents of their own, to which such characters belong. -/
def isInterruptible : Sequence → Bool
  | escape | intermediate | control => true
  | command | header | headerParameter | headerIntermediate | string => false

/-- What is left after the character that follows the escape character. -/
def opened? (c : Char) : Option Sequence :=
  match c with
  | '[' => some control
  | ']' => some command
  | 'P' => some header
  | 'X' | '^' | '_' => some string
  | c =>
    if isBetween ' ' '/' c then some intermediate
    else if isBetween '0' '~' c then none
    else some escape

/-- What is left of a sequence after one of its characters, if anything. A header goes from
parameters to intermediate characters and ends with a final character; one that is out of
order has ended as well. -/
def next? : Sequence → Char → Option Sequence
  | escape, c => opened? c
  | intermediate, c => if isBetween '0' '~' c then none else some intermediate
  | control, c => if isBetween '@' '~' c then none else some control
  | command, c => if c = '\x07' then none else some command
  | header, c =>
    if isBetween ' ' '/' c then some headerIntermediate
    else if isBetween '0' '?' c then some headerParameter
    else if isBetween '@' '~' c then some string
    else some header
  | headerParameter, c =>
    if isBetween ' ' '/' c then some headerIntermediate
    else if isBetween '<' '~' c then some string
    else some headerParameter
  | headerIntermediate, c => if isBetween '0' '~' c then some string else some headerIntermediate
  | string, c => if holdsTerminator c then none else some string

end Sequence

/-- What becomes of a sequence when a character in it lays out the text. -/
inductive Interrupted where
  /-- The sequence is over, and text follows. -/
  | abandoned
  /-- Text follows, and the sequence goes on after the next control character, unless the
  text has got beyond the characters that a sequence is made of. -/
  | suspended
deriving DecidableEq, Repr

/-- What a terminal takes the next character for. -/
inductive Mode where
  /-- Text to show; a sequence may be suspended. -/
  | text (suspended : Option Sequence)
  /-- Part of a sequence. -/
  | inside (sequence : Sequence)
deriving DecidableEq, Repr

/-- Whether a terminal shows a character, or lets it lay out what is shown. -/
def shows : Mode → Char → Bool
  | .text _, c => isShown c
  | .inside sequence, c => sequence.isInterruptible && isLayout c

/-- The mode after a character of the text while a sequence is suspended. -/
def resume (sequence : Sequence) (c : Char) : Mode :=
  if !isShown c then .inside sequence
  else if c ≤ '\x7f' then .text (some sequence)
  else .text none

/-- The mode after a sequence was interrupted. -/
def interrupt (interrupted : Interrupted) (sequence : Sequence) : Mode :=
  match interrupted with
  | .abandoned => .text none
  | .suspended => .text (some sequence)

/-- The mode after a character. -/
def advance (interrupted : Interrupted) (mode : Mode) (c : Char) : Mode :=
  if c = '\x1b' then .inside .escape
  else if c = '\x18' || c = '\x1a' then .text none
  else
    match mode with
    | .text none => .text none
    | .text (some sequence) => resume sequence c
    | .inside sequence =>
      if shows mode c then interrupt interrupted sequence
      else
        match sequence.next? c with
        | none => .text none
        | some rest => .inside rest

/-- The characters of a text that a terminal in a given mode shows. -/
def visibleFrom (interrupted : Interrupted) : Mode → List Char → List Char
  | _, [] => []
  | mode, c :: rest =>
    if shows mode c then c :: visibleFrom interrupted (advance interrupted mode c) rest
    else visibleFrom interrupted (advance interrupted mode c) rest

/-- The part of a text that a terminal shows. -/
def visible (interrupted : Interrupted) (text : String) : String :=
  String.ofList (visibleFrom interrupted (.text none) text.toList)

/-- What is shown in any mode is shown as text. -/
theorem isShown_of_shows {mode : Mode} {c : Char} (h : shows mode c = true) :
    isShown c = true := by
  cases mode <;> simp_all [shows, isShown]

/-- Whatever remains of a text is shown as text. -/
theorem shows_of_mem_visibleFrom {interrupted : Interrupted} {mode : Mode} {text : List Char}
    {c : Char} (h : c ∈ visibleFrom interrupted mode text) : isShown c = true := by
  induction text generalizing mode with
  | nil => simp [visibleFrom] at h
  | cons d rest ih =>
    unfold visibleFrom at h
    split at h
    next hd =>
      rcases List.mem_cons.mp h with rfl | hrest
      · exact isShown_of_shows hd
      · exact ih hrest
    next => exact ih h

/-- A shown character leaves a terminal ready for more text. -/
theorem advance_of_isShown {interrupted : Interrupted} {c : Char} (h : isShown c = true) :
    advance interrupted (.text none) c = .text none := by
  have hescape : c ≠ '\x1b' := by
    rintro rfl
    exact absurd h (by decide)
  simp [advance, hescape]

/-- A text of shown characters remains as it is. -/
theorem visible_eq_self {interrupted : Interrupted} {text : String}
    (h : ∀ c ∈ text.toList, isShown c = true) : visible interrupted text = text := by
  suffices keep : ∀ cs : List Char, (∀ c ∈ cs, isShown c = true) →
      visibleFrom interrupted (.text none) cs = cs by
    rw [visible, keep _ h, String.ofList_toList]
  intro cs hcs
  induction cs with
  | nil => rfl
  | cons c rest ih =>
    have hc := hcs c List.mem_cons_self
    have hrest := ih fun d hd => hcs d (List.mem_cons_of_mem c hd)
    simp [visibleFrom, shows, hc, advance_of_isShown hc, hrest]

/-- Terminals differ only in the characters that lay out a text. -/
theorem advance_eq_of_not_isLayout {first second : Interrupted} {mode : Mode} {c : Char}
    (h : isLayout c = false) : advance first mode c = advance second mode c := by
  rcases mode with (_ | _) | _ <;> simp [advance, shows, h]

/-- All terminals show the same of a text without characters that lay it out. -/
theorem visible_eq_of_no_layout {first second : Interrupted} {text : String}
    (h : ∀ c ∈ text.toList, isLayout c = false) : visible first text = visible second text := by
  suffices agree : ∀ (cs : List Char) (mode : Mode), (∀ c ∈ cs, isLayout c = false) →
      visibleFrom first mode cs = visibleFrom second mode cs by
    rw [visible, visible, agree _ _ h]
  intro cs
  induction cs with
  | nil => intros; rfl
  | cons c rest ih =>
    intro mode hcs
    have hadvance : advance first mode c = advance second mode c :=
      advance_eq_of_not_isLayout (hcs c List.mem_cons_self)
    have hrest := ih (advance second mode c) fun d hd => hcs d (List.mem_cons_of_mem c hd)
    simp [visibleFrom, hadvance, hrest]

end DecimalPi.Terminal
