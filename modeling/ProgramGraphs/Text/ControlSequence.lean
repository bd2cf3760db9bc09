/-! # Text without control sequences

A terminal obeys some of the characters that it is sent: single control characters, and sequences
that an escape character opens. `withoutControls` leaves what it shows. Blanks and line breaks are
kept. A sequence that the text does not close reaches to its end.
-/

namespace ProgramGraphs.Text

/-- How far an unfinished sequence has come. -/
inductive ControlSequence where
  /-- The escape character has been read. -/
  | escape
  /-- An escape sequence names a set of functions by intermediate characters. -/
  | intermediate
  /-- A control sequence awaits the character that names its function. -/
  | control
  /-- A device control string has been opened. -/
  | device
  /-- The parameters of a device control string are read. -/
  | deviceParameter
  /-- The intermediate characters of a device control string are read. -/
  | deviceIntermediate
  /-- A string for a device or an application is read up to its terminator. -/
  | string
  /-- A command for the operating system is read. -/
  | command
  deriving DecidableEq, Repr

/-- Control characters that lay text out. -/
def isLayout (c : Char) : Bool :=
  c = '\t' || c = '\n' || c = '\x0c' || c = '\r'

/-- Characters from one to another. -/
def isWithin (first last c : Char) : Bool :=
  first ≤ c && c ≤ last

/-- All characters but the control characters of the ASCII range. -/
def isGraphic (c : Char) : Bool :=
  ' ' ≤ c && c != '\x7f'

namespace ControlSequence

/-- The terminator of a string is a single byte, which may also be a part of a character. -/
def hasTerminator (c : Char) : Bool :=
  (String.utf8EncodeChar c).contains 0x9c

/-- What a further character makes of a sequence; nothing remains of one that it completes. -/
def next? (sequence : ControlSequence) (c : Char) : Option ControlSequence :=
  match sequence with
  | .escape =>
    if isWithin ' ' '/' c then some .intermediate
    else if c = '[' then some .control
    else if c = ']' then some .command
    else if c = 'P' then some .device
    else if c = 'X' || c = '^' || c = '_' then some .string
    else if isLayout c || isWithin '0' '~' c then none
    else some .escape
  | .intermediate => if isLayout c || isWithin '0' '~' c then none else some .intermediate
  | .control => if isLayout c || isWithin '@' '~' c then none else some .control
  | .device =>
    if isWithin ' ' '/' c then some .deviceIntermediate
    else if isWithin '0' '?' c then some .deviceParameter
    else if isWithin '@' '~' c then some .string
    else some .device
  | .deviceParameter =>
    if isWithin ' ' '/' c then some .deviceIntermediate
    else if isWithin '<' '~' c then some .string
    else some .deviceParameter
  | .deviceIntermediate => if isWithin '0' '~' c then some .string else some .deviceIntermediate
  | .string => if hasTerminator c then none else some .string
  | .command => if c = '\x07' then none else some .command

/-- Where text stands after a character: an escape character opens a sequence wherever it stands,
and the two cancelling characters end any. -/
def after (pending : Option ControlSequence) (c : Char) : Option ControlSequence :=
  if c = '\x1b' then some .escape
  else if c = '\x18' || c = '\x1a' then none
  else pending.bind (·.next? c)

/-- Whether a character is shown where text stands. Layout also counts, and breaks off, in sequences
that are no strings. -/
def shows (pending : Option ControlSequence) (c : Char) : Bool :=
  match pending with
  | none => isGraphic c || isLayout c
  | some .escape | some .intermediate | some .control => isLayout c
  | some _ => false

/-- The characters that are shown, from where text stands. -/
def shownFrom (pending : Option ControlSequence) : List Char → List Char
  | [] => []
  | c :: rest =>
    if shows pending c then c :: shownFrom (after pending c) rest
    else shownFrom (after pending c) rest

theorem after_of_graphic {c : Char} (graphic : isGraphic c) : after none c = none := by
  have : c ≠ '\x1b' := by rintro rfl; revert graphic; decide
  simp [after, this]

/-- Text of graphic characters is shown as it is. -/
theorem shownFrom_of_graphic (text : List Char) (graphic : ∀ c ∈ text, isGraphic c) :
    shownFrom none text = text := by
  induction text with
  | nil => rfl
  | cons c rest ih =>
    have head := graphic c (List.mem_cons_self ..)
    have others := ih fun other member => graphic other (List.mem_cons_of_mem _ member)
    simp [shownFrom, shows, head, after_of_graphic head, others]

end ControlSequence

/-- What a terminal shows of a text. -/
def withoutControls (text : String) : String :=
  String.ofList (ControlSequence.shownFrom none text.toList)

end ProgramGraphs.Text
