import ProgramGraphs.Text.ControlSequence

/-! # Arguments

A command line is a list of words. `Word.ofString` tells their forms apart: the mark after which
everything is an input, long options, clusters of short ones, and plain words. `Arguments.read`
goes over the words once. Values that stand in words of their own are looked at as late as possible:
when the next word that belongs to something else has been understood, or at the end. So a word that
means nothing is reported before a value that is wrong, even if the value comes first.
-/

namespace ProgramGraphs.CommandLine

/-- The things that take values. -/
inductive Slot where
  | input
  | output
  | kind
  | format
  | strategy
  deriving DecidableEq, Repr

/-- The things that are on or off. -/
inductive Switch where
  | verbose
  | help
  deriving DecidableEq, Repr

/-- Anything that can be set. -/
inductive Setting where
  | slot (place : Slot)
  | switch (flag : Switch)
  deriving DecidableEq, Repr

/-- How something that takes values is called in messages. -/
def Slot.title : Slot → String
  | .input => "[FILE]..."
  | .output => "--output <PATH>"
  | .kind => "--type <TYPE>"
  | .format => "--format <FORMAT>"
  | .strategy => "--points-to <STRATEGY>"

/-- How something that is on or off is called in messages. -/
def Switch.title : Switch → String
  | .verbose => "--verbose"
  | .help => "--help"

/-- How a setting is called in messages. -/
def Setting.title : Setting → String
  | .slot place => place.title
  | .switch flag => flag.title

/-- The setting of a long name. -/
def Setting.ofLong? (name : String) : Option Setting :=
  match name with
  | "output" => some (.slot .output)
  | "type" => some (.slot .kind)
  | "format" => some (.slot .format)
  | "points-to" => some (.slot .strategy)
  | "verbose" => some (.switch .verbose)
  | "help" => some (.switch .help)
  | _ => none

/-- The setting of a letter. -/
def Setting.ofLetter? (letter : Char) : Option Setting :=
  match letter with
  | 'o' => some (.slot .output)
  | 't' => some (.slot .kind)
  | 'f' => some (.slot .format)
  | 'v' => some (.switch .verbose)
  | 'h' => some (.switch .help)
  | _ => none

/-- Why a list of words is no command line. -/
inductive Fault where
  | unexpected (word : String)
  | missingValue (slot : Slot)
  | repeated (setting : Setting)
  | unexpectedValue (value : String) (switch : Switch)
  deriving DecidableEq, Repr

/-- The wording of a fault. Of the words themselves it has what a terminal shows. -/
def Fault.message : Fault → String
  | .unexpected word => "error: unexpected argument '" ++ Text.withoutControls word ++ "' found"
  | .missingValue slot =>
    "error: a value is required for '" ++ slot.title ++ "' but none was supplied"
  | .repeated setting =>
    "error: the argument '" ++ setting.title ++ "' cannot be used multiple times"
  | .unexpectedValue value switch =>
    "error: unexpected value '" ++ Text.withoutControls value ++ "' for '" ++ switch.title ++
      "' found; no more were expected"

/-- The form of a word. -/
inductive Word where
  | endOfOptions
  | long (name : String) (value : Option String)
  | cluster (letters : List Char)
  | plain (text : String)
  deriving DecidableEq, Repr

namespace Word

/-- The value after the first equals sign. -/
def attached? (text : List Char) : Option String :=
  match text.dropWhile (· != '=') with
  | [] => none
  | _ :: value => some (String.ofList value)

/-- The form of a word of some characters; a single dash is plain. -/
def ofChars : List Char → Word
  | ['-', '-'] => .endOfOptions
  | '-' :: '-' :: text => .long (String.ofList (text.takeWhile (· != '='))) (attached? text)
  | '-' :: letter :: letters => .cluster (letter :: letters)
  | text => .plain (String.ofList text)

/-- The form of a word. -/
def ofString (text : String) : Word :=
  ofChars text.toList

end Word

/-- What a command line gives, each list in the order of the words. -/
structure Arguments where
  inputs : List String := []
  outputs : List String := []
  kinds : List String := []
  formats : List String := []
  strategy : Option String := none
  verbose : Bool := false
  help : Bool := false
  deriving DecidableEq, Repr

/-- Something whose values are still to be looked at. -/
structure Pending where
  slot : Slot
  values : List String
  deriving DecidableEq, Repr

/-- How far the words have been understood. -/
structure Reading where
  arguments : Arguments := {}
  pending : Option Pending := none
  inputsOnly : Bool := false
  deriving DecidableEq, Repr

namespace Arguments

/-- Take the values of something. Paths are not empty, and the strategy is given once. -/
def take (arguments : Arguments) (pending : Pending) : Except Fault Arguments :=
  if pending.values.isEmpty then .error (.missingValue pending.slot)
  else
    match pending.slot with
    | .input =>
      if pending.values.contains "" then .error (.missingValue .input)
      else .ok { arguments with inputs := arguments.inputs ++ pending.values }
    | .output =>
      if pending.values.contains "" then .error (.missingValue .output)
      else .ok { arguments with outputs := arguments.outputs ++ pending.values }
    | .kind => .ok { arguments with kinds := arguments.kinds ++ pending.values }
    | .format => .ok { arguments with formats := arguments.formats ++ pending.values }
    | .strategy =>
      if arguments.strategy.isSome then .error (.repeated (.slot .strategy))
      else .ok { arguments with strategy := pending.values.getLast? }

/-- Turn something on; nothing is turned on twice. -/
def turnOn (arguments : Arguments) : Switch → Except Fault Arguments
  | .verbose =>
    if arguments.verbose then .error (.repeated (.switch .verbose))
    else .ok { arguments with verbose := true }
  | .help =>
    if arguments.help then .error (.repeated (.switch .help))
    else .ok { arguments with help := true }

end Arguments

namespace Reading

/-- Look at the values that are still to be looked at. -/
def settle (reading : Reading) : Except Fault Reading :=
  match reading.pending with
  | none => .ok reading
  | some pending => do
    let arguments ← reading.arguments.take pending
    pure { reading with arguments, pending := none }

/-- Take a value that is attached to its option. -/
def takeAttached (reading : Reading) (slot : Slot) (value : String) :
    Except Fault Reading := do
  let settled ← reading.settle
  let arguments ← settled.arguments.take ⟨slot, [value]⟩
  pure { settled with arguments }

/-- Wait for the value of an option. -/
def await (reading : Reading) (slot : Slot) : Except Fault Reading := do
  let settled ← reading.settle
  pure { settled with pending := some ⟨slot, []⟩ }

/-- Turn something on. -/
def turnOn (reading : Reading) (switch : Switch) : Except Fault Reading := do
  let settled ← reading.settle
  let arguments ← settled.arguments.turnOn switch
  pure { settled with arguments }

/-- Understand a long option. -/
def long (reading : Reading) (name : String) (value : Option String) :
    Except Fault Reading :=
  match Setting.ofLong? name, value with
  | none, _ => .error (.unexpected ("--" ++ name))
  | some (.slot slot), none => reading.await slot
  | some (.slot slot), some value => reading.takeAttached slot value
  | some (.switch switch), none => reading.turnOn switch
  | some (.switch switch), some value => .error (.unexpectedValue value switch)

/-- Understand a cluster of short options. The first that takes a value takes what is left of the
cluster, but for an equals sign in front; if nothing is left, it waits for its value. -/
def cluster (reading : Reading) : List Char → Except Fault Reading
  | [] => .ok reading
  | letter :: rest =>
    match Setting.ofLetter? letter with
    | none => .error (.unexpected (String.ofList ['-', letter]))
    | some (.switch switch) => do
      let reading ← reading.turnOn switch
      reading.cluster rest
    | some (.slot slot) =>
      match rest with
      | [] => reading.await slot
      | '=' :: value => reading.takeAttached slot (String.ofList value)
      | value => reading.takeAttached slot (String.ofList value)

/-- An option that waits takes a plain word as its value; other plain words are inputs. -/
def plain (reading : Reading) (text : String) : Except Fault Reading :=
  match reading.pending with
  | some ⟨.input, values⟩ => .ok { reading with pending := some ⟨.input, values ++ [text]⟩ }
  | some ⟨slot, []⟩ =>
    if reading.inputsOnly then .error (.missingValue slot)
    else .ok { reading with pending := some ⟨slot, [text]⟩ }
  | _ => do
    let settled ← reading.settle
    pure { settled with pending := some ⟨.input, [text]⟩ }

/-- Understand the next word. -/
def step (reading : Reading) (text : String) : Except Fault Reading :=
  if reading.inputsOnly then reading.plain text
  else
    match Word.ofString text with
    | .endOfOptions => .ok { reading with inputsOnly := true }
    | .long name value => reading.long name value
    | .cluster letters => reading.cluster letters
    | .plain text => reading.plain text

end Reading

/-- Understand the words of a command line. -/
def Arguments.read (words : List String) : Except Fault Arguments := do
  let reading ← words.foldlM Reading.step {}
  let settled ← reading.settle
  pure settled.arguments

end ProgramGraphs.CommandLine
