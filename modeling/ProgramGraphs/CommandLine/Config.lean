import ProgramGraphs.CommandLine.Arguments
import ProgramGraphs.GraphKind
import ProgramGraphs.Output.Format
import ProgramGraphs.Output.Path

/-! # Configurations

A command line asks for help or says what to do. Help is found first, wherever it stands before the
mark that ends the options. Then the words have to be arguments, there may be no more than one input
and one output, the last kind and the last format count, and the names have to be known. Only then
is it asked what is missing.
-/

namespace ProgramGraphs

/-- Why a command line does not say what to do. -/
inductive ConfigFault where
  | severalInputs
  | severalOutputs
  | unknownKind (name : String)
  | unknownFormat (name : String)
  | unknownStrategy (name : String)
  | missingInput
  | missingKind
  | outputRequired (encoding : Encoding)
  | arguments (fault : CommandLine.Fault)
  deriving DecidableEq, Repr

/-- The wording of a fault. -/
def ConfigFault.message : ConfigFault → String
  | .severalInputs => "only one input file is allowed"
  | .severalOutputs => "only one output file is allowed"
  | .unknownKind name => "unknown graph type '" ++ name ++ "'"
  | .unknownFormat name => "unknown output format '" ++ name ++ "'"
  | .unknownStrategy name => "unknown points-to strategy '" ++ name ++ "'"
  | .missingInput => "Input file not specified"
  | .missingKind => "No graph type specified"
  | .outputRequired encoding =>
    "format " ++ encoding.name ++ " writes files and needs --output"
  | .arguments fault => fault.message

/-- What to do. -/
structure Config where
  input : Path
  output : Option Path
  kind : GraphKind
  format : OutputFormat
  strategy : Strategy
  verbose : Bool
  deriving DecidableEq, Repr

/-- What a command line asks for. -/
inductive Resolution where
  | help
  | run (config : Config)
  deriving DecidableEq, Repr

namespace Config

/-- The value of a name that was given, which has to be known. -/
def known {α : Type} (name : Option String) (ofName? : String → Option α)
    (fault : String → ConfigFault) : Except ConfigFault (Option α) :=
  match name with
  | none => .ok none
  | some name =>
    match ofName? name with
    | some value => .ok (some value)
    | none => .error (fault name)

/-- Something that has to be given. -/
def required {α : Type} (value : Option α) (fault : ConfigFault) : Except ConfigFault α :=
  match value with
  | some value => .ok value
  | none => .error fault

/-- The format of an output is that of its extension, if there is one. -/
def formatOfOutput (output : Option Path) : OutputFormat :=
  ((output.bind Path.extension?).bind OutputFormat.ofExtension?).getD .standard

/-- Files go nowhere without an output. -/
def checkOutput (format : OutputFormat) (output : Option Path) : Except ConfigFault Unit :=
  match format, output with
  | .files encoding, none => .error (.outputRequired encoding)
  | _, _ => .ok ()

/-- What arguments say. -/
def ofArguments (arguments : CommandLine.Arguments) : Except ConfigFault Config := do
  if 1 < arguments.inputs.length then throw .severalInputs
  if 1 < arguments.outputs.length then throw .severalOutputs
  let kind ← known arguments.kinds.getLast? GraphKind.ofName? .unknownKind
  let format ← known arguments.formats.getLast? OutputFormat.ofName? .unknownFormat
  let strategy ← known arguments.strategy Strategy.ofName? .unknownStrategy
  let input ← required arguments.inputs.head? .missingInput
  let kind ← required kind .missingKind
  let output := arguments.outputs.head?.map Path.mk
  let format := format.getD (formatOfOutput output)
  checkOutput format output
  pure
    { input := ⟨input⟩, output, kind, format, strategy := strategy.getD .trivial,
      verbose := arguments.verbose }

/-- Words that ask for help wherever they stand. -/
def asksForHelp (words : List String) : Bool :=
  (words.takeWhile (· != "--")).any fun word => word == "-h" || word == "--help"

/-- What a command line asks for. Its first word names the program. -/
def resolve (line : List String) : Except ConfigFault Resolution :=
  if asksForHelp line.tail then .ok .help
  else
    match CommandLine.Arguments.read line.tail with
    | .error fault => .error (.arguments fault)
    | .ok arguments =>
      if arguments.help then .ok .help else .run <$> ofArguments arguments

end Config

end ProgramGraphs
