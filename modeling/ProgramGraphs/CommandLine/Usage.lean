import ProgramGraphs.GraphKind
import ProgramGraphs.Output.Format

/-! # Usage

The text that tells how the command line is used. Inputs and options stand in tables of two columns,
the second one starting two blanks after the longest entry of the first.
-/

namespace ProgramGraphs.CommandLine.Usage

/-- Names to choose from. -/
def choice (names : List String) : String :=
  String.intercalate " | " names

/-- The names of all formats. -/
def formatNames : List String :=
  Viewer.all.map Viewer.name ++ Encoding.all.map Encoding.name ++ [OutputFormat.json.name]

/-- The table of inputs. -/
def inputs : List (String × String) :=
  [("[FILE]...", "Program to analyse (JSON)")]

/-- The table of options. -/
def options : List (String × String) :=
  [("-o, --output <PATH>", "Output file or directory"),
    ("-t, --type <TYPE>", choice (GraphKind.all.map GraphKind.name)),
    ("-f, --format <FORMAT>",
      choice formatNames ++ " [default: from the --output extension, else Gtk]"),
    ("    --points-to <STRATEGY>",
      "Indirect call resolution: " ++ choice [Strategy.trivial.name, Strategy.andersen.name] ++
        " [default: trivial]"),
    ("-v, --verbose", "Enable debug logging"),
    ("-h, --help", "Print usage and exit")]

/-- The lines of a table. -/
def table (rows : List (String × String)) : List String :=
  let width := (rows.map fun row => row.1.length).foldl max 0
  rows.map fun (entry, text) =>
    "  " ++ entry ++ String.ofList (List.replicate (width - entry.length) ' ') ++ "  " ++ text

/-- The lines of the text. -/
def lines : List String :=
  ["Render control-flow, dominance, call and escape graphs of a JSON IR program", "",
    "Usage: irview [OPTIONS] [FILE]...", "", "Arguments:"] ++ table inputs ++
    ["", "Options:"] ++ table options

/-- The text that tells how the command line is used. -/
def text : String :=
  String.intercalate "\n" lines ++ "\n"

end ProgramGraphs.CommandLine.Usage
