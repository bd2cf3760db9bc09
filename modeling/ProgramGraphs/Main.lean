import ProgramGraphs.CommandLine.Usage
import ProgramGraphs.Pipeline

/-! # The program

Runs a command line on the files of this machine. Results go to the standard output, and what is
told goes to the standard error.
-/

namespace ProgramGraphs.Main

/-- A run that knows whether everything is to be told. -/
abbrev Verbosely := ReaderT Bool IO

/-- Do something, and tell whether it could be done. -/
def succeeds (action : IO Unit) : IO Bool := do
  try
    action
    pure true
  catch _ => pure false

/-- Tell whether something can be opened. -/
def opens (text : String) : IO Bool :=
  succeeds (discard (IO.FS.Handle.mk text .read))

/-- The content of a file. -/
def content? (text : String) : IO (Option ByteArray) := do
  try
    let content ← IO.FS.readBinFile text
    pure (some content)
  catch _ => pure none

/-- Write an event to the standard error: warnings always, the rest only if it is wanted. -/
def report (verbose : Bool) (event : Event) : IO Unit := do
  if event.isWarning then IO.eprintln ("[WARN] " ++ event.message)
  else if verbose then IO.eprintln ("[DEBUG] " ++ event.message)

instance : MonadHost Verbosely where
  isDirectory path := fun _ => if path.text.isEmpty then pure false else opens (path.text ++ "/.")
  contains path := fun _ => opens path.text
  read? path := fun _ => content? path.text
  write path content := fun _ => succeeds (IO.FS.writeBinFile path.text content)
  remove path := fun _ => succeeds (IO.FS.removeFile path.text)
  createDirectories path := fun _ => succeeds (IO.FS.createDirAll path.text)
  display _ _ := fun _ => pure ()
  print text := fun _ => IO.print text
  tell event := fun verbose => report verbose event

/-- Run a configuration, and give the exit code. -/
def execute (config : Config) : IO UInt32 := do
  match ← ReaderT.run (config.run .inProcess).run config.verbose with
  | .ok receipt =>
    receipt.written.forM fun path => IO.eprintln ("[INFO] wrote " ++ path.text)
    pure 0
  | .error error =>
    IO.eprintln ("Error: cannot render " ++ config.kind.name ++ " graphs of " ++
      config.input.text ++ ": " ++ error.message)
    pure 1

end ProgramGraphs.Main

open ProgramGraphs in
/-- Run the command line whose words after the name of the program are given. -/
def main (arguments : List String) : IO UInt32 := do
  match Config.resolve ("irview" :: arguments) with
  | .ok .help =>
    IO.println CommandLine.Usage.text
    pure 0
  | .ok (.run config) => Main.execute config
  | .error fault =>
    IO.eprintln ("Error: " ++ fault.message ++ "\n")
    IO.eprintln CommandLine.Usage.text
    pure 1
