import ProgramGraphs.Graph.Basic
import ProgramGraphs.Json.Failure
import ProgramGraphs.Program.Fault

/-! # Errors

Every way in which loading, analysing or emitting can fail, as a cause. Each is final: nothing is
emitted once one has been met. `Error.message` is the only place that knows the wording.
-/

namespace ProgramGraphs

/-- Why graphs could not be put out. -/
inductive EmissionFault where
  | outputRequired (encoding : String)
  | isDirectory (path : String)
  | missingParent (path parent : String)
  | refused (graph : String)
  | programMissing (graph : String)
  deriving DecidableEq, Repr

/-- The wording of a failed emission. -/
def EmissionFault.message : EmissionFault → String
  | .outputRequired encoding => "an output path is required for " ++ encoding
  | .isDirectory path => "cannot write '" ++ path ++ "': it is a directory"
  | .missingParent path parent =>
    "cannot write '" ++ path ++ "': directory '" ++ parent ++ "' does not exist"
  | .refused graph => "refused " ++ graph
  | .programMissing graph =>
    "graphviz failed for '" ++ graph ++ "': No such file or directory (os error 2)"

/-- Why an input gives no graphs. -/
inductive Error where
  | malformed (fault : BodyFault)
  | file (path : String)
  | parse (failure : Json.Failure)
  | duplicateFunction (name : String)
  | unknownFunction (name : String)
  | graph (missing : MissingNode)
  | kindMismatch (expected found : String)
  | severalGraphs (count : Nat)
  | emission (fault : EmissionFault)
  deriving DecidableEq, Repr

/-- The wording of an error. -/
def Error.message : Error → String
  | .malformed fault => "Malformed - " ++ fault.message
  | .file path => "cannot access '" ++ path ++ "'"
  | .parse failure => "invalid program: " ++ failure.message
  | .duplicateFunction name => "function '" ++ name ++ "' is defined more than once"
  | .unknownFunction name => "function '" ++ name ++ "' not found"
  | .graph missing => missing.message
  | .kindMismatch expected found =>
    "expected a " ++ expected ++ " graph, found a " ++ found ++ " graph"
  | .severalGraphs count =>
    toString count ++
      " graphs were produced but the output is a single file; use a directory"
  | .emission fault => "render failed: " ++ fault.message

end ProgramGraphs
