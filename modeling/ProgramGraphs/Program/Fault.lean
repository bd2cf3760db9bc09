/-! # Malformed bodies

What can be wrong with the body of a function that was read without failure. Each cause names the
function in which it was met.
-/

namespace ProgramGraphs

/-- Why a body has no control-flow or call graph. -/
inductive BodyFault where
  | repeatedLabel (label function : String)
  | missingTarget (function : String)
  | unknownTarget (label function : String)
  | missingCallee (function : String)
  | missingFunctionPointer (function : String)
  deriving DecidableEq, Repr

/-- The wording of a malformed body. -/
def BodyFault.message : BodyFault → String
  | .repeatedLabel label function =>
    "label '" ++ label ++ "' defined twice in function '" ++ function ++ "'"
  | .missingTarget function => "branch without a target label in function '" ++ function ++ "'"
  | .unknownTarget label function =>
    "branch to unknown label '" ++ label ++ "' in function '" ++ function ++ "'"
  | .missingCallee function => "call without a callee in function '" ++ function ++ "'"
  | .missingFunctionPointer function =>
    "icall without a function pointer in function '" ++ function ++ "'"

end ProgramGraphs
