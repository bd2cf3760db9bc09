import ProgramGraphs.Program.Basic

/-! # Points-to strategies

A strategy says which functions an indirect call may reach. Matching signatures looks only at the
call: every function that takes as many arguments and returns a result exactly where one is wanted.
-/

namespace ProgramGraphs

/-- What a strategy has found out: for a caller and one of its indirect calls, the functions that
may be called. None means that the call stays unresolved. -/
structure PointsTo where
  strategy : String
  targets : String → Instruction → List String

namespace PointsTo

/-- Names in ascending order. -/
def sortNames (names : List String) : List String :=
  names.mergeSort fun a b => !decide (b < a)

/-- Whether a function can be what a call through a pointer expects. -/
def fits (call : Instruction) (signature : Signature) : Bool :=
  signature.arity == call.args.length - 1 && signature.returns == call.dest.isSome

/-- Every function whose signature fits the call. -/
def bySignature (program : Program) : PointsTo where
  strategy := "trivial"
  targets _ call := sortNames ((program.signatures.filter (fits call)).map (·.name))

end PointsTo

end ProgramGraphs
