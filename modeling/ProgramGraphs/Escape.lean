import ProgramGraphs.CallGraph
import ProgramGraphs.Module

/-! # Escape analysis

The pointers that a function is given and those that it allocates are tracked. A tracked pointer
escapes if it, or a variable in its alias class, is returned, stored, or passed to where it may
escape: to a parameter that escapes, to a function without a body where the policy says so, or to a
call that may reach anything. Which parameters escape is summed up for each function; components of
the call graph are settled from callees to callers, each by rounds until no summary grows.
-/

namespace ProgramGraphs

/-- Whether a pointer passed to a function without a body escapes at a position. -/
abbrev EscapePolicy := String → Nat → Bool

/-- Where a tracked pointer comes from. -/
inductive Origin where
  | parameter (position : Nat)
  | allocation
  deriving DecidableEq, Repr

/-- Why a use lets a pointer escape. -/
inductive EscapeReason where
  | returned
  | stored
  | passedTo (callee : String) (position : Nat)
  | unresolvedCall
  deriving DecidableEq, Repr

/-- The wording of a reason. -/
def EscapeReason.text : EscapeReason → String
  | .returned => "returned"
  | .stored => "stored"
  | .passedTo callee position => "passed to @" ++ callee ++ " #" ++ toString position
  | .unresolvedCall => "unresolved call"

/-- An instruction that uses a tracked pointer through a variable. -/
structure PointerUse where
  instruction : String
  via : String
  reason : Option EscapeReason
  deriving DecidableEq, Repr

/-- A tracked pointer and its uses in body order. -/
structure TrackedPointer where
  name : String
  origin : Origin
  uses : List PointerUse
  deriving DecidableEq, Repr

namespace TrackedPointer

/-- The first reason why the pointer escapes. -/
def reason? (pointer : TrackedPointer) : Option EscapeReason :=
  pointer.uses.findSome? (·.reason)

/-- Whether the pointer escapes. -/
def escapes (pointer : TrackedPointer) : Bool :=
  pointer.reason?.isSome

end TrackedPointer

/-- The tracked pointers of a function, parameters first, and for each parameter whether it
escapes. -/
structure FunctionEscape where
  function : String
  pointers : List TrackedPointer
  parameters : List Bool
  deriving DecidableEq, Repr

/-- What escapes in a module, function by function in program order. -/
structure EscapeReport where
  module : String
  functions : List FunctionEscape
  deriving DecidableEq, Repr

namespace EscapeReport

/-- The report on a function. -/
def function? (report : EscapeReport) (name : String) : Option FunctionEscape :=
  report.functions.find? (·.function == name)

/-- Whether a tracked pointer of a function escapes. -/
def escapes? (report : EscapeReport) (function pointer : String) : Option Bool := do
  let found ← report.function? function
  let tracked ← found.pointers.find? (·.name == pointer)
  pure tracked.escapes

/-- Whether the parameter of a function at a position escapes. -/
def parameterEscapes (report : EscapeReport) (function : String) (position : Nat) : Bool :=
  ((report.function? function).bind fun found => found.parameters[position]?).getD false

end EscapeReport

/-- For each function with a body, which parameters are known to escape. -/
structure EscapeSummaries where
  entries : List (String × List Bool)
  deriving DecidableEq, Repr

namespace EscapeSummaries

/-- Nothing is known to escape. -/
def blank (functions : List Function) : EscapeSummaries :=
  ⟨functions.map fun function =>
    (function.name, List.replicate function.parameters.length false)⟩

/-- The summary of a function with a body. -/
def find? (summaries : EscapeSummaries) (function : String) : Option (List Bool) :=
  summaries.entries.lookup function

/-- The summaries with that of one function replaced. -/
def set (summaries : EscapeSummaries) (function : String) (flags : List Bool) : EscapeSummaries :=
  ⟨summaries.entries.map fun (name, held) => (name, if name = function then flags else held)⟩

/-- The number of parameters that are not known to escape. -/
def quiet (summaries : EscapeSummaries) : Nat :=
  (summaries.entries.map fun entry => entry.2.count false).foldr (· + ·) 0

/-- The reason for which a pointer passed to a function escapes, if it does. -/
def passedTo? (summaries : EscapeSummaries) (policy : EscapePolicy) (callee : String)
    (position : Nat) : Option EscapeReason :=
  let escapes :=
    match summaries.find? callee with
    | some flags => flags[position]?.getD false
    | none => policy callee position
  if escapes then some (.passedTo callee position) else none

end EscapeSummaries

namespace Function

/-- The parameters that are pointers, and where they stand. -/
def trackedParameters (function : Function) : List (String × Origin) :=
  function.parameters.zipIdx.filterMap fun (parameter, position) =>
    if parameter.type.isPointer then some (parameter.name, .parameter position) else none

/-- The variables that are allocated. -/
def allocated (function : Function) : List String :=
  function.instructions.filterMap fun instruction =>
    if instruction.opcode = .alloc then instruction.dest else none

/-- The tracked pointers of a function: its pointer parameters, then each other variable that it
allocates, once. -/
def tracked (function : Function) : List (String × Origin) :=
  function.allocated.foldl
    (fun tracked name =>
      if tracked.any (·.1 == name) then tracked else tracked ++ [(name, .allocation)])
    function.trackedParameters

/-- Whether a variable may hold a pointer: it is not declared to be anything else. -/
def mayPoint (function : Function) (name : String) : Bool :=
  ((function.typeOf? name).map ValueType.isPointer).getD true

end Function

/-- What the escape analysis of a function depends on besides the summaries. -/
structure EscapeContext where
  module : Module
  calls : CallGraph
  policy : EscapePolicy

namespace EscapeContext

/-- The reason for which the operand of an instruction at a position escapes, if it does. -/
def reason? (context : EscapeContext) (summaries : EscapeSummaries) (function : String)
    (site : Nat) (instruction : Instruction) (position : Nat) : Option EscapeReason :=
  match instruction.opcode with
  | .ret => some .returned
  | .store => if position = 1 then some .stored else none
  | .call =>
    instruction.funcs.head?.bind fun callee =>
      summaries.passedTo? context.policy callee position
  | .icall =>
    if position = 0 then none
    else
      match ((context.calls.siteAt? function site).map (·.targets)).getD [] with
      | [] => some .unresolvedCall
      | targets =>
        targets.findSome? fun callee => summaries.passedTo? context.policy callee (position - 1)
  | _ => none

/-- The uses of a tracked pointer in a function. -/
def usesOf (context : EscapeContext) (summaries : EscapeSummaries) (function : Function)
    (pointer : String) : List PointerUse :=
  let aliases := context.module.aliasesOf function.name
  function.instructions.zipIdx.flatMap fun (instruction, site) =>
    instruction.args.zipIdx.filterMap fun (arg, position) =>
      if function.mayPoint arg && aliases.sameClass arg pointer then
        some ⟨instruction.text, arg,
          context.reason? summaries function.name site instruction position⟩
      else none

/-- Analyse a function once, under the summaries of the functions that it calls. -/
def analyse (context : EscapeContext) (summaries : EscapeSummaries) (function : Function) :
    FunctionEscape :=
  let pointers := function.tracked.map fun (name, origin) =>
    (⟨name, origin, context.usesOf summaries function name⟩ : TrackedPointer)
  { function := function.name
    pointers := pointers
    parameters := (List.range function.parameters.length).map fun position =>
      pointers.any fun pointer => pointer.origin == .parameter position && pointer.escapes }

/-- Renew the summary of a function. -/
def renew (context : EscapeContext) (summaries : EscapeSummaries) (function : Function) :
    EscapeSummaries :=
  summaries.set function.name (context.analyse summaries function).parameters

/-- Renew the summaries of some functions, each under the summaries renewed before. -/
def round (context : EscapeContext) (members : List Function) (summaries : EscapeSummaries) :
    EscapeSummaries :=
  members.foldl context.renew summaries

/-- Renew the summaries of some functions as long as more parameters are found to escape; the
number of rounds is counted. -/
def settle (context : EscapeContext) (members : List Function) (rounds : Nat)
    (summaries : EscapeSummaries) : EscapeSummaries × Nat :=
  let next := context.round members summaries
  if next.quiet < summaries.quiet then settle context members (rounds + 1) next
  else (next, rounds + 1)
termination_by summaries.quiet

/-- Settle the functions with bodies of a component of the call graph. -/
def settleComponent (context : EscapeContext) (summaries : EscapeSummaries)
    (component : List String) : Attempt Error EscapeSummaries := do
  let names := component.filter fun name => !context.calls.isExternal name
  let members ← MonadExcept.ofExcept (names.mapM context.module.function)
  match members with
  | [] => pure summaries
  | _ =>
    let (settled, rounds) := context.settle members 0 summaries
    if 1 < members.length then
      Logged.tell (.summariesStable members.length rounds)
    pure settled

/-- Analyse every function of a module under settled summaries. -/
def run (context : EscapeContext) : Attempt Error EscapeReport := do
  let summaries ← context.calls.bottomUp.foldlM context.settleComponent
    (.blank context.module.functions)
  pure ⟨context.module.name, context.module.functions.map (context.analyse summaries)⟩

end EscapeContext

end ProgramGraphs
