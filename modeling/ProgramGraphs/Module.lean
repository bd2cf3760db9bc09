import ProgramGraphs.AliasClass
import ProgramGraphs.Error
import ProgramGraphs.Journal
import ProgramGraphs.Program.Decode
import ProgramGraphs.Promotion

/-! # Modules

A module is a program that has been checked and preprocessed. No two functions of a module share a
name. Passes run in the order in which they are asked for, each over all functions.
-/

namespace ProgramGraphs

/-- A preprocessing pass. -/
inductive Pass where
  | promoteMemory
  | basicAlias
  deriving DecidableEq, Repr

namespace Pass

/-- The name of a pass. -/
def name : Pass → String
  | .promoteMemory => "PromoteMemory"
  | .basicAlias => "BasicAlias"

/-- The pass of a name. -/
def ofName? (name : String) : Option Pass :=
  [Pass.promoteMemory, .basicAlias].find? (·.name == name)

/-- The passes that run when nothing else is asked for. -/
def defaults : List Pass :=
  [.promoteMemory, .basicAlias]

end Pass

/-- A checked and preprocessed program, with the alias classes of its functions by name. -/
structure Module where
  name : String
  program : Program
  aliases : List (String × AliasClasses)

namespace Program

/-- The names of all functions, those with bodies first. -/
def functionNames (program : Program) : List String :=
  program.functions.map (·.name) ++ program.externs.map (·.name)

/-- The program with the slots of every function promoted. -/
def promote (program : Program) : Program :=
  { program with functions := program.functions.map Function.promote }

/-- The alias classes of every function, by name. -/
def aliasClasses (program : Program) : List (String × AliasClasses) :=
  program.functions.map fun function => (function.name, function.aliasClasses)

/-- What is told of promoting the slots of every function. -/
def promotions (program : Program) : List Event :=
  program.functions.filterMap fun function =>
    if function.slots.isEmpty then none
    else some (.promoted function.name function.slots.length)

end Program

namespace Module

/-- Run a pass. -/
def runPass (module : Module) : Pass → Logged Module
  | .promoteMemory =>
    ⟨{ module with program := module.program.promote }, module.program.promotions⟩
  | .basicAlias => pure { module with aliases := module.program.aliasClasses }

/-- Check a program and run passes over it. -/
def ofProgram (name : String) (program : Program) (passes : List Pass) :
    Attempt Error Module := do
  match firstRepeated? program.functionNames with
  | some repeated => throw (.duplicateFunction repeated)
  | none => pure ()
  let module ← (passes.foldlM runPass ⟨name, program, []⟩ : Logged Module)
  Logged.tell (.checked name program.functions.length program.externs.length)
  pure module

/-- Read a program and run passes over it. -/
def ofText (name : String) (text : Json.Text) (passes : List Pass) : Attempt Error Module := do
  match Program.decoder.read text with
  | .ok program => ofProgram name program passes
  | .error failure => throw (.parse failure)

/-- The functions with bodies. -/
def functions (module : Module) : List Function :=
  module.program.functions

/-- The function of a name. -/
def function (module : Module) (name : String) : Except Error Function :=
  match module.program.function? name with
  | some function => .ok function
  | none => .error (.unknownFunction name)

/-- The alias classes of a function; nothing is known of a function that was not analysed. -/
def aliasesOf (module : Module) (function : String) : AliasClasses :=
  (module.aliases.lookup function).getD {}

end Module

end ProgramGraphs
