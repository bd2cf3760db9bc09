import ProgramGraphs.Program.Basic

/-! # Alias classes

The pointers of a function that copies connect form a class; the class is known by the least of its
names. Program points do not matter: a variable that is assigned from two pointers joins the classes
of both.
-/

namespace ProgramGraphs

namespace Instruction

/-- The operands that the result of an instruction may be a copy of. -/
def copiedArgs (instruction : Instruction) : List String :=
  match instruction.opcode with
  | .ptradd => instruction.args.take 1
  | .id | .phi => instruction.args
  | _ => []

end Instruction

/-- The variables that have been merged, each with the representative of its class. -/
structure AliasClasses where
  table : List (String × String) := []
  deriving DecidableEq, Repr

namespace AliasClasses

/-- The representative of the class of a variable; a variable that was never merged is alone. -/
def representative (classes : AliasClasses) (name : String) : String :=
  (classes.table.lookup name).getD name

/-- Whether two variables are in one class. -/
def sameClass (classes : AliasClasses) (a b : String) : Bool :=
  classes.representative a == classes.representative b

/-- Whether every class has one member. -/
def isTrivial (classes : AliasClasses) : Bool :=
  classes.table.all fun (name, representative) => name == representative

/-- List a variable that is not listed as a class of its own. -/
def enlist (name : String) (table : List (String × String)) : List (String × String) :=
  if (table.lookup name).isSome then table else (name, name) :: table

/-- The lesser of two names. -/
def lesser (a b : String) : String :=
  if b < a then b else a

/-- Merge the classes of two variables. -/
def merge (classes : AliasClasses) (a b : String) : AliasClasses :=
  let first := classes.representative a
  let second := classes.representative b
  let kept := lesser first second
  ⟨(enlist b (enlist a classes.table)).map fun (name, representative) =>
    (name, if representative = first ∨ representative = second then kept else representative)⟩

/-- Merge the classes of the ends of every link. -/
def ofLinks (links : List (String × String)) : AliasClasses :=
  links.foldl (fun classes link => classes.merge link.1 link.2) {}

end AliasClasses

namespace Function

/-- Whether a variable is declared to be a pointer. -/
def declaresPointer (function : Function) (name : String) : Bool :=
  ((function.typeOf? name).map ValueType.isPointer).getD false

/-- The copies that a function makes into pointers: each destination with each operand it may
copy. -/
def copyLinks (function : Function) : List (String × String) :=
  function.instructions.flatMap fun instruction =>
    match instruction.dest with
    | some dest =>
      if function.declaresPointer dest then instruction.copiedArgs.map (dest, ·) else []
    | none => []

/-- The alias classes of a function. -/
def aliasClasses (function : Function) : AliasClasses :=
  .ofLinks function.copyLinks

end Function

end ProgramGraphs
