import ProgramGraphs.Json.Value

/-! # Programs

A program is a list of functions with bodies and a list of declarations without. A body is a list
of labels and instructions in the order in which they are written; instructions name variables,
functions and labels by text. `Opcode` says which operations the analyses know.
-/

namespace ProgramGraphs

/-- The declared type of a variable. -/
inductive ValueType where
  | pointer (pointee : ValueType)
  | named (name : String)
  deriving DecidableEq, Repr, Inhabited

namespace ValueType

/-- Pointers to data, and function pointers, can carry an address. -/
def isPointer : ValueType → Bool
  | .pointer _ => true
  | .named name => name == "fnptr"

/-- What a pointer to data points to. -/
def pointee? : ValueType → Option ValueType
  | .pointer pointee => some pointee
  | .named _ => none

/-- The text of a type. -/
def text : ValueType → String
  | .pointer pointee => "ptr<" ++ pointee.text ++ ">"
  | .named name => name

end ValueType

/-- The operation of an instruction. -/
inductive Opcode where
  | const
  | jmp
  | br
  | ret
  | call
  | icall
  | fnaddr
  | alloc
  | free
  | load
  | store
  | ptradd
  | id
  | phi
  | other (name : String)
  deriving DecidableEq, Repr

namespace Opcode

/-- The operation that a name stands for. -/
def ofName : String → Opcode
  | "const" => .const
  | "jmp" => .jmp
  | "br" => .br
  | "ret" => .ret
  | "call" => .call
  | "icall" => .icall
  | "fnaddr" => .fnaddr
  | "alloc" => .alloc
  | "free" => .free
  | "load" => .load
  | "store" => .store
  | "ptradd" => .ptradd
  | "id" => .id
  | "phi" => .phi
  | name => .other name

/-- Terminators end a basic block. -/
def isTerminator : Opcode → Bool
  | .jmp | .br | .ret => true
  | _ => false

/-- The result of a copy may be one of its operands. -/
def isCopy : Opcode → Bool
  | .id | .ptradd | .phi => true
  | _ => false

end Opcode

/-- An instruction as it is written; `name` is the name of its operation. -/
structure Instruction where
  name : String
  dest : Option String := none
  type : Option ValueType := none
  args : List String := []
  funcs : List String := []
  labels : List String := []
  value : Option Json.Value := none

namespace Instruction

/-- The operation of an instruction. -/
def opcode (instruction : Instruction) : Opcode :=
  Opcode.ofName instruction.name

/-- Whether an instruction ends its basic block. -/
def isTerminator (instruction : Instruction) : Bool :=
  instruction.opcode.isTerminator

/-- The text of an instruction: destination, operation, then literal, functions, variables and
labels, each kind marked. -/
def text (instruction : Instruction) : String :=
  let dest :=
    match instruction.dest, instruction.type with
    | some dest, some type => dest ++ ": " ++ type.text ++ " = "
    | some dest, none => dest ++ " = "
    | none, _ => ""
  let literal :=
    match instruction.value with
    | some value => " " ++ value.compact
    | none => ""
  dest ++ instruction.name ++ literal ++
    String.join (instruction.funcs.map (" @" ++ ·)) ++
    String.join (instruction.args.map (" " ++ ·)) ++
    String.join (instruction.labels.map (" ." ++ ·))

end Instruction

/-- An entry of a function body. -/
inductive Item where
  | label (name : String)
  | instruction (operation : Instruction)

namespace Item

/-- The instruction of an entry that is no label. -/
def instruction? : Item → Option Instruction
  | .label _ => none
  | .instruction operation => some operation

/-- The name of an entry that is a label. -/
def label? : Item → Option String
  | .label name => some name
  | .instruction _ => none

/-- The text of an entry. -/
def text : Item → String
  | .label name => "." ++ name ++ ":"
  | .instruction operation => operation.text

end Item

/-- A named and typed parameter. -/
structure Parameter where
  name : String
  type : ValueType
  deriving DecidableEq, Repr

/-- The head of a function; without a return type nothing is returned. -/
structure Declaration where
  name : String
  parameters : List Parameter := []
  returnType : Option ValueType := none
  deriving DecidableEq, Repr

/-- A function with a body. -/
structure Function extends Declaration where
  body : List Item := []

namespace Function

/-- The instructions of a body, without its labels. -/
def instructions (function : Function) : List Instruction :=
  function.body.filterMap Item.instruction?

/-- The labels that a body declares. -/
def declaredLabels (function : Function) : List String :=
  function.body.filterMap Item.label?

/-- The variables that instructions assign. -/
def dests (function : Function) : List String :=
  function.instructions.filterMap (·.dest)

/-- Every declaration of a variable's type: the parameters, then the typed destinations in body
order. -/
def typings (function : Function) : List (String × ValueType) :=
  function.parameters.map (fun parameter => (parameter.name, parameter.type)) ++
    function.instructions.filterMap fun instruction =>
      match instruction.dest, instruction.type with
      | some dest, some type => some (dest, type)
      | _, _ => none

/-- The declared type of a variable; the last of several declarations holds. -/
def typeOf? (function : Function) (name : String) : Option ValueType :=
  function.typings.reverse.lookup name

/-- Every variable that a function mentions: parameters, destinations and operands. -/
def names (function : Function) : List String :=
  function.parameters.map (·.name) ++
    function.instructions.flatMap fun instruction => instruction.dest.toList ++ instruction.args

end Function

/-- A program: the functions with bodies, then those that are only declared. -/
structure Program where
  functions : List Function
  externs : List Declaration := []

/-- What a caller can see of a function. -/
structure Signature where
  name : String
  arity : Nat
  returns : Bool
  defined : Bool
  deriving DecidableEq, Repr

namespace Program

/-- The function of a name. -/
def function? (program : Program) (name : String) : Option Function :=
  program.functions.find? (·.name == name)

/-- The declaration of a name. -/
def declaration? (program : Program) (name : String) : Option Declaration :=
  program.externs.find? (·.name == name)

/-- Whether a name is that of a function with a body. -/
def defines (program : Program) (name : String) : Bool :=
  (program.function? name).isSome

/-- The signature of a declaration. -/
def signatureOf (defined : Bool) (declaration : Declaration) : Signature :=
  ⟨declaration.name, declaration.parameters.length, declaration.returnType.isSome, defined⟩

/-- The signatures of all functions, those with bodies first. -/
def signatures (program : Program) : List Signature :=
  program.functions.map (fun function => signatureOf true function.toDeclaration) ++
    program.externs.map (signatureOf false)

end Program

end ProgramGraphs
