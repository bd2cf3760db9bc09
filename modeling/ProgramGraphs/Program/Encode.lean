import ProgramGraphs.Program.Basic

/-! # Programs as JSON

A record is written as an object whose fields come in a fixed order. Empty lists and absent options
are left out, except for the functions of a program and the body of a function.
-/

namespace ProgramGraphs

open Json (Value)

/-- Leave out an empty list. -/
def Json.listMember (name : String) (items : List Value) : List (String × Value) :=
  if items.isEmpty then [] else [(name, .array items)]

/-- Leave out an absent value. -/
def Json.optionMember (name : String) (item : Option Value) : List (String × Value) :=
  item.toList.map (name, ·)

/-- A type is an object around what it points to, or a string. -/
def ValueType.toJson : ValueType → Value
  | .pointer pointee => .object [("ptr", pointee.toJson)]
  | .named name => .string name

namespace Instruction

/-- The fields of an instruction that has any. -/
def toJson (instruction : Instruction) : Value :=
  .object (("op", .string instruction.name) ::
    (Json.optionMember "dest" (instruction.dest.map .string) ++
      Json.optionMember "type" (instruction.type.map ValueType.toJson) ++
      Json.listMember "args" (instruction.args.map .string) ++
      Json.listMember "funcs" (instruction.funcs.map .string) ++
      Json.listMember "labels" (instruction.labels.map .string) ++
      Json.optionMember "value" instruction.value))

end Instruction

/-- A label is an object with its name alone. -/
def Item.toJson : Item → Value
  | .label name => .object [("label", .string name)]
  | .instruction operation => operation.toJson

/-- The name and the type of a parameter. -/
def Parameter.toJson (parameter : Parameter) : Value :=
  .object [("name", .string parameter.name), ("type", parameter.type.toJson)]

namespace Declaration

/-- The fields that functions and declarations share. -/
def members (declaration : Declaration) : List (String × Value) :=
  ("name", .string declaration.name) ::
    (Json.listMember "args" (declaration.parameters.map Parameter.toJson) ++
      Json.optionMember "type" (declaration.returnType.map ValueType.toJson))

/-- The fields of a function without a body. -/
def toJson (declaration : Declaration) : Value :=
  .object declaration.members

end Declaration

/-- The fields of a function with a body. -/
def Function.toJson (function : Function) : Value :=
  .object (function.members ++ [("instrs", .array (function.body.map Item.toJson))])

/-- The functions of a program, and its declarations. -/
def Program.toJson (program : Program) : Value :=
  .object (("functions", .array (program.functions.map Function.toJson)) ::
    Json.listMember "externs" (program.externs.map Declaration.toJson))

end ProgramGraphs
