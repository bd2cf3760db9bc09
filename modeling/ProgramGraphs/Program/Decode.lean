import ProgramGraphs.Json.Decoder
import ProgramGraphs.Program.Basic

/-! # Reading programs

Records are read field by field as they stand in the text. A type and an entry of a body come in
two shapes each: they are first read in full as plain values, and only then matched, so a misfit
anywhere inside is reported as a value that has neither shape.
-/

namespace ProgramGraphs

open Json (Decoder Failure Field Schema Tree Value)

/-- The value of the only member of a name; a repeated name has none. -/
def Json.onlyMember? (name : String) (members : List (String × Value)) : Option Value :=
  match members.filter (·.1 == name) with
  | [(_, value)] => some value
  | _ => none

namespace ValueType

mutual

/-- The type that a value stands for: a string, or an object with one member that tells what is
pointed to. -/
def ofJson? : Value → Option ValueType
  | .string name => some (.named name)
  | .object members => (pointeeIn? members).bind fun found => found.map .pointer
  | _ => none

/-- The pointee that the members of an object tell, if they tell at most one. -/
def pointeeIn? : List (String × Value) → Option (Option ValueType)
  | [] => some none
  | (key, value) :: rest =>
    if key = "ptr" then
      match ofJson? value, pointeeIn? rest with
      | some pointee, some none => some (some pointee)
      | _, _ => none
    else pointeeIn? rest

end

/-- A type. -/
def decoder : Decoder ValueType := fun depth tree => do
  let value ← Decoder.value depth tree
  match ofJson? value with
  | some type => pure type
  | none => throw (.noVariant "Type")

end ValueType

namespace Instruction

/-- The fields of an instruction. -/
def schema : Schema Instruction where
  name := "Instruction"
  fields := [
    .of "op" true .string fun name instruction => { instruction with name },
    .of "dest" false (.optional .string) fun dest instruction => { instruction with dest },
    .of "type" false (.optional ValueType.decoder) fun type instruction =>
      { instruction with type },
    .of "args" false (.list .string) fun args instruction => { instruction with args },
    .of "funcs" false (.list .string) fun funcs instruction => { instruction with funcs },
    .of "labels" false (.list .string) fun labels instruction => { instruction with labels },
    .of "value" false (.optional .value) fun value instruction =>
      { instruction with value := value.map Value.normalize }]

/-- An instruction. -/
def decoder : Decoder Instruction :=
  schema.decoder { name := "" }

end Instruction

namespace Item

/-- The name that a value declares as a label. -/
def labelOf? : Value → Option String
  | .object members =>
    match Json.onlyMember? "label" members with
    | some (.string name) => some name
    | _ => none
  | _ => none

/-- An entry of a body: a label, or else an instruction. -/
def decoder : Decoder Item := fun depth tree => do
  let value ← Decoder.value depth tree
  match labelOf? value with
  | some name => pure (.label name)
  | none =>
    match Instruction.decoder depth tree with
    | .ok operation => pure (.instruction operation)
    | .error _ => throw (.noVariant "Code")

end Item

namespace Parameter

/-- The fields of a parameter. -/
def schema : Schema Parameter where
  name := "Argument"
  fields := [
    .of "name" true .string fun name parameter => { parameter with name },
    .of "type" true ValueType.decoder fun type parameter => { parameter with type }]

/-- A parameter. -/
def decoder : Decoder Parameter :=
  schema.decoder ⟨"", .named ""⟩

end Parameter

namespace Declaration

/-- The fields of a declaration. -/
def schema : Schema Declaration where
  name := "Declaration"
  fields := [
    .of "name" true .string fun name declaration => { declaration with name },
    .of "args" false (.list Parameter.decoder) fun parameters declaration =>
      { declaration with parameters },
    .of "type" false (.optional ValueType.decoder) fun returnType declaration =>
      { declaration with returnType }]

/-- A function without a body. -/
def decoder : Decoder Declaration :=
  schema.decoder { name := "" }

end Declaration

namespace Function

/-- The fields of a function. -/
def schema : Schema Function where
  name := "Function"
  fields := [
    .of "name" true .string fun name function => { function with name },
    .of "args" false (.list Parameter.decoder) fun parameters function =>
      { function with parameters },
    .of "type" false (.optional ValueType.decoder) fun returnType function =>
      { function with returnType },
    .of "instrs" false (.list Item.decoder) fun body function => { function with body }]

/-- A function with a body. -/
def decoder : Decoder Function :=
  schema.decoder { name := "" }

end Function

namespace Program

/-- The fields of a program. -/
def schema : Schema Program where
  name := "Program"
  fields := [
    .of "functions" true (.list Function.decoder) fun functions program =>
      { program with functions },
    .of "externs" false (.list Declaration.decoder) fun externs program =>
      { program with externs }]

/-- A program. -/
def decoder : Decoder Program :=
  schema.decoder { functions := [] }

end Program

end ProgramGraphs
