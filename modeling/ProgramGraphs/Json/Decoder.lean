import ProgramGraphs.Json.Tree
import ProgramGraphs.Text.Visible

/-! # Reading trees as data

A decoder reads a tree inside a number of open arrays and objects. It meets faults of the text and
values of the wrong shape in the order in which they are written. A `Schema` lists the fields of a
record; a record is written as an object or as the array of its fields.
-/

namespace ProgramGraphs.Json

/-- How a kind of data is read from a tree at a nesting depth. -/
abbrev Decoder (α : Type) := Nat → Tree → Except Failure α

/-- A fault of the text is a failure to read it. -/
def Failure.ofFault {α : Type} (result : Except Fault α) : Except Failure α :=
  result.mapError .malformed

/-- A character inside a quoted text of a message; what does not show is written as its number. -/
def describeChar (c : Char) : List Char :=
  if c = '\n' then ['\\', 'n']
  else if c = '\r' then ['\\', 'r']
  else if c = '\t' then ['\\', 't']
  else if c = '\\' then ['\\', '\\']
  else if c = '"' then ['\\', '"']
  else if c = '\x00' then ['\\', '0']
  else if Text.isVisible c then [c]
  else ['\\', 'u', '\x7b'] ++ Nat.toDigits 16 c.toNat ++ ['\x7d']

/-- The words of a message for a number. -/
def Number.describe : Number → String
  | .integer value fits => "integer `" ++ String.ofList (Number.integer value fits).chars ++ "`"
  | .float value => "floating point `" ++ String.ofList value.chars ++ "`"

/-- The words of a message for what a tree holds, if its head can be read. -/
def Tree.describe : Tree → Except Fault String
  | .null => .ok "null"
  | .bool value => .ok ("boolean `" ++ (if value then "true" else "false") ++ "`")
  | .number value => value.map Number.describe
  | .string value =>
    value.map fun text =>
      "string " ++ String.ofList ('"' :: (text.toList.flatMap describeChar ++ ['"']))
  | .array _ _ => .ok "sequence"
  | .object _ _ => .ok "map"
  | .broken read _ => .error read

namespace Decoder

/-- A tree of another shape is refused by naming what it holds. -/
def refuse {α : Type} (expected : String) (tree : Tree) : Except Failure α := do
  let found ← Failure.ofFault tree.describe
  throw (.wrongType found expected)

/-- Any value. -/
def value : Decoder Value := fun depth tree =>
  Failure.ofFault (tree.value depth)

/-- A string. -/
def string : Decoder String := fun _ tree =>
  match tree with
  | .string text => Failure.ofFault text
  | other => refuse "a string" other

/-- A value or null. -/
def optional {α : Type} (decoder : Decoder α) : Decoder (Option α) := fun depth tree =>
  match tree with
  | .null => .ok none
  | other => some <$> decoder depth other

/-- An array of values of one kind. -/
def list {α : Type} (decoder : Decoder α) : Decoder (List α) := fun depth tree =>
  match tree with
  | .array items ending =>
    if Tree.depthLimit ≤ depth then throw (.malformed .nestingTooDeep)
    else do
      let values ← items.mapM (decoder (depth + 1))
      Failure.ofFault (Tree.raise? ending.readFault?)
      pure values
  | other => refuse "a sequence" other

end Decoder

/-- A field of a record: what it is called, whether it must be written, and how a value for it is
read into the record. -/
structure Field (ρ : Type) where
  name : String
  required : Bool
  read : Nat → Tree → ρ → Except Failure ρ

/-- A field that is read by a decoder. -/
def Field.of {ρ α : Type} (name : String) (required : Bool) (decoder : Decoder α)
    (set : α → ρ → ρ) : Field ρ :=
  ⟨name, required, fun depth tree record => (set · record) <$> decoder depth tree⟩

/-- The fields of a record in the order in which an array of them is written. -/
structure Schema (ρ : Type) where
  name : String
  fields : List (Field ρ)

namespace Schema

variable {ρ : Type}

/-- How a message names the record. -/
def describe (schema : Schema ρ) : String :=
  "struct " ++ schema.name

/-- Read the members of an object. A member of another name is skipped; the names that have been
read are collected, the latest first. -/
def readMembers (schema : Schema ρ) (depth : Nat) :
    List (Except Fault String × Tree) → List String × ρ → Except Failure (List String × ρ)
  | [], state => .ok state
  | (key, tree) :: rest, (seen, record) => do
    let key ← Failure.ofFault key
    match schema.fields.find? (·.name == key) with
    | some field =>
      if seen.contains key then throw (.duplicateField key)
      let record ← field.read depth tree record
      readMembers schema depth rest (key :: seen, record)
    | none =>
      Failure.ofFault tree.skip
      readMembers schema depth rest (seen, record)

/-- Read the items of an array, field by field. Fields that need not be written may be missing at
the end. -/
def readItems (schema : Schema ρ) (depth : Nat) (ending : ArrayEnd) :
    Nat → List (Field ρ) → List Tree → ρ → Except Failure ρ
  | _, [], [], record => do
    Failure.ofFault (Tree.raise? ending.closeFault?)
    pure record
  | _, [], _ :: _, _ => throw (.malformed .trailingCharacters)
  | index, field :: fields, [], record => do
    Failure.ofFault (Tree.raise? ending.readFault?)
    if field.required then
      throw (.wrongLength index (schema.describe ++ " with " ++
        toString schema.fields.length ++ " elements"))
    readItems schema depth ending (index + 1) fields [] record
  | index, field :: fields, tree :: rest, record => do
    let record ← field.read depth tree record
    readItems schema depth ending (index + 1) fields rest record

/-- Read a record over a record that holds the values of the fields that are not written. -/
def decoder (schema : Schema ρ) (blank : ρ) : Decoder ρ := fun depth tree =>
  match tree with
  | .array items ending =>
    if Tree.depthLimit ≤ depth then throw (.malformed .nestingTooDeep)
    else readItems schema (depth + 1) ending 0 schema.fields items blank
  | .object members ending =>
    if Tree.depthLimit ≤ depth then throw (.malformed .nestingTooDeep)
    else do
      let (seen, record) ← readMembers schema (depth + 1) members ([], blank)
      Failure.ofFault (Tree.raise? ending.readFault?)
      match schema.fields.find? fun field => field.required && !seen.contains field.name with
      | some field => throw (.missingField field.name)
      | none => pure record
  | other => Decoder.refuse schema.describe other

end Schema

/-- Read a whole text: nothing may follow the value. -/
def Decoder.read {α : Type} (decoder : Decoder α) (text : Text) : Except Failure α := do
  let (tree, rest) := Tree.ofTokens (Token.scan text)
  let result ← decoder 0 tree
  if rest.isEmpty then pure result else throw (.malformed .trailingCharacters)

end ProgramGraphs.Json
