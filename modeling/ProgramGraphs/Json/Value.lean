import ProgramGraphs.Json.Decimal

/-! # JSON values and their text

An object keeps its members in the order in which they are written. `Value.normalize` is the form
of a value that is kept as data: the members of every object sorted by key, the last of several
equal keys winning. `Value.compact` and `Value.pretty` are the two layouts.
-/

namespace ProgramGraphs.Json

/-- Whole numbers stay whole between the least signed and the greatest unsigned 64-bit word. -/
def Number.Fits (value : Int) : Prop :=
  -Int.pow 2 63 ≤ value ∧ value < Int.pow 2 64

instance (value : Int) : Decidable (Number.Fits value) :=
  inferInstanceAs (Decidable (_ ∧ _))

/-- A number is a whole number in range or a floating-point number. -/
inductive Number where
  | integer (value : Int) (fits : Number.Fits value)
  | float (value : Binary64)
  deriving DecidableEq

/-- A JSON value. -/
inductive Value where
  | null
  | bool (value : Bool)
  | number (value : Number)
  | string (value : String)
  | array (items : List Value)
  | object (members : List (String × Value))

namespace Value

/-- Put a member at its place among members sorted by key, replacing one of the same key. -/
def insertMember (key : String) (value : Value) :
    List (String × Value) → List (String × Value)
  | [] => [(key, value)]
  | (other, held) :: rest =>
    if key = other then (key, value) :: rest
    else if key < other then (key, value) :: (other, held) :: rest
    else (other, held) :: insertMember key value rest

/-- Members sorted by key, the last of several equal keys winning. -/
def sortMembers (members : List (String × Value)) : List (String × Value) :=
  members.foldl (fun sorted member => insertMember member.1 member.2 sorted) []

mutual

/-- The value with the members of every object sorted and without repeated keys. -/
def normalize : Value → Value
  | .array items => .array (normalizeItems items)
  | .object members => .object (sortMembers (normalizeMembers members))
  | other => other

def normalizeItems : List Value → List Value
  | [] => []
  | item :: rest => normalize item :: normalizeItems rest

def normalizeMembers : List (String × Value) → List (String × Value)
  | [] => []
  | (key, value) :: rest => (key, normalize value) :: normalizeMembers rest

end

end Value

/-- A lower-case hexadecimal digit. -/
def hexDigit (value : Nat) : Char :=
  (Nat.toDigits 16 (value % 16)).headD '0'

/-- The characters that stand for one character inside a quoted string: quotes, backslashes and
control characters are escaped, everything else stands for itself. -/
def escapeChar (c : Char) : List Char :=
  if c = '"' then ['\\', '"']
  else if c = '\\' then ['\\', '\\']
  else if c = '\x08' then ['\\', 'b']
  else if c = '\x0c' then ['\\', 'f']
  else if c = '\n' then ['\\', 'n']
  else if c = '\r' then ['\\', 'r']
  else if c = '\t' then ['\\', 't']
  else if c.toNat < 32 then ['\\', 'u', '0', '0', hexDigit (c.toNat / 16), hexDigit c.toNat]
  else [c]

/-- A quoted string. -/
def quotedChars (text : String) : List Char :=
  '"' :: (text.toList.flatMap escapeChar ++ ['"'])

/-- The text of a number. -/
def Number.chars : Number → List Char
  | .integer value _ =>
    if value < 0 then '-' :: Nat.toDigits 10 value.natAbs else Nat.toDigits 10 value.natAbs
  | .float value => value.chars

namespace Value

mutual

/-- The text of a value without blanks. -/
def compactChars : Value → List Char
  | .null => ['n', 'u', 'l', 'l']
  | .bool true => ['t', 'r', 'u', 'e']
  | .bool false => ['f', 'a', 'l', 's', 'e']
  | .number value => value.chars
  | .string value => quotedChars value
  | .array items => '[' :: (compactItems items ++ [']'])
  | .object members => '\x7b' :: (compactMembers members ++ ['\x7d'])

def compactItems : List Value → List Char
  | [] => []
  | [item] => compactChars item
  | item :: rest => compactChars item ++ ',' :: compactItems rest

def compactMembers : List (String × Value) → List Char
  | [] => []
  | [(key, value)] => quotedChars key ++ ':' :: compactChars value
  | (key, value) :: rest =>
    quotedChars key ++ ':' :: (compactChars value ++ ',' :: compactMembers rest)

end

/-- The text of a value without blanks. -/
def compact (value : Value) : String :=
  String.ofList value.compactChars

/-- A new line, indented by two blanks a level. -/
def lineBreak (level : Nat) : List Char :=
  '\n' :: List.replicate (2 * level) ' '

mutual

/-- The text of a value with each item and each member on a line of its own. -/
def prettyChars (level : Nat) : Value → List Char
  | .array [] => ['[', ']']
  | .array (item :: rest) =>
    '[' :: (prettyItems (level + 1) (item :: rest) ++ (lineBreak level ++ [']']))
  | .object [] => ['\x7b', '\x7d']
  | .object (member :: rest) =>
    '\x7b' :: (prettyMembers (level + 1) (member :: rest) ++ (lineBreak level ++ ['\x7d']))
  | other => compactChars other

def prettyItems (level : Nat) : List Value → List Char
  | [] => []
  | [item] => lineBreak level ++ prettyChars level item
  | item :: rest => lineBreak level ++ (prettyChars level item ++ ',' :: prettyItems level rest)

def prettyMembers (level : Nat) : List (String × Value) → List Char
  | [] => []
  | [(key, value)] =>
    lineBreak level ++ (quotedChars key ++ ':' :: ' ' :: prettyChars level value)
  | (key, value) :: rest =>
    lineBreak level ++ (quotedChars key ++
      ':' :: ' ' :: (prettyChars level value ++ ',' :: prettyMembers level rest))

end

/-- The text of a value with each item and each member on a line of its own. -/
def pretty (value : Value) : String :=
  String.ofList (value.prettyChars 0)

end Value

end ProgramGraphs.Json
