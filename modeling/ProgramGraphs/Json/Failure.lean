/-! # Why reading JSON fails

A `Fault` is something wrong with the text itself; a `Failure` is a fault or a value of the wrong
shape. `Failure.message` and `Failure.category` are the only places that know the wording.
-/

namespace ProgramGraphs.Json

/-- What can be wrong with a text before its meaning matters. -/
inductive Fault where
  | listCutShort
  | objectCutShort
  | stringCutShort
  | valueCutShort
  | expectedColon
  | expectedListSeparator
  | expectedObjectSeparator
  | expectedWord
  | expectedValue
  | invalidEscape
  | invalidNumber
  | numberOutOfRange
  | invalidCodePoint
  | controlCharacter
  | keyNotAString
  | loneSurrogate
  | hexEscapeCutShort
  | trailingComma
  | trailingCharacters
  | nestingTooDeep
  deriving DecidableEq, Repr

namespace Fault

/-- A text that ended too early is told apart from one that is wrong. -/
def isCutShort : Fault → Bool
  | .listCutShort | .objectCutShort | .stringCutShort | .valueCutShort => true
  | _ => false

/-- The wording of a fault. -/
def message : Fault → String
  | .listCutShort => "EOF while parsing a list"
  | .objectCutShort => "EOF while parsing an object"
  | .stringCutShort => "EOF while parsing a string"
  | .valueCutShort => "EOF while parsing a value"
  | .expectedColon => "expected `:`"
  | .expectedListSeparator => "expected `,` or `]`"
  | .expectedObjectSeparator => "expected `,` or `\x7d`"
  | .expectedWord => "expected ident"
  | .expectedValue => "expected value"
  | .invalidEscape => "invalid escape"
  | .invalidNumber => "invalid number"
  | .numberOutOfRange => "number out of range"
  | .invalidCodePoint => "invalid unicode code point"
  | .controlCharacter => "control character (\\u0000-\\u001F) found while parsing a string"
  | .keyNotAString => "key must be a string"
  | .loneSurrogate => "lone leading surrogate in hex escape"
  | .hexEscapeCutShort => "unexpected end of hex escape"
  | .trailingComma => "trailing comma"
  | .trailingCharacters => "trailing characters"
  | .nestingTooDeep => "recursion limit exceeded"

end Fault

/-- Why a text is not read as the value that was asked for. -/
inductive Failure where
  | malformed (fault : Fault)
  | wrongType (found expected : String)
  | missingField (name : String)
  | duplicateField (name : String)
  | wrongLength (length : Nat) (expected : String)
  | noVariant (type : String)
  deriving DecidableEq, Repr

namespace Failure

/-- The kind of a failure: cut short, malformed text, or the wrong data. -/
def category : Failure → String
  | .malformed fault => if fault.isCutShort then "eof" else "syntax"
  | _ => "data"

/-- The wording of a failure. -/
def message : Failure → String
  | .malformed fault => fault.message
  | .wrongType found expected => "invalid type: " ++ found ++ ", expected " ++ expected
  | .missingField name => "missing field `" ++ name ++ "`"
  | .duplicateField name => "duplicate field `" ++ name ++ "`"
  | .wrongLength length expected =>
    "invalid length " ++ toString length ++ ", expected " ++ expected
  | .noVariant type => "data did not match any variant of untagged enum " ++ type

end Failure

end ProgramGraphs.Json
