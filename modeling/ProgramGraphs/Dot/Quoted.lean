/-! # Quoted strings

In a quoted string a backslash and a quote are written with a backslash before them, a line break as
a left-justified line end, and carriage returns are left out.
-/

namespace ProgramGraphs.Dot

/-- The characters that stand for one character. -/
def escapeChar (c : Char) : List Char :=
  if c = '\\' then ['\\', '\\']
  else if c = '"' then ['\\', '"']
  else if c = '\r' then []
  else if c = '\n' then ['\\', 'l']
  else [c]

/-- The characters between the quotes. -/
def escapeChars (text : List Char) : List Char :=
  text.flatMap escapeChar

/-- The text between the quotes. -/
def escape (text : String) : String :=
  String.ofList (escapeChars text.toList)

/-- The characters of a quoted string. -/
def quoteChars (text : List Char) : List Char :=
  '"' :: (escapeChars text ++ ['"'])

/-- A quoted string. -/
def quote (text : String) : String :=
  String.ofList (quoteChars text.toList)

end ProgramGraphs.Dot
