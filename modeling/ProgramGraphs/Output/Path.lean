/-! # Paths

A path is a text whose pieces are separated by slashes. Empty pieces and single dots name nothing
and do not count, but for a dot that a path starts with. The last piece that counts is the name of a
file, unless it is a dot or two; its extension follows its last dot, unless that dot comes first.
-/

namespace ProgramGraphs

/-- The text of a path. -/
structure Path where
  text : String
  deriving DecidableEq, Repr

namespace Path

/-- Split a text at its slashes into the first piece and those after it. -/
def splitSlashes : List Char → List Char × List (List Char)
  | [] => ([], [])
  | c :: rest =>
    let (first, others) := splitSlashes rest
    if c = '/' then ([], first :: others) else (c :: first, others)

/-- The pieces of a text between slashes. -/
def split (text : List Char) : List (List Char) :=
  (splitSlashes text).1 :: (splitSlashes text).2

/-- An absolute path starts at the root. -/
def isAbsolute (path : Path) : Bool :=
  path.text.toList.head? == some '/'

/-- A path may say that it means a directory. -/
def endsWithSlash (path : Path) : Bool :=
  path.text.toList.getLast? == some '/'

/-- What stands before the pieces. -/
def root (path : Path) : List Char :=
  if path.isAbsolute then ['/'] else []

/-- The pieces after the root. -/
def pieces (path : Path) : List (List Char) :=
  split (if path.isAbsolute then path.text.toList.tail else path.text.toList)

/-- A piece that names nothing. -/
def isIdle (piece : List Char) : Bool :=
  piece == [] || piece == ['.']

/-- The pieces up to the last one that counts. -/
def counted (path : Path) (pieces : List (List Char)) : List (List Char) :=
  match (pieces.reverse.dropWhile isIdle).reverse with
  | [] => if !path.isAbsolute && pieces.head? == some ['.'] then [['.']] else []
  | kept => kept

/-- The path up to its last piece, which is left out. -/
def parent? (path : Path) : Option Path :=
  match path.counted path.pieces with
  | [] => none
  | kept =>
    let rest := List.intercalate ['/'] (path.counted kept.dropLast)
    some ⟨String.ofList (path.root ++ rest)⟩

/-- The name of the file that a path means. -/
def fileChars? (path : Path) : Option (List Char) :=
  (path.counted path.pieces).getLast?.filter fun piece => piece != ['.'] && piece != ['.', '.']

/-- The name of a file without its extension, and the extension if there is one. -/
def splitExtension (name : List Char) : List Char × Option (List Char) :=
  match (name.reverse.dropWhile (· != '.')).reverse with
  | [] => (name, none)
  | [_] => (name, none)
  | before => (before.dropLast, some (name.reverse.takeWhile (· != '.')).reverse)

/-- The name of the file that a path means, without its extension. -/
def stem? (path : Path) : Option String :=
  path.fileChars?.map fun name => String.ofList (splitExtension name).1

/-- The extension of the file that a path means, without the dot. -/
def extension? (path : Path) : Option String :=
  (path.fileChars?.bind fun name => (splitExtension name).2).map String.ofList

/-- The path of a name inside the directory of a path. -/
def join (path : Path) (name : String) : Path :=
  if path.text.isEmpty || path.endsWithSlash then ⟨path.text ++ name⟩
  else ⟨path.text ++ "/" ++ name⟩

end Path

end ProgramGraphs
