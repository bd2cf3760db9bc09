import ProgramGraphs.Output.Path

/-! # File trees

Directories and files by where they are. A path is walked piece by piece: each step is taken from a
directory, idle pieces stay, two dots go up, and the root is above itself. A path that ends with a
slash or a dot can therefore mean a directory only. Names take 255 bytes at most and paths 4095, and
neither holds a zero character. Operations that fail leave the tree as it was. Links, devices and
permissions are left out: a place holds a directory, a file or nothing.
-/

namespace ProgramGraphs

/-- The names on the way from a place up to the root. -/
abbrev Place := List String

/-- What a place holds. -/
inductive Entry where
  | directory
  | file (content : ByteArray)

/-- Why a directory was not made. -/
inductive DirectoryFault where
  /-- The directory above it is missing. -/
  | notFound
  /-- Something is in the way. -/
  | refused
  deriving DecidableEq, Repr

/-- What all places below the root hold, and the place where relative paths start. -/
structure FileTree where
  entries : List (Place × Entry)
  working : Place := []

namespace FileTree

/-- What a place holds; the root is a directory. -/
def entry? (tree : FileTree) (place : Place) : Option Entry :=
  if place.isEmpty then some .directory else tree.entries.lookup place

/-- Put something at a place, instead of what it held. -/
def insert (tree : FileTree) (place : Place) (entry : Entry) : FileTree :=
  { tree with entries := (place, entry) :: tree.entries.filter (·.1 != place) }

/-- Empty a place. -/
def erase (tree : FileTree) (place : Place) : FileTree :=
  { tree with entries := tree.entries.filter (·.1 != place) }

/-- The place that a piece leads to, which need not hold anything. -/
def enter (here : Place) (piece : List Char) : Except DirectoryFault Place :=
  if Path.isIdle piece then .ok here
  else if piece = ['.', '.'] then .ok here.tail
  else if 255 < (String.ofList piece).utf8ByteSize then .error .refused
  else .ok (String.ofList piece :: here)

/-- Take a step from a directory. -/
def step (tree : FileTree) (here : Place) (piece : List Char) :
    Except DirectoryFault Place :=
  match tree.entry? here with
  | some .directory => enter here piece
  | some (.file _) => .error .refused
  | none => .error .notFound

/-- Where a path starts. -/
def start (tree : FileTree) (path : Path) : Place :=
  if path.isAbsolute then [] else tree.working

/-- The place that pieces lead to. -/
def walk (tree : FileTree) (path : Path) (pieces : List (List Char)) :
    Except DirectoryFault Place :=
  pieces.foldlM tree.step (tree.start path)

/-- Some texts are no paths at all. -/
def checked (path : Path) : Except DirectoryFault Path :=
  if path.text.isEmpty then .error .notFound
  else if 4095 < path.text.utf8ByteSize || path.text.toList.contains '\x00' then .error .refused
  else .ok path

/-- What a path leads to. -/
def find? (tree : FileTree) (path : Path) : Option Entry :=
  match checked path >>= fun path => tree.walk path path.pieces with
  | .ok place => tree.entry? place
  | .error _ => none

/-- Paths that lead to a directory. -/
def isDirectory (tree : FileTree) (path : Path) : Bool :=
  match tree.find? path with
  | some .directory => true
  | _ => false

/-- Paths that lead to anything. -/
def contains (tree : FileTree) (path : Path) : Bool :=
  (tree.find? path).isSome

/-- The content of the file that a path leads to. -/
def read? (tree : FileTree) (path : Path) : Option ByteArray :=
  match tree.find? path with
  | some (.file content) => some content
  | _ => none

/-- The place that a path gives to a new entry: its last piece has to be a name, and what comes
before has to lead to a directory. -/
def placeOf (tree : FileTree) (path : Path) (pieces : List (List Char)) :
    Except DirectoryFault Place := do
  let path ← checked path
  let here ← tree.walk path pieces.dropLast
  let place ← tree.step here (pieces.getLast?.getD [])
  if pieces.getLast?.all fun last => Path.isIdle last || last == ['.', '.'] then throw .refused
  pure place

/-- Write a file, making or replacing it. -/
def write? (tree : FileTree) (path : Path) (content : ByteArray) : Option FileTree :=
  match tree.placeOf path path.pieces with
  | .error _ => none
  | .ok place =>
    match tree.entry? place with
    | some .directory => none
    | _ => some (tree.insert place (.file content))

/-- Remove a file. -/
def remove? (tree : FileTree) (path : Path) : Option FileTree :=
  match tree.placeOf path path.pieces with
  | .error _ => none
  | .ok place =>
    match tree.entry? place with
    | some (.file _) => some (tree.erase place)
    | _ => none

/-- The pieces without the empty ones at the end. -/
def trimSlashes (pieces : List (List Char)) : List (List Char) :=
  (pieces.reverse.dropWhile (· == [])).reverse

/-- Make a directory inside an existing one; slashes at the end of its path do not count. -/
def makeDirectory (tree : FileTree) (path : Path) : Except DirectoryFault FileTree := do
  let place ← tree.placeOf path (trimSlashes path.pieces)
  match tree.entry? place with
  | some _ => throw .refused
  | none => pure (tree.insert place .directory)

/-- Make the directories of some paths, the last one first, and tell whether all of them are there
in the end; a path without a parent ends the making of those above it. -/
def makeDirectories (fuel : Nat) (tree : FileTree) (path : Path) : FileTree × Bool :=
  if path.text.isEmpty then (tree, true)
  else
    match tree.makeDirectory path with
    | .ok made => (made, true)
    | .error .refused => (tree, tree.isDirectory path)
    | .error .notFound =>
      match fuel, path.parent? with
      | fuel + 1, some parent =>
        match tree.makeDirectories fuel parent with
        | (below, false) => (below, false)
        | (below, true) =>
          match below.makeDirectory path with
          | .ok made => (made, true)
          | .error _ => (below, below.isDirectory path)
      | _, _ => (tree, false)

/-- Make a directory and the directories above it, and tell whether it is there in the end. -/
def createDirectories (tree : FileTree) (path : Path) : FileTree × Bool :=
  tree.makeDirectories path.text.length path

end FileTree

end ProgramGraphs
