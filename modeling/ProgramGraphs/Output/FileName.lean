import ProgramGraphs.Fresh

/-! # File names for labels

The name of a file is made of the harmless characters of a label. Labels that come to the same name
are told apart by a number, the smallest that gives a name no earlier label has taken.
-/

namespace ProgramGraphs.FileName

/-- The characters that may stand in the name of a file. -/
def isHarmless (c : Char) : Bool :=
  c.isAlphanum || c == '_' || c == '-' || c == '.'

/-- The characters that stand for those of a label: others than harmless ones, and dots at the
start, are replaced, and nothing is replaced by a word. -/
def stemChars (label : List Char) : List Char :=
  match label.map fun c => if isHarmless c then c else '_' with
  | [] => ['g', 'r', 'a', 'p', 'h']
  | kept =>
    (kept.takeWhile (· == '.')).map (fun _ => '_') ++ kept.dropWhile (· == '.')

/-- What stands before the extension in the name of a label's file. -/
def stem (label : String) : String :=
  String.ofList (stemChars label.toList)

/-- The names that a stem can take, by number: without a number first. -/
def candidate (stem extension : String) : Nat → String
  | 0 => stem ++ "." ++ extension
  | number => stem ++ "-" ++ toString number ++ "." ++ extension

/-- The names of the files of labels, given the names that are taken already. -/
def ofLabelsAfter (taken : List String) (extension : String) : List String → List String
  | [] => []
  | label :: rest =>
    let name := freshName (candidate (stem label) extension) taken
    name :: ofLabelsAfter (name :: taken) extension rest

/-- The names of the files of labels, one each. -/
def ofLabels (labels : List String) (extension : String) : List String :=
  ofLabelsAfter [] extension labels

end ProgramGraphs.FileName
