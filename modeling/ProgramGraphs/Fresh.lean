/-! # Distinct names

`firstRepeated?` tells whether some names are distinct, and where they are not. A name that must not
clash with others is the first of a numbered list of candidates that is not taken. As long as the
candidates differ from each other, one of the first `taken.length + 1` is free, so the search looks
no further.
-/

namespace ProgramGraphs

/-- The number of the first candidate that is not taken. -/
def freshIndex (candidate : Nat → String) (taken : List String) : Nat :=
  ((List.range (taken.length + 1)).find? fun index => !taken.contains (candidate index)).getD 0

/-- The first candidate that is not taken. -/
def freshName (candidate : Nat → String) (taken : List String) : String :=
  candidate (freshIndex candidate taken)

/-- The first name that is among the names before it. -/
def firstRepeatedAfter? (seen : List String) : List String → Option String
  | [] => none
  | name :: rest =>
    if seen.contains name then some name else firstRepeatedAfter? (name :: seen) rest

/-- The first name of a list that has come before. -/
def firstRepeated? (names : List String) : Option String :=
  firstRepeatedAfter? [] names

end ProgramGraphs
