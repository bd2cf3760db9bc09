import ProgramGraphs.Fresh
import ProgramGraphs.Program.Basic

/-! # Basic blocks

A body is cut into sections at every label and after every terminator. A section without a label
gets a name that no label of the body has; a section with a label keeps it. An empty body has one
empty section.
-/

namespace ProgramGraphs

/-- A run of instructions under at most one label. -/
structure Section where
  label : Option String
  instructions : List Instruction

namespace Section

/-- Whether a section has neither a label nor instructions. -/
def isVacant (content : Section) : Bool :=
  content.label.isNone && content.instructions.isEmpty

/-- The section itself, unless it is vacant. -/
def kept (content : Section) : List Section :=
  if content.isVacant then [] else [content]

/-- The section with one more instruction. -/
def append (content : Section) (instruction : Instruction) : Section :=
  { content with instructions := content.instructions ++ [instruction] }

/-- Cut entries into sections, the first of which is already open. -/
def cut (opened : Section) : List Item → List Section
  | [] => opened.kept
  | .label name :: rest => opened.kept ++ cut ⟨some name, []⟩ rest
  | .instruction operation :: rest =>
    if operation.isTerminator then opened.append operation :: cut ⟨none, []⟩ rest
    else cut (opened.append operation) rest

/-- The sections of a body; there is at least one. -/
def ofBody (body : List Item) : List Section :=
  match cut ⟨none, []⟩ body with
  | [] => [⟨none, []⟩]
  | sections => sections

/-- The names for the unlabelled section at a position, in order of preference. -/
def generatedName (position underscores : Nat) : String :=
  "b" ++ toString position ++ String.ofList (List.replicate underscores '_')

end Section

/-- A straight-line run of instructions with a name; only the last one may be a terminator. -/
structure Block where
  label : String
  instructions : List Instruction
  isExit : Bool := false

namespace Block

/-- The label of the node that stands for leaving the function. -/
def exitLabel : String := "<exit>"

/-- The node that stands for leaving the function. -/
def exit : Block where
  label := exitLabel
  instructions := []
  isExit := true

/-- Name the section at a position. -/
def ofSection (declared : List String) (content : Section) (position : Nat) : Block where
  label :=
    content.label.getD (freshName (Section.generatedName position) declared)
  instructions := content.instructions

end Block

/-- The basic blocks of a function in body order. -/
def Function.blocks (function : Function) : List Block :=
  let sections := Section.ofBody function.body
  let declared := sections.filterMap (·.label)
  sections.mapIdx fun position content => Block.ofSection declared content position

end ProgramGraphs
