import ProgramGraphs.Dot.Basic
import ProgramGraphs.Error
import ProgramGraphs.Output.Format

/-! # Backends

A backend turns pictures into what viewers and files need, or refuses to. `Backend.inProcess` knows
the text of a graph and no more: everything else takes a program that it does not run.
-/

namespace ProgramGraphs

/-- What draws pictures. -/
structure Backend where
  display : Viewer → Picture → Except EmissionFault Unit
  encode : Encoding → Picture → Except EmissionFault ByteArray

namespace Backend

/-- The backend that runs no other program. -/
def inProcess : Backend where
  display _ picture := .error (.programMissing picture.name)
  encode
    | .dot, picture => .ok picture.toDot.toUTF8
    | _, picture => .error (.programMissing picture.name)

end Backend

end ProgramGraphs
