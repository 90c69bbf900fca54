import BlockCircuit.Event
import BlockCircuit.Project.Basic
import BlockCircuit.Text.Pieces

/-!
# Pin constraints

Each input and output block of the outermost circuit gets one line that ties its port to the pin of
the block, in block order. Only these ports reach the pins of the device, so dependencies have no
part in it.
-/

namespace BlockCircuit

/-- A port that is tied to a pin. -/
structure PinConstraint where
  port : String
  pin : String
deriving DecidableEq, Repr

/-- The line of a constraint. -/
def PinConstraint.line (c : PinConstraint) : String :=
  "set_io " ++ c.port ++ " " ++ c.pin ++ "\n"

namespace Pins

/-- The constraint of a port block. -/
def constraint (s : Sanitizer) (b : Block) : Except CompileError PinConstraint :=
  match b.pin? with
  | some pin => .ok ⟨s.ident b.id, pin.value⟩
  | none => .error (.missingPin b.id)

/-- The constraints of a circuit, unless one of its ports has no pin; then the first such port is
the error. -/
def constraints (s : Sanitizer) (g : Graph) : Except CompileError (List PinConstraint) :=
  (g.blocks.filter Block.isPort).mapM (constraint s)

/-- The text of some constraints. -/
def text (cs : List PinConstraint) : String :=
  String.join (cs.map PinConstraint.line)

end Pins

/-- The pin constraints of a project. -/
def compilePins (s : Sanitizer) (p : Project) : Logged String := do
  let cs ← Logged.ofExcept (Pins.constraints s p.graph)
  let text := Pins.text cs
  Logged.report [.pinsEmitted (Text.countLines text.toList)]
  return text

end BlockCircuit
