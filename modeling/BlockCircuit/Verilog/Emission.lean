import BlockCircuit.Event
import BlockCircuit.Verilog.Body

/-!
# The modules of a project

A project becomes a list of modules. Each dependency comes first, with all modules below it, named
under the module of the circuit that uses it; then one module for each code block of the circuit;
then the module of the circuit itself. The text of a project is the texts of its modules, one line
break apart.

A type that occurs again below its own definition has no finite expansion; emission stops there
and reports the types that lead from it back to itself.
-/

namespace BlockCircuit.Verilog

/-- What a module holds. -/
inductive Content where
  /-- Text that was written by hand. -/
  | code (text : String)
  /-- Statements that stand for a graph. -/
  | circuit (body : Body)
deriving DecidableEq, Repr

/-- The text of what a module holds. -/
def Content.text : Content → String
  | code text => text
  | circuit body => body.text

/-- A module: its name, its ports and what it holds. -/
structure Module where
  name : String
  ports : Ports
  content : Content
deriving DecidableEq, Repr

/-- The text of a module. -/
def Module.text (m : Module) : String :=
  moduleText m.name m.ports m.content.text

/-- The text of a list of modules. -/
def render (modules : List Module) : String :=
  "\n".intercalate (modules.map Module.text)

/-! ## One circuit -/

/-- The module of a code block inside the module `circuit`. -/
def codeModule? (s : Sanitizer) (circuit : String) (b : Block) : Option Module :=
  match b.kind with
  | .code ports text => some ⟨s.childName circuit codeType, ports, .code text⟩
  | _ => none

/-- The module of a circuit. -/
def circuitModule (s : Sanitizer) (name : String) (g : Graph) : Module :=
  ⟨name, g.ports s, .circuit (bodyOf s name g)⟩

/-- The modules of one circuit, dependencies apart. -/
def graphModules (s : Sanitizer) (name : String) (g : Graph) : List Module :=
  g.blocks.filterMap (codeModule? s name) ++ [circuitModule s name g]

/-- The event that announces the module of a code block. -/
def codeEvent? (s : Sanitizer) (circuit : String) (b : Block) : Option Event :=
  match b.kind with
  | .code _ _ => some (.emittingCode (s.childName circuit codeType) b.id)
  | _ => none

/-- The event that tells of an instance without bindings. -/
def unconnectedEvent? (s : Sanitizer) (circuit : String) (wires : List Wire) (b : Block) :
    Option Event :=
  if (bindings s wires b.id).isEmpty then some (.unconnectedInstance circuit b.id) else none

/-- The events of building the body of a circuit. -/
def bodyEvents (s : Sanitizer) (name : String) (g : Graph) : List Event :=
  g.instanceBlocks.filterMap (unconnectedEvent? s name g.wires)

/-- The events of writing one circuit, dependencies apart. -/
def graphEvents (s : Sanitizer) (name : String) (g : Graph) : List Event :=
  g.blocks.filterMap (codeEvent? s name)
    ++ .emittingCircuit name g.blocks.length g.wires.length :: bodyEvents s name g

/-! ## The whole tree -/

mutual

/-- The modules of a project whose circuit becomes the module `name`. `ancestors` are the types
from the outermost project down to this one. -/
def emit (s : Sanitizer) (name : String) (ancestors : List String) : Project → Logged (List Module)
  | ⟨g, deps⟩ => do
      let below ← emitDeps s name ancestors deps
      Logged.report (graphEvents s name g)
      return below ++ graphModules s name g
termination_by structural p => p

/-- The modules of the dependencies of the circuit that becomes the module `name`. -/
def emitDeps (s : Sanitizer) (name : String) (ancestors : List String) :
    List (String × Project) → Logged (List Module)
  | [] => return []
  | (typeName, dep) :: deps => do
      if typeName ∈ ancestors then
        Logged.stop (.cyclicDependency (Project.cycle ancestors typeName))
      else
        let first ← emit s (s.childName name typeName) (ancestors ++ [typeName]) dep
        let rest ← emitDeps s name ancestors deps
        return first ++ rest
termination_by structural deps => deps

end

end BlockCircuit.Verilog
