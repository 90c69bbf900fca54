import BlockCircuit.Project.Basic
import BlockCircuit.Text.Pieces

/-!
# Modules and their bodies

A module is a header with its ports, its body indented by one space, and a footer. A module
without a name or without a body has no text at all.

Every wire of a circuit becomes a net with the number of the wire. Input and output blocks become
assignments between the ports of the module and the nets, and every other block becomes an instance
of the module for its type, with one binding for each end of a wire at the block.

A `Body` holds these statements as data; `Body.text` writes them out. Ends of wires that are at no
block bind nothing.
-/

namespace BlockCircuit.Verilog

/-- The name of a net. -/
def netName (net : Nat) : String :=
  "w" ++ toString net

/-! ## Statements -/

/-- A continuous assignment between a port of the module and a net. -/
inductive Assignment where
  /-- An input port drives a net. -/
  | drive (net : Nat) (port : String)
  /-- A net drives an output port. -/
  | expose (port : String) (net : Nat)
deriving DecidableEq, Repr

/-- The text of an assignment. -/
def Assignment.text : Assignment → String
  | drive net port => "assign " ++ netName net ++ " = " ++ port ++ ";\n"
  | expose port net => "assign " ++ port ++ " = " ++ netName net ++ ";\n"

/-- The net of an assignment. -/
def Assignment.net : Assignment → Nat
  | drive net _ => net
  | expose _ net => net

/-- A port of an instance, tied to a net. -/
structure Binding where
  port : String
  net : Nat
deriving DecidableEq, Repr

/-- The text of a binding. -/
def Binding.text (b : Binding) : String :=
  "  ." ++ b.port ++ "(" ++ netName b.net ++ ")"

/-- A named use of a module. -/
structure Instance where
  module : String
  name : String
  bindings : List Binding
deriving DecidableEq, Repr

/-- The text of an instance, one binding a line. -/
def Instance.text (i : Instance) : String :=
  i.module ++ " " ++ i.name ++ " (\n" ++ ",\n".intercalate (i.bindings.map Binding.text) ++ "\n);"

/-- The statements of a module. -/
structure Body where
  nets : List Nat
  assignments : List Assignment
  instances : List Instance
deriving DecidableEq, Repr

/-- The text of a body: declarations, assignments, and instances, which are one line break apart. -/
def Body.text (b : Body) : String :=
  String.join (b.nets.map fun net => "wire " ++ netName net ++ ";\n")
    ++ String.join (b.assignments.map Assignment.text)
    ++ "\n".intercalate (b.instances.map Instance.text)

/-! ## From graphs -/

/-- The assignments of one block for one wire. -/
def assignment? (s : Sanitizer) (wire : Wire) (net : Nat) (b : Block) : Option Assignment :=
  match b.kind with
  | .input _ => if wire.source.block = b.id then some (.drive net (s.ident b.id)) else none
  | .output _ => if wire.target.block = b.id then some (.expose (s.ident b.id) net) else none
  | .code _ _ | .compound _ => none

/-- The bindings of the instance with this id for one wire: its source end, then its target end. -/
def endBindings (s : Sanitizer) (id : String) (wire : Wire) (net : Nat) : List Binding :=
  (if wire.source.block = id then [⟨s.ident wire.source.port, net⟩] else [])
    ++ (if wire.target.block = id then [⟨s.ident wire.target.port, net⟩] else [])

/-- The bindings of the instance with this id, by increasing net. -/
def bindings (s : Sanitizer) (wires : List Wire) (id : String) : List Binding :=
  wires.zipIdx.flatMap fun (wire, net) => endBindings s id wire net

/-- The instance of a block inside the module `circuit`. -/
def instanceOf (s : Sanitizer) (circuit : String) (wires : List Wire) (b : Block) : Instance where
  module := s.childName circuit b.typeName
  name := s.ident b.id
  bindings := bindings s wires b.id

/-- The body of the module `circuit`, which stands for a graph. -/
def bodyOf (s : Sanitizer) (circuit : String) (g : Graph) : Body where
  nets := List.range g.wires.length
  assignments := g.wires.zipIdx.flatMap fun (wire, net) =>
    g.blocks.filterMap (assignment? s wire net)
  instances := g.instanceBlocks.map (instanceOf s circuit g.wires)

/-! ## The text of a module -/

/-- The declarations of ports in one direction. -/
def declarations (direction : String) (names : List String) : List String :=
  names.map fun name => direction ++ " " ++ name

/-- The port list of a header: all inputs, then all outputs. -/
def portList (ports : Ports) : String :=
  ", ".intercalate (declarations "input" ports.inputs ++ declarations "output" ports.outputs)

/-- A body as it stands in its module: one blank line closed up, and each line indented. The blank
line is the one that an instance without bindings leaves in its binding list. -/
def indentBody (body : List Char) : List Char :=
  Text.joinPieces '\n' ((Text.pieces '\n' (Text.collapseBlank body)).map (' ' :: ·))

/-- The text of a module. -/
def moduleText (name : String) (ports : Ports) (body : String) : String :=
  if name = "" ∨ body = "" then ""
  else
    "module " ++ name ++ " (" ++ portList ports ++ ");\n"
      ++ String.ofList (indentBody body.toList) ++ "\nendmodule\n"

end BlockCircuit.Verilog
