import BlockCircuit.Project.Basic

/-!
# Editing projects

Changes of the outermost circuit of a project. Blocks and wires are known by their places in the
lists; a place where there is nothing leaves the project as it is.

Compilation takes projects as they are, so nothing else in the library uses this module. It is for
programs that make up projects step by step.
-/

namespace BlockCircuit

/-- The place of the first block with the given id, and the block. -/
def Graph.locate? (g : Graph) (id : String) : Option (Nat × Block) :=
  (g.blocks.findIdx? fun b => b.id == id).bind fun i => (g.blocks[i]?).map fun b => (i, b)

namespace Project

/-- Adds a block at the end. -/
def addBlock (p : Project) (b : Block) : Project :=
  { p with graph := { p.graph with blocks := p.graph.blocks ++ [b] } }

/-- Adds a wire at the end. -/
def addWire (p : Project) (w : Wire) : Project :=
  { p with graph := { p.graph with wires := p.graph.wires ++ [w] } }

/-- Gives the block at a place a pin, if it can have one. -/
def pinBlock (p : Project) (place : Nat) (pin : String) : Project :=
  { p with graph := { p.graph with blocks := p.graph.blocks.modify place (·.withPin pin) } }

/-- Takes away the block at a place. -/
def dropBlock (p : Project) (place : Nat) : Project :=
  { p with graph := { p.graph with blocks := p.graph.blocks.eraseIdx place } }

/-- Takes away the wire at a place. -/
def dropWire (p : Project) (place : Nat) : Project :=
  { p with graph := { p.graph with wires := p.graph.wires.eraseIdx place } }

/-- Turns the order of the blocks around. -/
def reverseBlocks (p : Project) : Project :=
  { p with graph := { p.graph with blocks := p.graph.blocks.reverse } }

/-- Turns the order of the wires around. -/
def reverseWires (p : Project) : Project :=
  { p with graph := { p.graph with wires := p.graph.wires.reverse } }

end Project

end BlockCircuit
