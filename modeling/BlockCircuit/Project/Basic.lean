import BlockCircuit.Identifier
import BlockCircuit.Table

/-!
# Circuit projects

A project is a graph of blocks joined by wires, together with the projects that define the
compound block types it uses. A definition is found by its type name among the dependencies of
the enclosing project only, so a project is a tree of circuits.

* `Block`, `Wire` and `Graph` are one circuit as drawn.
* `Graph.ports` is its interface: the input and output blocks, each named by the identifier of its
  block, in block order.
* `Project` adds the dependencies, in document order.
* `insertDep` keeps one entry for each type name: the first place and the last definition.
* `Project.induction` proves a property of all projects along the tree.
-/

namespace BlockCircuit

/-! ## Blocks -/

/-- The port names of a module, in declaration order. -/
structure Ports where
  inputs : List String := []
  outputs : List String := []
deriving DecidableEq, Repr, Inhabited

/-- The physical pin given to an input or output block. -/
structure Pin where
  name : Option String := none
  value : String
deriving DecidableEq, Repr, Inhabited

/-- What a block stands for. -/
inductive BlockKind where
  /-- A port through which a signal enters the circuit. -/
  | input (pin : Option Pin)
  /-- A port through which a signal leaves the circuit. -/
  | output (pin : Option Pin)
  /-- A module written out by hand, with ports of its own. -/
  | code (ports : Ports) (text : String)
  /-- One use of the dependency named `typeName`. -/
  | compound (typeName : String)
deriving DecidableEq, Repr, Inhabited

/-- A block of a circuit: its kind, under an id that wires refer to. -/
structure Block where
  id : String
  kind : BlockKind
deriving DecidableEq, Repr, Inhabited

/-- The reserved type name of input blocks. -/
def inputType : String := "basic.input"

/-- The reserved type name of output blocks. -/
def outputType : String := "basic.output"

/-- The reserved type name of code blocks. -/
def codeType : String := "basic.code"

namespace BlockKind

/-- The type name under which documents write a block of this kind. -/
def typeName : BlockKind → String
  | .input _ => inputType
  | .output _ => outputType
  | .code _ _ => codeType
  | .compound t => t

/-- Input and output blocks become ports; all others become instances. -/
def isPort : BlockKind → Bool
  | .input _ | .output _ => true
  | .code _ _ | .compound _ => false

/-- Code blocks bring a module of their own. -/
def isCode : BlockKind → Bool
  | .code _ _ => true
  | _ => false

/-- The pin, for blocks that can have one. -/
def pin? : BlockKind → Option Pin
  | .input pin | .output pin => pin
  | .code _ _ | .compound _ => none

/-- Gives the block a pin without a name; only ports have pins, so other kinds stay as they are. -/
def withPin (value : String) : BlockKind → BlockKind
  | .input _ => .input (some { value })
  | .output _ => .output (some { value })
  | kind => kind

end BlockKind

namespace Block

/-- An input block without a pin. -/
def input (id : String) : Block := ⟨id, .input none⟩

/-- An output block without a pin. -/
def output (id : String) : Block := ⟨id, .output none⟩

/-- A block whose module is written out. -/
def code (id : String) (ports : Ports) (text : String) : Block := ⟨id, .code ports text⟩

/-- A use of the dependency `typeName`. -/
def compound (id typeName : String) : Block := ⟨id, .compound typeName⟩

/-- The type name that documents write for the block. -/
def typeName (b : Block) : String := b.kind.typeName

/-- Whether the block is a port of its circuit. -/
def isPort (b : Block) : Bool := b.kind.isPort

/-- The pin of an input or output block. -/
def pin? (b : Block) : Option Pin := b.kind.pin?

/-- The block with a pin, if it can have one. -/
def withPin (b : Block) (value : String) : Block := { b with kind := b.kind.withPin value }

end Block

/-! ## Wires and graphs -/

/-- One end of a wire. -/
structure Endpoint where
  block : String
  port : String
deriving DecidableEq, Repr, Inhabited

/-- A connection from an output of one block to an input of another. -/
structure Wire where
  source : Endpoint
  target : Endpoint
deriving DecidableEq, Repr, Inhabited

namespace Wire

/-- Whether one of the two ends is at the block with this id. -/
def touches (w : Wire) (id : String) : Bool :=
  w.source.block == id || w.target.block == id

end Wire

/-- One circuit as drawn. A wire is known by its place in the list. -/
structure Graph where
  blocks : List Block := []
  wires : List Wire := []
deriving DecidableEq, Repr, Inhabited

namespace Graph

/-- The first block with the given id. -/
def block? (g : Graph) (id : String) : Option Block :=
  g.blocks.find? fun b => b.id == id

/-- The blocks that become instances, in block order. -/
def instanceBlocks (g : Graph) : List Block :=
  g.blocks.filter fun b => !b.isPort

theorem mem_instanceBlocks_iff {g : Graph} {b : Block} :
    b ∈ g.instanceBlocks ↔ b ∈ g.blocks ∧ b.isPort = false := by
  rw [instanceBlocks, List.mem_filter, Bool.not_eq_eq_eq_not, Bool.not_true]

/-- Whether some wire ends at the block with this id. -/
def isConnected (g : Graph) (id : String) : Bool :=
  g.wires.any fun w => w.touches id

end Graph

/-! ## The interface of a circuit -/

/-- The port that a block is when wires leave it inside its circuit. -/
def Block.inputPort? (s : Sanitizer) (b : Block) : Option String :=
  match b.kind with
  | .input _ => some (s.ident b.id)
  | _ => none

/-- The port that a block is when wires enter it inside its circuit. -/
def Block.outputPort? (s : Sanitizer) (b : Block) : Option String :=
  match b.kind with
  | .output _ => some (s.ident b.id)
  | _ => none

/-- The ports of the module of a circuit. -/
def Graph.ports (s : Sanitizer) (g : Graph) : Ports where
  inputs := g.blocks.filterMap (Block.inputPort? s)
  outputs := g.blocks.filterMap (Block.outputPort? s)

/-! ## Projects -/

/-- A circuit together with the circuits its compound blocks use, by type name. -/
structure Project where
  graph : Graph := {}
  deps : List (String × Project) := []
deriving Inhabited

namespace Project

/-- The project of a graph that uses no dependency. -/
def ofGraph (graph : Graph) : Project := { graph }

/-- The project with `typeName` defined by `dep`. -/
def insertDep (p : Project) (typeName : String) (dep : Project) : Project :=
  { p with deps := insertEntry p.deps typeName dep }

/-- The types from the first use of `typeName` down to the place where it is used again, given the
types above that place, the outermost first. -/
def cycle (ancestors : List String) (typeName : String) : List String :=
  ancestors.dropWhile (· ≠ typeName) ++ [typeName]

/-- Induction over a project tree: a project is its graph and its dependencies, and those are
visited from the front. -/
theorem induction {holds : Project → Prop} {all : List (String × Project) → Prop}
    (mk : ∀ graph deps, all deps → holds ⟨graph, deps⟩)
    (nil : all [])
    (cons : ∀ t p deps, holds p → all deps → all ((t, p) :: deps)) (p : Project) : holds p :=
  Project.rec (motive_1 := holds) (motive_2 := all) (motive_3 := fun entry => holds entry.2)
    (fun graph deps h => mk graph deps h) nil
    (fun entry deps hp hdeps => cons entry.1 entry.2 deps hp hdeps) (fun _ _ h => h) p

end Project

end BlockCircuit
