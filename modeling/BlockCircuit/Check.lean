import BlockCircuit.Event
import BlockCircuit.Project.Basic

/-!
# Structural checks

The checker visits a project as the compiler does, dependencies first, and reports everything that
would make the compiled text wrong: wires that end nowhere, block types without a definition, types
used inside their own definition, block ids used twice, and modules that would share a name. It
warns about blocks that no wire touches.

Findings are in the order of the visit, so the first error is the one that stops compilation.
-/

namespace BlockCircuit

/-- What a check has found. -/
structure CheckReport where
  errors : List CompileError := []
  warnings : List Diagnostic := []
deriving DecidableEq, Repr

namespace CheckReport

/-- The findings of one report, then those of another. -/
def append (r t : CheckReport) : CheckReport :=
  ⟨r.errors ++ t.errors, r.warnings ++ t.warnings⟩

instance : Append CheckReport := ⟨append⟩

@[simp] theorem errors_append (r t : CheckReport) : (r ++ t).errors = r.errors ++ t.errors := rfl

@[simp] theorem warnings_append (r t : CheckReport) :
    (r ++ t).warnings = r.warnings ++ t.warnings := rfl

/-- A report of one error. -/
def ofError (e : CompileError) : CheckReport := { errors := [e] }

/-- Whether nothing speaks against compilation. -/
def isOk (r : CheckReport) : Bool := r.errors.isEmpty

/-- All findings for display, errors first. -/
def diagnostics (r : CheckReport) : List Diagnostic :=
  r.errors.map CompileError.toDiagnostic ++ r.warnings

/-- The error that stops compilation. -/
def firstError? (r : CheckReport) : Option CompileError := r.errors.head?

/-- The warnings, or else the first error. -/
def toExcept (r : CheckReport) : Except CompileError (List Diagnostic) :=
  match r.errors with
  | [] => .ok r.warnings
  | e :: _ => .error e

end CheckReport

namespace Check

/-! ## Ends of wires -/

/-- The two ends of a wire. -/
inductive Side where
  | source
  | target
deriving DecidableEq, Repr

/-- The direction that a port has to have for a wire to end there: a wire comes from an output and
leads to an input. -/
def Side.direction : Side → String
  | .source => "output"
  | .target => "input"

/-- The ports at which wires may have the given end. -/
def Side.ports (side : Side) (ports : Ports) : List String :=
  match side with
  | .source => ports.outputs
  | .target => ports.inputs

/-- Why a wire cannot end where it does. -/
inductive EndProblem where
  /-- No block has the id. -/
  | unknownBlock (id : String)
  /-- Inputs of a circuit are sources inside it. -/
  | inputAsTarget (id : String)
  /-- Outputs of a circuit are targets inside it. -/
  | outputAsSource (id : String)
  /-- The block has no such port in the right direction. -/
  | undeclaredPort (port id : String) (side : Side)
deriving DecidableEq, Repr

/-- What the wire refers to, in words. -/
def EndProblem.text : EndProblem → String
  | unknownBlock id => "unknown block `" ++ id ++ "`"
  | inputAsTarget id => "input block `" ++ id ++ "` as a wire target"
  | outputAsSource id => "output block `" ++ id ++ "` as a wire source"
  | undeclaredPort port id side =>
      "port `" ++ port ++ "`, which block `" ++ id ++ "` does not declare as an " ++ side.direction

/-- The port lists against which ends at a block are checked. There are none for ports of the
circuit itself, and none for a type without a definition, which is an error of its own. -/
def portsOf? (s : Sanitizer) (deps : List (String × Project)) : BlockKind → Option Ports
  | .code ports _ => some ports
  | .compound typeName => (deps.lookup typeName).map fun dep => dep.graph.ports s
  | .input _ | .output _ => none

/-- What is wrong with a wire that has the given end at a port of a block. -/
def portProblem? (s : Sanitizer) (deps : List (String × Project)) (b : Block) (port : String)
    (side : Side) : Option EndProblem :=
  match b.kind, side with
  | .input _, .target => some (.inputAsTarget b.id)
  | .output _, .source => some (.outputAsSource b.id)
  | kind, side =>
      match portsOf? s deps kind with
      | some ports =>
          if s.ident port ∈ side.ports ports then none else some (.undeclaredPort port b.id side)
      | none => none

/-- What is wrong with one end of a wire. -/
def endProblem? (s : Sanitizer) (deps : List (String × Project)) (g : Graph) (e : Endpoint)
    (side : Side) : Option EndProblem :=
  match g.block? e.block with
  | none => some (.unknownBlock e.block)
  | some b => portProblem? s deps b e.port side

/-- The errors of one wire: its source, then its target. -/
def wireErrors (s : Sanitizer) (circuit : String) (deps : List (String × Project)) (g : Graph)
    (wire : Wire) (number : Nat) : List CompileError :=
  [endProblem? s deps g wire.source .source, endProblem? s deps g wire.target .target].filterMap
    fun problem? => problem?.map fun problem => .danglingWire circuit number problem.text

/-! ## One circuit -/

/-- The members of a list that occur earlier in it or in `seen`, in order. -/
def repeated (seen : List String) : List String → List String
  | [] => []
  | x :: xs => if x ∈ seen then x :: repeated seen xs else repeated (x :: seen) xs

/-- The error of a block whose type has no definition. -/
def typeError? (circuit : String) (deps : List (String × Project)) (b : Block) :
    Option CompileError :=
  match b.kind with
  | .compound typeName =>
      if (deps.lookup typeName).isSome then none else some (.unresolvedType circuit b.id typeName)
  | _ => none

/-- The error of code blocks whose modules would share a name: all code blocks of a circuit ask for
the same one. -/
def codeErrors (s : Sanitizer) (circuit : String) (g : Graph) : List CompileError :=
  if (g.blocks.filter fun b => b.kind.isCode).length > 1 then
    [.duplicateModule (s.childName circuit codeType)]
  else []

/-- The warning about a block that no wire touches. -/
def unconnectedWarning (circuit : String) (b : Block) : Diagnostic where
  level := .warning
  message := "block `" ++ b.id ++ "` has no connections"
  code := some .unconnectedBlock
  circuit := some circuit

/-- The findings about one circuit, dependencies apart. -/
def graphReport (s : Sanitizer) (circuit : String) (deps : List (String × Project)) (g : Graph) :
    CheckReport where
  errors :=
    (repeated [] (g.blocks.map (·.id))).map (.duplicateBlockId circuit)
      ++ g.blocks.filterMap (typeError? circuit deps)
      ++ codeErrors s circuit g
      ++ g.wires.zipIdx.flatMap fun (wire, number) => wireErrors s circuit deps g wire number
  warnings :=
    (g.instanceBlocks.filter fun b => !g.isConnected b.id).map (unconnectedWarning circuit)

/-! ## The whole tree -/

mutual

/-- The findings about a project whose circuit becomes the module `name`. `ancestors` are the types
from the outermost project down to this one. -/
def visit (s : Sanitizer) (name : String) (ancestors : List String) : Project → CheckReport
  | ⟨g, deps⟩ => visitDeps s name ancestors deps ++ graphReport s name deps g
termination_by structural p => p

/-- The findings about the dependencies of the circuit that becomes the module `name`. A type that
is used inside its own definition is not visited again. -/
def visitDeps (s : Sanitizer) (name : String) (ancestors : List String) :
    List (String × Project) → CheckReport
  | [] => {}
  | (typeName, dep) :: deps =>
      (if typeName ∈ ancestors then .ofError (.cyclicDependency (Project.cycle ancestors typeName))
       else visit s (s.childName name typeName) (ancestors ++ [typeName]) dep)
        ++ visitDeps s name ancestors deps
termination_by structural deps => deps

end

end Check

/-- The error of a project that is to become a module without a name. -/
def emptyNameError : CompileError :=
  .malformedProject "top-level module name is empty"

/-- The findings about a project that is compiled as the module `name`. -/
def checkProject (s : Sanitizer) (name : String) (p : Project) : CheckReport :=
  (if name = "" then .ofError emptyNameError else {}) ++ Check.visit s name [] p

end BlockCircuit
