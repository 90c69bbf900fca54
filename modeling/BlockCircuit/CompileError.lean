import BlockCircuit.Diagnostic

/-!
# Reasons why compilation stops

Each constructor is one cause. A cause has a message, a stable code, and the circuit it was found
in when it belongs to one; `toDiagnostic` puts these together and adds a hint where there is one.
-/

namespace BlockCircuit

/-- Why a project cannot be compiled. -/
inductive CompileError where
  /-- The document does not describe a project that can be compiled. -/
  | malformedProject (reason : String)
  /-- One end of a wire is not at a port of the right direction; `what` says what it is at. -/
  | danglingWire (circuit : String) (wire : Nat) (what : String)
  /-- A type is used inside its own definition; the chain of types leads from it to itself. -/
  | cyclicDependency (chain : List String)
  /-- The type of a compound block is not among the dependencies. -/
  | unresolvedType (circuit block typeName : String)
  /-- A second block has the id of an earlier one. -/
  | duplicateBlockId (circuit block : String)
  /-- Two code blocks of a circuit ask for a module of the same name. -/
  | duplicateModule (module : String)
  /-- A port of the outermost circuit has no pin. -/
  | missingPin (block : String)
  /-- The project file could not be read. -/
  | unreadableFile (path cause : String)
deriving DecidableEq, Repr

namespace CompileError

/-- The message of an error. -/
def message : CompileError → String
  | malformedProject reason => "malformed project: " ++ reason
  | danglingWire circuit wire what =>
      "wire w" ++ toString wire ++ " in circuit `" ++ circuit ++ "` references " ++ what
  | cyclicDependency chain => "cyclic dependency: " ++ " -> ".intercalate chain
  | unresolvedType circuit block typeName =>
      "block `" ++ block ++ "` in circuit `" ++ circuit ++ "` has type `" ++ typeName
        ++ "`, which no dependency defines"
  | duplicateBlockId circuit block =>
      "block id `" ++ block ++ "` is used more than once in circuit `" ++ circuit ++ "`"
  | duplicateModule module => "module `" ++ module ++ "` would be emitted more than once"
  | missingPin block => "block `" ++ block ++ "` has no pin assignment"
  | unreadableFile path cause => path ++ ": " ++ cause

/-- The stable code of an error. -/
def code : CompileError → DiagnosticCode
  | malformedProject _ => .malformedProject
  | danglingWire _ _ _ => .danglingWire
  | cyclicDependency _ => .cyclicDependency
  | unresolvedType _ _ _ => .unresolvedType
  | duplicateBlockId _ _ => .duplicateBlockId
  | duplicateModule _ => .duplicateModule
  | missingPin _ => .missingPin
  | unreadableFile _ _ => .unreadableFile

/-- The circuit in which an error was found, by module name. -/
def circuit? : CompileError → Option String
  | danglingWire circuit _ _ => some circuit
  | unresolvedType circuit _ _ => some circuit
  | duplicateBlockId circuit _ => some circuit
  | _ => none

/-- What a reader could do about an error. -/
def hint? : CompileError → Option String
  | unresolvedType _ _ typeName =>
      some ("add the project defining `" ++ typeName ++ "` to this circuit's `deps`")
  | cyclicDependency _ => some "a circuit cannot instantiate itself, directly or indirectly"
  | _ => none

/-- The diagnostic of an error. -/
def toDiagnostic (e : CompileError) : Diagnostic where
  level := .error
  message := e.message
  code := some e.code
  circuit := e.circuit?
  hint := e.hint?

/-- Whether the error is about the file and not about what it holds. -/
def isUnreadableFile : CompileError → Bool
  | unreadableFile _ _ => true
  | _ => false

end CompileError

end BlockCircuit
