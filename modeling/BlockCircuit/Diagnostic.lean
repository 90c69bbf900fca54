/-!
# Diagnostics

A diagnostic is what a reader of the compiler's output sees of one finding: a level, a message, and
optionally a stable code, the circuit it belongs to and a hint. Its text is one line, followed by
one line each for circuit and hint.
-/

namespace BlockCircuit

/-- A stable name for a kind of finding. -/
structure DiagnosticCode where
  text : String
deriving DecidableEq, Repr

namespace DiagnosticCode

/-- The document is not a project. -/
def malformedProject : DiagnosticCode := ⟨"E0001"⟩
/-- A wire ends nowhere. -/
def danglingWire : DiagnosticCode := ⟨"E0002"⟩
/-- A type is used inside its own definition. -/
def cyclicDependency : DiagnosticCode := ⟨"E0003"⟩
/-- A block has a type that nothing defines. -/
def unresolvedType : DiagnosticCode := ⟨"E0004"⟩
/-- Two blocks share an id. -/
def duplicateBlockId : DiagnosticCode := ⟨"E0005"⟩
/-- Two modules would share a name. -/
def duplicateModule : DiagnosticCode := ⟨"E0006"⟩
/-- A port has no pin. -/
def missingPin : DiagnosticCode := ⟨"E0007"⟩
/-- A file could not be read. -/
def unreadableFile : DiagnosticCode := ⟨"E0100"⟩
/-- A block has no connections. -/
def unconnectedBlock : DiagnosticCode := ⟨"W0001"⟩
/-- Pin constraints were left out. -/
def pinsSkipped : DiagnosticCode := ⟨"W0002"⟩

end DiagnosticCode

/-- How much a finding matters: an error stops compilation, a warning does not. -/
inductive Severity where
  | error
  | warning
deriving DecidableEq, Repr

/-- The word that opens the text of a diagnostic. -/
def Severity.word : Severity → String
  | .error => "error"
  | .warning => "warning"

/-- One finding, for display. -/
structure Diagnostic where
  level : Severity
  message : String
  code : Option DiagnosticCode := none
  /-- The module name of the circuit that the finding belongs to. -/
  circuit : Option String := none
  hint : Option String := none
deriving DecidableEq, Repr

namespace Diagnostic

/-- Gives the finding a stable code. -/
def withCode (d : Diagnostic) (code : DiagnosticCode) : Diagnostic := { d with code := some code }

/-- Adds what a reader could do about it. -/
def withHint (d : Diagnostic) (hint : String) : Diagnostic := { d with hint := some hint }

/-- Says which circuit the finding belongs to. -/
def inCircuit (d : Diagnostic) (circuit : String) : Diagnostic := { d with circuit := some circuit }

/-- The level and, in square brackets, the code. -/
def label (d : Diagnostic) : String :=
  match d.code with
  | some code => d.level.word ++ "[" ++ code.text ++ "]"
  | none => d.level.word

/-- The text of a diagnostic: label and message, then the circuit, then the hint. -/
def text (d : Diagnostic) : String :=
  d.label ++ ": " ++ d.message
    ++ (d.circuit.map fun c => "\n  --> " ++ c).getD ""
    ++ (d.hint.map fun h => "\n  hint: " ++ h).getD ""

end Diagnostic

end BlockCircuit
