import BlockCircuit.Check
import BlockCircuit.Document.Load
import BlockCircuit.Pins
import BlockCircuit.Provenance
import BlockCircuit.Verilog.Emission

/-!
# Compilation

`compileCircuit` turns a project into Verilog text. `compileProject` does the whole work: it loads a
document, checks it, writes the Verilog and the pin constraints, and records where they come from.
A project without pins still compiles; it just has no pin constraints.
-/

namespace BlockCircuit

/-- How a project is compiled. -/
structure CompileOptions where
  /-- The name of the outermost module. -/
  top : String := "main"
  /-- Whether the checks run first. Otherwise only an empty name and types that are used inside
  their own definition are errors. -/
  strict : Bool := true
  sanitizer : Sanitizer := .sha1

/-- The results of a compilation. -/
structure Artifacts where
  verilog : String
  /-- Absent when a port has no pin. -/
  pcf : Option String
  warnings : List Diagnostic
  provenance : Provenance
deriving DecidableEq, Repr

/-! ## One circuit -/

/-- The Verilog text of a project whose name has been looked at already. -/
def emitCircuit (s : Sanitizer) (name : String) (p : Project) : Logged String := do
  let modules ← Verilog.emit s name [] p
  return Verilog.render modules

/-- What has to hold before a project is written: with `strict` the checks, whose warnings are
reported, and otherwise only that the outermost module has a name. -/
def precheck (s : Sanitizer) (strict : Bool) (name : String) (p : Project) : Logged Unit :=
  if strict then do
    let report := checkProject s name p
    Logged.report (report.warnings.map .checkWarning)
    let _ ← Logged.ofExcept report.toExcept
  else if name = "" then Logged.stop emptyNameError
  else return ()

/-- Compiles a project to the module `name` and the modules below it. -/
def compileCircuit (s : Sanitizer) (strict : Bool) (name : String) (p : Project) :
    Logged String := do
  precheck s strict name p
  emitCircuit s name p

/-! ## The whole work -/

/-- Reports the end of a stage. -/
def passDone (pass : Pass) : Logged Unit :=
  Logged.report [.passComplete pass]

/-- The warnings of the checks, or the first error. Without `strict` nothing is checked. -/
def checkPass (options : CompileOptions) (p : Project) : Logged (List Diagnostic) :=
  if options.strict then do
    let warnings ← Logged.ofExcept (checkProject options.sanitizer options.top p).toExcept
    passDone .check
    return warnings
  else return []

/-- The warning that takes the place of pin constraints. -/
def pinsSkippedWarning (e : CompileError) : Diagnostic where
  level := .warning
  message := "pin constraints not generated: " ++ e.message
  code := some .pinsSkipped

/-- The pin constraints, or the warning that takes their place when a port has no pin. Any other
error stops the compilation. -/
def pinsPass (options : CompileOptions) (p : Project) :
    Logged (Option String × List Diagnostic) :=
  let pins := compilePins options.sanitizer p
  match pins.result with
  | .ok text => ⟨pins.events, .ok (some text, [])⟩
  | .error (.missingPin block) =>
      ⟨pins.events, .ok (none, [pinsSkippedWarning (.missingPin block)])⟩
  | .error e => ⟨pins.events, .error e⟩

/-- Compiles the text of a document. -/
def compileProject (source : String) (options : CompileOptions) : Logged Artifacts := do
  let p ← Logged.ofExcept ((Project.ofText source).mapError LoadError.toCompileError)
  passDone .load
  let warnings ← checkPass options p
  let verilog ← compileCircuit options.sanitizer false options.top p
  passDone .verilog
  let (pcf, skipped) ← pinsPass options p
  passDone .pcf
  return {
    verilog
    pcf
    warnings := warnings ++ skipped
    provenance := .compute source options.top verilog pcf }

end BlockCircuit
