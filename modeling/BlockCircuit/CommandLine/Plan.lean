import BlockCircuit.CommandLine.Report
import BlockCircuit.Compilation
import BlockCircuit.File.Tree

/-!
# What a run does

A run reads one file, and then does what its plan says: it tells something, and after that it fails,
prints a text, or writes files. Plans are values, so that they can be carried out on real files as
well as on a file tree.
-/

namespace BlockCircuit.CommandLine

/-- What a run does after it has told something. -/
inductive Finish where
  /-- It ends with a status other than zero. -/
  | fail (status : Nat)
  /-- It prints a text. -/
  | print (text : String)
  /-- It writes files, in order. -/
  | write (files : List (String × String))
deriving DecidableEq, Repr

/-- What a run does once its file is read. -/
structure Plan where
  /-- What it tells on the error stream. -/
  remarks : List Remark
  finish : Finish
deriving DecidableEq, Repr

/-- The text that answers a request for the version. -/
def versionText : String :=
  programName ++ " " ++ compilerVersion ++ "\n"

/-- The error of a file that could not be written. -/
def writeError (path cause : String) : Remark :=
  .error ("error: " ++ path ++ ": " ++ cause)

namespace Invocation

/-- How the project is compiled. -/
def options (i : Invocation) : CompileOptions where
  top := i.top
  strict := !i.noCheck

/-- The log of a run before it does anything. -/
def opening (i : Invocation) : List LogEntry :=
  [.project i.project, .top i.top, .stage i.stage]

/-- Whether the run asks for what it cannot get: all stages, and no place for them. -/
def lacksOutput (i : Invocation) : Bool :=
  i.stage == .all && i.output.isNone

/-- Compiles what was read from the file. -/
def compile (i : Invocation) (source : Except String String) : Logged Artifacts :=
  match source with
  | .error cause => Logged.stop (.unreadableFile i.project cause)
  | .ok text => compileProject text i.options

/-- Whether the run asks for pin constraints where there are none. -/
def lacksPins (i : Invocation) (a : Artifacts) : Bool :=
  (i.stage == .pcf || i.stage == .all) && a.pcf.isNone

/-- Puts out one text: to the output, or else to the standard output. -/
def putOut (i : Invocation) (text : String) : Finish :=
  match i.output with
  | some path => .write [(path, text)]
  | none => .print text

/-- Puts out the results that are asked for. -/
def finish (i : Invocation) (a : Artifacts) : Finish :=
  let pcf := a.pcf.getD ""
  match i.stage with
  | .verilog => i.putOut a.verilog
  | .pcf => i.putOut pcf
  | .buildInfo => i.putOut a.provenance.toJson
  | .all =>
      match i.output with
      | none => .write []
      | some stem =>
          .write [(File.withExtension stem "v", a.verilog), (File.withExtension stem "pcf", pcf)]

/-- The status of a run whose compilation stops. -/
def statusOf (e : CompileError) : Nat :=
  if e.isUnreadableFile then 2 else 1

/-- The plan of a run, given what was read from its file. -/
def plan (i : Invocation) (source : Except String String) : Plan :=
  let compiled := i.compile source
  let log := (i.opening ++ compiled.events.map LogEntry.compiling).map Remark.log
  match compiled.result with
  | .error e => ⟨log ++ [.error e.toDiagnostic.text], .fail (statusOf e)⟩
  | .ok a =>
      let told := log ++ a.warnings.map .warning
      if i.lacksPins a then ⟨told ++ [.error "error: no pin constraints to emit"], .fail 1⟩
      else ⟨told, i.finish a⟩

/-- The plan of a run that needs no file to be read: it asks for what it cannot get. -/
def earlyPlan? (i : Invocation) : Option Plan :=
  if i.lacksOutput then
    some ⟨i.opening.map .log ++ [.error "error: --emit all requires --output <STEM>"], .fail 2⟩
  else none

end Invocation

end BlockCircuit.CommandLine
