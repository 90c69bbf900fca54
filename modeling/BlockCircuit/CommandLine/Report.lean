import BlockCircuit.CommandLine.Arguments
import BlockCircuit.Event

/-!
# What a run tells

A run tells two kinds of things on its error stream. It keeps a log while it works, and it reports
warnings and the error that ends it. The program itself writes its reports. Whether an entry of the
log is shown, and as what line, is up to the host on which it runs; unless the host asks for something
else, warnings are shown, and with `--verbose` every entry is.

A run tells the same on every host, so what it tells is a list of remarks, and `Host.report` writes
them out.
-/

namespace BlockCircuit.CommandLine

/-! ## The log -/

/-- The name of a stage in the log. -/
def Stage.label : Stage → String
  | .verilog => "Verilog"
  | .pcf => "Pcf"
  | .buildInfo => "BuildInfo"
  | .all => "All"

/-- An entry of the log. -/
inductive LogEntry where
  /-- The path of the project. -/
  | project (path : String)
  /-- The name of the outermost module. -/
  | top (name : String)
  /-- What is to be put out. -/
  | stage (stage : Stage)
  /-- Something happened while the project was compiled. -/
  | compiling (event : Event)
  /-- A file is written. -/
  | wrote (path : String)
deriving DecidableEq, Repr

namespace LogEntry

/-- The urgency of an entry. -/
def level : LogEntry → Event.Level
  | compiling event => event.level
  | _ => .debug

/-- The message of an entry. -/
def message : LogEntry → String
  | project path => "project = " ++ path
  | top name => "top     = " ++ name
  | stage wanted => "emit    = " ++ wanted.label
  | compiling event => event.message
  | wrote path => "wrote " ++ path

/-- What an entry carries along, by name. -/
def fields : LogEntry → List (String × Event.FieldValue)
  | compiling event => event.fields
  | _ => []

end LogEntry

/-! ## Remarks -/

/-- Something that a run tells. -/
inductive Remark where
  | log (entry : LogEntry)
  | warning (warning : Diagnostic)
  /-- The error that ends the run. -/
  | error (text : String)
deriving DecidableEq, Repr

/-- The name under which the program reports. -/
def programName : String := "icecc"

/-- A line of a report. -/
def reportLine (text : String) : String :=
  programName ++ ": " ++ text ++ "\n"

/-! ## Hosts -/

/-- What a run finds around it, apart from files. -/
structure Host where
  /-- What is said of arguments that are not understood. -/
  usage : (arguments : List String) → String
  /-- The help text, in short or at length. -/
  help : (long : Bool) → String
  /-- Which entries of the log to show, if that is asked for. -/
  filter? : Option (LogEntry → Bool) := none
  /-- The line for an entry of the log, which may also tell the time. -/
  line : (time : Nat) → LogEntry → String

namespace Host

/-- Whether an entry of the log is shown. -/
def shows (h : Host) (i : Invocation) (entry : LogEntry) : Bool :=
  match h.filter? with
  | some filter => filter entry
  | none => i.verbose || entry.level == .warn

/-- Whether a remark can be seen. Reports always can. -/
def sees (h : Host) (i : Invocation) : Remark → Bool
  | .log entry => h.shows i entry
  | .warning _ | .error _ => true

/-- The text of a remark. -/
def text (h : Host) (time : Nat) : Remark → String
  | .log entry => h.line time entry
  | .warning warning => reportLine warning.text
  | .error text => reportLine text

/-- The text on the error stream. Time is counted in remarks. -/
def report (h : Host) (i : Invocation) (remarks : List Remark) : String :=
  String.join ((remarks.filter (h.sees i)).zipIdx.map fun item => h.text item.2 item.1)

/-- A host that does not show the log. -/
def silent : Host where
  usage _ := "usage"
  help _ := "help"
  filter? := some fun _ => false
  line _ _ := ""

/-- The text of something that an entry carries along. -/
def fieldText : String × Event.FieldValue → String
  | (name, .text value) => " " ++ name ++ "=" ++ value
  | (name, .count value) => " " ++ name ++ "=" ++ toString value

/-- A host that asks for nothing, and writes the log without times. -/
def plain : Host where
  usage _ := reportLine "error: these arguments are not understood; try --help"
  help _ := "Usage: icecc [--top <TOP>] [--emit <EMIT>] [--output <OUTPUT>] [--no-check] "
    ++ "[--verbose] <PROJECT>\n"
  line _ entry := entry.level.word ++ ": " ++ entry.message
    ++ String.join (entry.fields.map fieldText) ++ "\n"

end Host

end BlockCircuit.CommandLine
