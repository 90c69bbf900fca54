/-!
# Command line arguments

A command line names one project and may hold options in any order. Arguments are read from the
left; a request for help or for the version counts as soon as it is reached, and everything that is
wrong before it counts more. What is wrong with a command line is not told apart: it is a usage error.

An option with a value takes it from the same argument (`--top=V`, `-tV`, `-t=V`) or from the next
one, which must not look like an option. After `--` there are no more options.
-/

namespace BlockCircuit.CommandLine

/-- What a run is to put out. -/
inductive Stage where
  | verilog
  | pcf
  | buildInfo
  | all
deriving DecidableEq, Repr

/-- The stage with the given name. -/
def Stage.ofName? : String → Option Stage
  | "verilog" => some .verilog
  | "pcf" => some .pcf
  | "build-info" => some .buildInfo
  | "all" => some .all
  | _ => none

/-- What a run is asked to do. -/
structure Invocation where
  /-- The path of the project. -/
  project : String
  /-- The name of the outermost module. -/
  top : String := "main"
  stage : Stage := .verilog
  /-- The path of the output, or its stem when all stages are put out. -/
  output : Option String := none
  /-- Whether the checks are left out. -/
  noCheck : Bool := false
  verbose : Bool := false
deriving DecidableEq, Repr

/-- A command line that is understood. -/
inductive Request where
  /-- To print the help text, in short or at length. -/
  | help (long : Bool)
  /-- To print the version. -/
  | version
  /-- To compile a project. -/
  | run (invocation : Invocation)
deriving DecidableEq, Repr

/-! ## Kinds of arguments -/

/-- The options that take a value. -/
inductive Setting where
  | top
  | stage
  | output
deriving DecidableEq, Repr

/-- The options that take no value. -/
inductive Flag where
  | noCheck
  | verbose
deriving DecidableEq, Repr

/-- What a single argument says. -/
inductive Argument where
  /-- The end of the options. -/
  | endOfOptions
  /-- An option with its value, or one whose value comes next. -/
  | setting (setting : Setting) (value : Option String)
  | flag (flag : Flag)
  | help (long : Bool)
  | version
  /-- An argument that looks like an option, but is none. -/
  | unknown
  /-- An argument that does not look like an option. -/
  | plain (text : String)
deriving DecidableEq, Repr

/-- An option by its long name, and the value that is attached to it. -/
def longArgument (name : String) (value : Option String) : Argument :=
  match name, value with
  | "top", value => .setting .top value
  | "emit", value => .setting .stage value
  | "output", value => .setting .output value
  | "no-check", none => .flag .noCheck
  | "verbose", none => .flag .verbose
  | "help", none => .help true
  | "version", none => .version
  | _, _ => .unknown

/-- The value that is attached to a short option, with or without an equals sign. -/
def attached : List Char → Option String
  | [] => none
  | '=' :: value => some (String.ofList value)
  | value => some (String.ofList value)

/-- What an argument says where options are allowed. A single hyphen is no option. -/
def classify (argument : String) : Argument :=
  match argument.toList with
  | ['-', '-'] => .endOfOptions
  | '-' :: '-' :: text =>
      let name := text.takeWhile (· ≠ '=')
      let value := (text.dropWhile (· ≠ '=')).tail?
      longArgument (String.ofList name) (value.map String.ofList)
  | ['-'] => .plain argument
  | '-' :: 't' :: rest => .setting .top (attached rest)
  | '-' :: 'o' :: rest => .setting .output (attached rest)
  | '-' :: 'h' :: _ => .help false
  | '-' :: 'V' :: _ => .version
  | '-' :: _ => .unknown
  | _ => .plain argument

/-! ## Reading a command line -/

/-- What the arguments so far have said. -/
structure Given where
  project : Option String := none
  top : Option String := none
  stage : Option Stage := none
  output : Option String := none
  noCheck : Bool := false
  verbose : Bool := false
deriving DecidableEq, Repr

namespace Given

/-- Takes in the value of an option. An option may be given once, paths are not empty, and stages go
by their names. -/
def set (g : Given) (setting : Setting) (value : String) : Option Given :=
  match setting with
  | .top => if g.top.isSome then none else some { g with top := some value }
  | .stage =>
      if g.stage.isSome then none
      else (Stage.ofName? value).map fun stage => { g with stage := some stage }
  | .output =>
      if g.output.isSome ∨ value = "" then none else some { g with output := some value }

/-- Takes in an option without a value, which may be given once. -/
def raise (g : Given) : Flag → Option Given
  | .noCheck => if g.noCheck then none else some { g with noCheck := true }
  | .verbose => if g.verbose then none else some { g with verbose := true }

/-- Takes in the project, which may be given once. -/
def setProject (g : Given) (path : String) : Option Given :=
  if g.project.isSome ∨ path = "" then none else some { g with project := some path }

/-- What is asked for when there are no more arguments. -/
def finish (g : Given) : Option Request :=
  g.project.map fun project =>
    .run {
      project
      top := g.top.getD "main"
      stage := g.stage.getD .verilog
      output := g.output
      noCheck := g.noCheck
      verbose := g.verbose }

end Given

/-- Reads arguments after the end of the options. -/
def readPlain (g : Given) : List String → Option Request
  | [] => g.finish
  | path :: arguments => do
      let g ← g.setProject path
      readPlain g arguments

/-- Reads arguments; `none` is a usage error. -/
def readArguments (g : Given) : List String → Option Request
  | [] => g.finish
  | argument :: arguments =>
      match classify argument, arguments with
      | .endOfOptions, arguments => readPlain g arguments
      | .setting setting (some value), arguments => do
          let g ← g.set setting value
          readArguments g arguments
      | .setting _ none, [] => none
      | .setting setting none, value :: arguments =>
          match classify value with
          | .plain value => do
              let g ← g.set setting value
              readArguments g arguments
          | _ => none
      | .flag flag, arguments => do
          let g ← g.raise flag
          readArguments g arguments
      | .help long, _ => some (.help long)
      | .version, _ => some .version
      | .unknown, _ => none
      | .plain path, arguments => do
          let g ← g.setProject path
          readArguments g arguments

/-- The request of a command line; `none` is a usage error. -/
def request? (arguments : List String) : Option Request :=
  readArguments {} arguments

end BlockCircuit.CommandLine
