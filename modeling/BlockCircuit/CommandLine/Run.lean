import BlockCircuit.CommandLine.Plan

/-!
# Runs on a file tree

`Host.run` carries out a command line on a file tree: it yields the status, what is printed on the
two streams, and the tree afterwards. What a run does is its course, which is the same on every host;
`Invocation.runOn` yields it.
-/

namespace BlockCircuit

namespace File

/-- Compiles a file of a tree. -/
def compileFile (t : Tree) (path : String) (options : CompileOptions) : Logged Artifacts :=
  match t.read path with
  | .error fault => Logged.stop (.unreadableFile path fault.message)
  | .ok source => compileProject source options

/-- Loads a project from a file of a tree. -/
def loadFile (t : Tree) (path : String) : Except CompileError Project :=
  match t.read path with
  | .error fault => .error (.unreadableFile path fault.message)
  | .ok source => (Project.ofText source).mapError LoadError.toCompileError

end File

namespace CommandLine

/-- What a run does. -/
structure Course where
  status : Nat
  stdout : String
  /-- What it tells, whether or not that is shown. -/
  remarks : List Remark
  /-- The tree afterwards. -/
  files : File.Tree

/-! ## Writing files -/

/-- What comes of writing some files. -/
structure Written where
  /-- The tree afterwards. -/
  files : File.Tree
  /-- The paths of the files that are written. -/
  paths : List String
  /-- The path of the file that could not be written, and why. -/
  stop : Option (String × File.Fault)

/-- Writes files one after another. The first one that cannot be written ends this; those before it
stay. -/
def writeAll : (t : File.Tree) → List (String × String) → Written
  | t, [] => ⟨t, [], none⟩
  | t, (path, text) :: files =>
      match t.write path text with
      | (t, some fault) => ⟨t, [], some (path, fault)⟩
      | (t, none) =>
          let w := writeAll t files
          { w with paths := path :: w.paths }

/-- The course of a run that writes files after it has told something. -/
def Written.course (w : Written) (told : List Remark) : Course :=
  let told := told ++ (w.paths.map LogEntry.wrote).map Remark.log
  match w.stop with
  | none => ⟨0, "", told, w.files⟩
  | some (path, fault) => ⟨2, "", told ++ [writeError path fault.message], w.files⟩

/-! ## Runs -/

/-- Carries out a plan. -/
def Plan.runOn (p : Plan) (t : File.Tree) : Course :=
  match p.finish with
  | .fail status => ⟨status, "", p.remarks, t⟩
  | .print text => ⟨0, text, p.remarks, t⟩
  | .write files => (writeAll t files).course p.remarks

/-- What was read from a file, or why it could not be. -/
def sourceOf (t : File.Tree) (path : String) : Except String String :=
  (t.read path).mapError File.Fault.message

/-- Carries out an invocation. -/
def Invocation.runOn (i : Invocation) (t : File.Tree) : Course :=
  match i.earlyPlan? with
  | some plan => plan.runOn t
  | none => (i.plan (sourceOf t i.project)).runOn t

/-- What is seen of a run. -/
structure Outcome where
  status : Nat
  stdout : String
  stderr : String
  /-- The tree afterwards. -/
  files : File.Tree

/-- What is seen of a run on a host. -/
def Course.seenOn (c : Course) (h : Host) (i : Invocation) : Outcome :=
  ⟨c.status, c.stdout, h.report i c.remarks, c.files⟩

/-- Carries out a command line. -/
def Host.run (h : Host) (arguments : List String) (t : File.Tree) : Outcome :=
  match request? arguments with
  | none => ⟨2, "", h.usage arguments, t⟩
  | some (.help long) => ⟨0, h.help long, "", t⟩
  | some .version => ⟨0, versionText, "", t⟩
  | some (.run invocation) => (invocation.runOn t).seenOn h invocation

/-- Carries out a command line where the log is not shown. -/
def run (arguments : List String) (t : File.Tree) : Outcome :=
  Host.silent.run arguments t

end CommandLine

end BlockCircuit
