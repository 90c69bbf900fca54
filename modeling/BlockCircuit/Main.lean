import BlockCircuit.CommandLine.Plan

/-!
# The program

Reads the project file, and carries out the plan of the command line on real files and streams.
-/

namespace BlockCircuit.CommandLine

/-- The host on which the program runs. -/
def host : Host := .plain

/-- The fault of a path, as far as it is one that file trees have too. Error numbers may come with
their sign turned around. -/
def faultOf? : IO.Error → Option File.Fault
  | .noFileOrDirectory _ _ _ | .noSuchThing _ _ _ => some .notFound
  | .inappropriateType _ code _ =>
      if code = 20 ∨ 0 - code = 20 then some .notADirectory
      else if code = 21 ∨ 0 - code = 21 then some .isADirectory
      else none
  | _ => none

/-- Why a path cannot be read or written. -/
def causeOf (e : IO.Error) : String :=
  match faultOf? e with
  | some fault => fault.message
  | none => toString e

/-- The text of a file, or why it cannot be read. -/
def readSource (path : String) : IO (Except String String) := do
  try
    let content ← IO.FS.readBinFile path
    match Text.ofBytes? content.data.toList with
    | some text => return .ok text
    | none => return .error File.Fault.notText.message
  catch e => return .error (causeOf e)

/-- Writes files one after another, up to the first one that cannot be written: what there is to tell
of it, and the status. -/
def writeFiles : List (String × String) → IO (List Remark × UInt32)
  | [] => return ([], 0)
  | (path, text) :: files => do
      try
        IO.FS.writeFile path text
      catch e => return ([writeError path (causeOf e)], 2)
      let (remarks, status) ← writeFiles files
      return (.log (.wrote path) :: remarks, status)

/-- Carries out a plan. -/
def Plan.carryOut (p : Plan) (i : Invocation) : IO UInt32 := do
  match p.finish with
  | .fail status =>
      IO.eprint (host.report i p.remarks)
      return UInt32.ofNat status
  | .print text =>
      IO.eprint (host.report i p.remarks)
      IO.print text
      return 0
  | .write files =>
      let (remarks, status) ← writeFiles files
      IO.eprint (host.report i (p.remarks ++ remarks))
      return status

end BlockCircuit.CommandLine

open BlockCircuit.CommandLine in
/-- Runs the program; its result is the exit status. -/
def main (arguments : List String) : IO UInt32 := do
  match request? arguments with
  | none => IO.eprint (host.usage arguments); return 2
  | some (.help long) => IO.print (host.help long); return 0
  | some .version => IO.print versionText; return 0
  | some (.run invocation) =>
      match invocation.earlyPlan? with
      | some plan => plan.carryOut invocation
      | none =>
          let source ← readSource invocation.project
          (invocation.plan source).carryOut invocation
