import BlockCircuit.CompileError
import BlockCircuit.Document.OfText
import BlockCircuit.Document.OfValue

/-!
# Loading projects

A project is loaded from the text of a document or from a JSON value. What is wrong with a text has
a position in it.
-/

namespace BlockCircuit

open Document (Problem)

/-- Why a document is not a project. -/
inductive LoadError where
  /-- The text is not JSON. -/
  | malformed (fault : Json.Fault) (position : Text.Position)
  /-- The document is JSON, but no project. Values have no positions. -/
  | refused (problem : Problem) (position : Option Text.Position)
deriving DecidableEq, Repr

namespace LoadError

/-- A position at the end of a message. -/
def positionText (position : Text.Position) : String :=
  " at line " ++ toString position.line ++ " column " ++ toString position.column

/-- The message of an error. -/
def message : LoadError → String
  | malformed fault position => fault.message ++ positionText position
  | refused problem none => problem.message
  | refused problem (some position) => problem.message ++ positionText position

/-- Where in the text a reader stopped, and why. -/
def ofFailure (text : List Char) : Json.Failure Problem → LoadError
  | .malformed fault unread => .malformed fault (Text.positionOf text unread)
  | .refused problem unread => .refused problem (some (Text.positionOf text unread))
  | .unplaced problem _ => .refused problem none

/-- As a reason why compilation stops. -/
def toCompileError (e : LoadError) : CompileError :=
  .malformedProject e.message

end LoadError

namespace Project

/-- How deeply arrays and objects may be nested in a document. -/
def maxDepth : Nat := 127

/-- The project of the text of a document. -/
def ofText (source : String) : Except LoadError Project :=
  let text := source.toList
  match Document.ofText maxDepth (.record .project) text with
  | .error failure => .error (.ofFailure text failure)
  | .ok r =>
      match Json.atEnd r with
      | .error failure => .error (.ofFailure text failure)
      | .ok project => .ok project

/-- The project of a JSON value. -/
def ofValue (value : Json.Value) : Except LoadError Project :=
  match Document.ofValue value (.record .project) with
  | .error problem => .error (.refused problem none)
  | .ok project => .ok project

end Project

end BlockCircuit
