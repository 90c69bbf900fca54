import BlockCircuit.Json.Value
import BlockCircuit.Project.Basic
import BlockCircuit.Text.Quoted

/-!
# The schema of project documents

A document is made of records of eight kinds. Each kind lists its fields, in the order in which
they stand when the record is written as an array; each field has a shape, and each shape a type of
values that documents of that shape stand for.

A field may have to be present, or stand for a default when it is absent, or be nullable: then it
may also be written as `null`. What a record stands for is put together by `RecordKind.build` from
the values of all its fields. Of all records only a block can be refused there: a code block needs
its ports and its text.
-/

namespace BlockCircuit.Document

/-! ## Shapes -/

/-- The kinds of records. -/
inductive RecordKind where
  | project
  | graph
  | block
  | blockData
  | pin
  | ports
  | wire
  | endpoint
deriving DecidableEq, Repr

/-- What the data of a block may hold, whatever the type of the block. -/
structure BlockData where
  pin : Option Pin := none
  ports : Option Ports := none
  code : Option String := none
deriving DecidableEq, Repr

/-- What a record of each kind stands for. -/
abbrev RecordKind.Value : RecordKind → Type
  | .project => Project
  | .graph => Graph
  | .block => Block
  | .blockData => BlockData
  | .pin => Pin
  | .ports => Ports
  | .wire => Wire
  | .endpoint => Endpoint

/-- The shapes that parts of a document may have. -/
inductive Shape where
  /-- A string. -/
  | text
  /-- A string, or a number that stands for its text. -/
  | pinValue
  /-- An array of parts of one shape. -/
  | list (item : Shape)
  /-- An object whose keys are free and whose values have one shape. -/
  | table (item : Shape)
  /-- A record: an object with known keys, or the array of its fields. -/
  | record (kind : RecordKind)
deriving DecidableEq, Repr

/-- What a part of each shape stands for. -/
abbrev Shape.Value : Shape → Type
  | .text => String
  | .pinValue => String
  | .list item => List item.Value
  | .table item => List (String × item.Value)
  | .record kind => kind.Value

/-! ## Fields -/

/-- A field of a record. -/
inductive Field where
  /-- It has to be present. -/
  | required (key : String) (shape : Shape)
  /-- It may be absent, and stands for a default then. -/
  | optional (key : String) (shape : Shape) (default : shape.Value)
  /-- It may be absent or null. -/
  | nullable (key : String) (shape : Shape)

namespace Field

/-- The key under which the field stands in an object. -/
def key : Field → String
  | required key _ => key
  | optional key _ _ => key
  | nullable key _ => key

/-- What the field stands for. -/
abbrev Value : Field → Type
  | required _ shape => shape.Value
  | optional _ shape _ => shape.Value
  | nullable _ shape => Option shape.Value

/-- What the field stands for when it is absent, if it may be absent. -/
def absent? : (f : Field) → Option f.Value
  | required _ _ => none
  | optional _ _ default => some default
  | nullable _ _ => some none

end Field

/-- A value for each of some fields. -/
abbrev Filled : List Field → Type
  | [] => Unit
  | f :: fields => f.Value × Filled fields

/-- A value for each of some fields that have been read so far. -/
abbrev Slots : List Field → Type
  | [] => Unit
  | f :: fields => Option f.Value × Slots fields

/-- No field has been read. -/
def Slots.empty : (fields : List Field) → Slots fields
  | [] => ()
  | _ :: fields => (none, Slots.empty fields)

/-- The fields of each kind of record, in order. -/
abbrev RecordKind.fields : RecordKind → List Field
  | .project => [.required "graph" (.record .graph), .optional "deps" (.table (.record .project)) []]
  | .graph => [.required "blocks" (.list (.record .block)),
      .required "wires" (.list (.record .wire))]
  | .block => [.required "id" .text, .required "type" .text, .nullable "data" (.record .blockData)]
  | .blockData => [.nullable "pin" (.record .pin), .nullable "ports" (.record .ports),
      .nullable "code" .text]
  | .pin => [.nullable "name" .text, .required "value" .pinValue]
  | .ports => [.optional "in" (.list .text) [], .optional "out" (.list .text) []]
  | .wire => [.required "source" (.record .endpoint), .required "target" (.record .endpoint)]
  | .endpoint => [.required "block" .text, .required "port" .text]

/-! ## Problems -/

/-- What was found where something else is expected. -/
inductive Found where
  | null
  | boolean (value : Bool)
  | number (value : Json.Number)
  | string (value : String)
  | array
  | object
deriving DecidableEq, Repr

/-- What a value is found to be. -/
def Found.of : Json.Value → Found
  | .null => .null
  | .boolean b => .boolean b
  | .number n => .number n
  | .string s => .string s
  | .array _ => .array
  | .object _ => .object

/-- What was found, in words. -/
def Found.text : Found → String
  | null => "null"
  | boolean true => "boolean `true`"
  | boolean false => "boolean `false`"
  | number (.integer n) => "integer `" ++ toString n ++ "`"
  | number (.double x) => "floating point `" ++ x.text ++ "`"
  | string s => "string " ++ Text.quoted s
  | array => "sequence"
  | object => "map"

/-- What messages call a record of each kind. -/
def RecordKind.title : RecordKind → String
  | .project => "struct Project"
  | .graph => "struct Graph"
  | .block => "struct RawBlock"
  | .blockData => "struct RawBlockData"
  | .pin => "struct Pin"
  | .ports => "struct Ports"
  | .wire => "struct Wire"
  | .endpoint => "struct Endpoint"

/-- What messages call a part of each shape. -/
def Shape.title : Shape → String
  | .text => "a string"
  | .pinValue => "a string or number"
  | .list _ => "a sequence"
  | .table _ => "a map"
  | .record kind => kind.title

/-- Why a JSON value is not the document that is asked for. -/
inductive Problem where
  /-- A value has the wrong type. -/
  | wrongType (found : Found) (expected : Shape)
  /-- A pin has a value that is neither text nor number. -/
  | wrongPinValue
  /-- A record lacks a field that has to be present. -/
  | missingField (key : String)
  /-- A record has a field twice. -/
  | repeatedField (key : String)
  /-- A record that is written as an array ends before the field with this number. -/
  | tooFewItems (number : Nat) (kind : RecordKind)
  /-- A record that is written as an array has more items than fields. -/
  | tooManyItems (length : Nat)
  /-- A code block lacks one of the fields that code blocks need. -/
  | incompleteCode (id key : String)
deriving DecidableEq, Repr

/-- The message of a problem. -/
def Problem.message : Problem → String
  | wrongType found expected => "invalid type: " ++ found.text ++ ", expected " ++ expected.title
  | wrongPinValue => "data did not match any variant of untagged enum RawPinValue"
  | missingField key => "missing field `" ++ key ++ "`"
  | repeatedField key => "duplicate field `" ++ key ++ "`"
  | tooFewItems number kind =>
      "invalid length " ++ toString number ++ ", expected " ++ kind.title ++ " with "
        ++ toString kind.fields.length ++ " elements"
  | tooManyItems length =>
      "invalid length " ++ toString length ++ ", expected fewer elements in array"
  | incompleteCode id key => "code block `" ++ id ++ "` has no `" ++ key ++ "`"

/-! ## From fields to values -/

/-- The block of an id, a type and data. A code block needs ports, and then a text. -/
def buildBlock (id typeName : String) (data : BlockData) : Except Problem Block :=
  if typeName = inputType then .ok ⟨id, .input data.pin⟩
  else if typeName = outputType then .ok ⟨id, .output data.pin⟩
  else if typeName = codeType then
    match data.ports, data.code with
    | none, _ => .error (.incompleteCode id "ports")
    | some _, none => .error (.incompleteCode id "code")
    | some ports, some text => .ok ⟨id, .code ports text⟩
  else .ok ⟨id, .compound typeName⟩

/-- What a record stands for, from the values of its fields. -/
def RecordKind.build : (kind : RecordKind) → Filled kind.fields → Except Problem kind.Value
  | .project, (g, deps, ()) => .ok ⟨g, deps⟩
  | .graph, (bs, ws, ()) => .ok ⟨bs, ws⟩
  | .block, (id, typeName, data, ()) => buildBlock id typeName (data.getD {})
  | .blockData, (p, ps, text, ()) => .ok ⟨p, ps, text⟩
  | .pin, (name, value, ()) => .ok ⟨name, value⟩
  | .ports, (inputs, outputs, ()) => .ok ⟨inputs, outputs⟩
  | .wire, (source, target, ()) => .ok ⟨source, target⟩
  | .endpoint, (b, p, ()) => .ok ⟨b, p⟩

/-- The value of a pin that is written as a string or as a number. -/
def pinValueOf : Json.Value → Except Problem String
  | .string s => .ok s
  | .number n => .ok n.text
  | _ => .error .wrongPinValue

/-- The values of the fields of a record that is written as an object: absent fields take their
defaults, and the first one without a default is missing. -/
def complete : (fields : List Field) → Slots fields → Except Problem (Filled fields)
  | [], () => .ok ()
  | f :: fields, (slot, slots) =>
      match slot.or f.absent? with
      | none => .error (.missingField f.key)
      | some value => do
          let values ← complete fields slots
          return (value, values)

/-- The values of fields that are left out at the end of a record that is written as an array.
`number` is the place of the first of them. -/
def fillRest (kind : RecordKind) : (number : Nat) → (fields : List Field) →
    Except Problem (Filled fields)
  | _, [] => .ok ()
  | number, f :: fields =>
      match f.absent? with
      | none => .error (.tooFewItems number kind)
      | some value => do
          let values ← fillRest kind (number + 1) fields
          return (value, values)

end BlockCircuit.Document
