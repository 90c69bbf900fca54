import BlockCircuit.Document.Schema

/-!
# Documents as JSON values

`ofValue` reads a part of a document of a given shape out of a JSON value. The parts of a value are
visited in the order in which they are written, and the first problem is the one that is reported.
-/

namespace BlockCircuit.Document

/-- Reads a field, given a reader for every shape. -/
def Field.ofValueWith (isNull : Bool) (read : (shape : Shape) → Except Problem shape.Value) :
    (f : Field) → Except Problem f.Value
  | .required _ shape => read shape
  | .optional _ shape _ => read shape
  | .nullable _ shape => if isNull then .ok none else (read shape).map some

/-- Puts the value of a key into its slot. Unknown keys are passed over, and a slot that is taken
already is a problem. -/
def store (key : String) (read : (f : Field) → Except Problem f.Value) :
    (fields : List Field) → Slots fields → Except Problem (Slots fields)
  | [], () => .ok ()
  | f :: fields, (slot, slots) =>
      if f.key = key then
        match slot with
        | some _ => .error (.repeatedField key)
        | none => (read f).map fun value => (some value, slots)
      else (store key read fields slots).map fun slots => (slot, slots)

/-- Whether a value is null. -/
def isNull : Json.Value → Bool
  | .null => true
  | _ => false

mutual

/-- Reads a value of the given shape. -/
def ofValue : Json.Value → (shape : Shape) → Except Problem shape.Value
  | .string s, .text => .ok s
  | .array items, .list item => ofItems items item
  | .object members, .table item => ofTable members item []
  | .array items, .record kind => do
      let values ← ofTuple items items.length kind 0 kind.fields
      kind.build values
  | .object members, .record kind => do
      let slots ← ofMembers members kind.fields (Slots.empty kind.fields)
      let values ← complete kind.fields slots
      kind.build values
  | v, .pinValue => pinValueOf v
  | v, shape => .error (.wrongType (.of v) shape)
termination_by structural v => v

/-- Reads values of one shape. -/
def ofItems : List Json.Value → (item : Shape) → Except Problem (List item.Value)
  | [], _ => .ok []
  | v :: items, item => do
      let value ← ofValue v item
      let values ← ofItems items item
      return value :: values
termination_by structural items => items

/-- Reads the values of an object with free keys into a table. -/
def ofTable : List (String × Json.Value) → (item : Shape) → List (String × item.Value) →
    Except Problem (List (String × item.Value))
  | [], _, entries => .ok entries
  | (key, v) :: members, item, entries => do
      let value ← ofValue v item
      ofTable members item (insertEntry entries key value)
termination_by structural members => members

/-- Reads the items of a record that is written as an array of `length` items. `number` is the
place of the first of the fields. -/
def ofTuple : List Json.Value → (length : Nat) → (kind : RecordKind) → (number : Nat) →
    (fields : List Field) → Except Problem (Filled fields)
  | [], _, kind, number, fields => fillRest kind number fields
  | _ :: _, length, _, _, [] => .error (.tooManyItems length)
  | v :: items, length, kind, number, f :: fields => do
      let value ← f.ofValueWith (isNull v) (ofValue v)
      let values ← ofTuple items length kind (number + 1) fields
      return (value, values)
termination_by structural items => items

/-- Reads the members of a record that is written as an object. -/
def ofMembers : List (String × Json.Value) → (fields : List Field) → Slots fields →
    Except Problem (Slots fields)
  | [], _, slots => .ok slots
  | (key, v) :: members, fields, slots => do
      let slots ← store key (Field.ofValueWith (isNull v) (ofValue v)) fields slots
      ofMembers members fields slots
termination_by structural members => members

end

end BlockCircuit.Document
