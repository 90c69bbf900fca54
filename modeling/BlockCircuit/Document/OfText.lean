import BlockCircuit.Document.Schema
import BlockCircuit.Json.Reader
import BlockCircuit.Json.Skip

/-!
# Documents as text

`ofText` reads a part of a document of a given shape from the front of a text. The text is read once
from front to back, so a problem with the schema is found before a fault further on in the text. The
values of unknown keys are skipped.
-/

namespace BlockCircuit.Document

open Json (Failure Scan Look skipBlanks)
open Text (byteCount)

/-- Refuses the value at the front of a text without blanks because of its type. A value other than
an array or object is read first, and its own faults count more. -/
def refuseType {α : Type} (shape : Shape) (text : List Char) : Except (Failure Problem) α :=
  if text.head? = some '[' then .error (.refused (.wrongType .array shape) (byteCount text))
  else if text.head? = some '\x7b' then
    .error (.refused (.wrongType .object shape) (byteCount text))
  else
    match Json.readScalar text with
    | .error f => .error f
    | .ok r => .error (.refused (.wrongType (.of r.value) shape) (byteCount r.rest))

/-- A reader of all shapes. -/
abbrev Reader := (shape : Shape) → (text : List Char) → Scan Problem shape.Value text

/-- Reads a field, given a reader for every shape. -/
def Field.ofTextWith (read : Reader) : (f : Field) → (text : List Char) → Scan Problem f.Value text
  | .required _ shape, text => read shape text
  | .optional _ shape _, text => read shape text
  | .nullable _ shape, text =>
      match h : skipBlanks text with
      | 'n' :: rest => do
          let r ← Json.readWord ['u', 'l', 'l'] rest
          return ⟨none, r.rest, Nat.lt_of_le_of_lt r.noLonger (Json.length_lt_of_skipBlanks h)⟩
      | _ => (read shape text).map (·.map some)

/-- Reads the value of a key into its slot, from the colon on. Values of unknown keys are passed
over, and a slot that is taken already is a problem. -/
def storeText (read : Reader) : (fields : List Field) → (key : String) → Slots fields →
    (text : List Char) → Scan Problem (Slots fields) text
  | [], _, (), text => do
      let colon ← Json.readColon text
      let r ← Json.skipValue colon.rest
      return r.after colon.shorter
  | f :: fields, key, (slot, slots), text =>
      if f.key = key then
        match slot with
        | some _ => .error (.unplaced (.repeatedField key) text)
        | none => (Json.afterColon (f.ofTextWith read) text).map
            (·.map fun value => (some value, slots))
      else (storeText read fields key slots text).map (·.map fun slots => (slot, slots))

/-- Reads the items of a record that is written as an array. `number` is the place of the first of
the fields. -/
def tupleText (read : Reader) (kind : RecordKind) : (number : Nat) → (fields : List Field) →
    (text : List Char) → Look Problem (Filled fields) text
  | _, [], _ => .ok (.nothing ())
  | number, f :: fields, text => do
      match ← Json.nextElement (number = 0) text with
      | .close rest h =>
          match fillRest kind number (f :: fields) with
          | .error problem => .error (.unplaced problem rest)
          | .ok values => .ok ⟨values, rest, h⟩
      | .item _ rest h =>
          let r ← f.ofTextWith read rest
          let rs ← tupleText read kind (number + 1) fields r.rest
          return ⟨(r.value, rs.value), rs.rest,
            Nat.le_trans rs.noLonger (Nat.le_trans (Nat.le_of_lt r.shorter) h)⟩

/-- Reads the members of a record that is written as an object. -/
def membersText (read : Reader) (fields : List Field) (text : List Char) :
    Look Problem (Filled fields) text := do
  let r ← Json.readMembers (storeText read fields) true (Slots.empty fields) text
  match complete fields r.value with
  | .error problem => .error (.unplaced problem r.rest)
  | .ok values => .ok ⟨values, r.rest, r.noLonger⟩

/-- Reads a record after its bracket or brace. -/
def recordText (read : Reader) (kind : RecordKind) (asArray : Bool) (text : List Char) :
    Look Problem kind.Value text := do
  let r ←
    if asArray then Json.closed Json.closeArray (tupleText read kind 0 kind.fields text)
    else Json.closed Json.closeObject (membersText read kind.fields text)
  match kind.build r.value with
  | .error problem => .error (.unplaced problem r.rest)
  | .ok value => .ok ⟨value, r.rest, r.noLonger⟩

/-- Reads the entries of a table after its brace. -/
def tableText (read : Reader) (item : Shape) (text : List Char) :
    Look Problem (List (String × item.Value)) text :=
  Json.closed Json.closeObject
    (Json.readMembers
      (fun key entries t => (Json.afterColon (read item) t).map (·.map (insertEntry entries key)))
      true [] text)

/-- Reads a value of the given shape. Arrays and objects may be nested as deeply as the budget
allows. -/
def ofText (budget : Nat) (shape : Shape) (text : List Char) : Scan Problem shape.Value text :=
  match h : skipBlanks text with
  | [] => .error (.beyond .endInValue [])
  | c :: rest =>
      have hrest := Json.length_lt_of_skipBlanks h
      match shape with
      | .text =>
          if c = '"' then do
            let r ← Json.readString rest
            return r.from (Json.length_le_of_skipBlanks h)
          else refuseType .text (c :: rest)
      | .pinValue => do
          let r ← Json.readValue budget text
          match pinValueOf r.value with
          | .error problem => .error (.unplaced problem r.rest)
          | .ok value => return ⟨value, r.rest, r.shorter⟩
      | .list item =>
          if c = '[' then
            match budget with
            | 0 => .error (.beyond .tooDeep (c :: rest))
            | budget + 1 => do
                let r ← Json.closed Json.closeArray
                  (Json.readElements (ofText budget item) true rest)
                return r.after hrest
          else refuseType (.list item) (c :: rest)
      | .table item =>
          if c = '\x7b' then
            match budget with
            | 0 => .error (.beyond .tooDeep (c :: rest))
            | budget + 1 => do
                let r ← tableText (ofText budget) item rest
                return r.after hrest
          else refuseType (.table item) (c :: rest)
      | .record kind =>
          if c = '[' ∨ c = '\x7b' then
            match budget with
            | 0 => .error (.beyond .tooDeep (c :: rest))
            | budget + 1 => do
                let r ← recordText (ofText budget) kind (c = '[') rest
                return r.after hrest
          else refuseType (.record kind) (c :: rest)

end BlockCircuit.Document
