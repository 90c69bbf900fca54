import BlockCircuit.Json.Nesting

/-!
# Reading JSON values

`readValue` reads any value, in arrays and objects nested at most as deeply as a budget allows.
`parse` reads a text that is one value.
-/

namespace BlockCircuit.Json

/-- Reads a value that is neither an array nor an object, at the front of a text without blanks. -/
def readScalar {π : Type} : (text : List Char) → Scan π Value text
  | [] => .error (.beyond .endInValue [])
  | c :: text =>
      if c = 'n' then do
        let r ← readWord ['u', 'l', 'l'] text
        return r.past.map fun _ => .null
      else if c = 't' then do
        let r ← readWord ['r', 'u', 'e'] text
        return r.past.map fun _ => .boolean true
      else if c = 'f' then do
        let r ← readWord ['a', 'l', 's', 'e'] text
        return r.past.map fun _ => .boolean false
      else if c = '"' then do
        let r ← readString text
        return (r.map .string).past
      else if c = '-' ∨ c.isDigit then do
        let r ← readNumber (c :: text)
        return r.map .number
      else .error (.beyond .expectedValue (c :: text))

/-- Reads any value. -/
def readValue {π : Type} (budget : Nat) (text : List Char) : Scan π Value text :=
  match h : skipBlanks text with
  | [] => .error (.beyond .endInValue [])
  | c :: rest =>
      if c = '[' then
        match budget with
        | 0 => .error (.beyond .tooDeep (c :: rest))
        | budget + 1 => do
            let r ← closed closeArray (readElements (readValue budget) true rest)
            return (r.after (length_lt_of_skipBlanks h)).map .array
      else if c = '\x7b' then
        match budget with
        | 0 => .error (.beyond .tooDeep (c :: rest))
        | budget + 1 => do
            let member (key : String) (members : List (String × Value)) (t : List Char) :
                Scan π (List (String × Value)) t := do
              let r ← afterColon (readValue budget) t
              return r.map fun value => members ++ [(key, value)]
            let r ← closed closeObject (readMembers member true [] rest)
            return (r.after (length_lt_of_skipBlanks h)).map .object
      else do
        let r ← readScalar (c :: rest)
        return r.from (length_cons_le_of_skipBlanks h)

/-- Sees to it that only blanks follow what was read. -/
def atEnd {π α : Type} {text : List Char} (r : Read α text) : Except (Failure π) α :=
  match skipBlanks r.rest with
  | [] => .ok r.value
  | c :: rest => .error (.beyond .trailingCharacters (c :: rest))

/-- The value of a text that is nested no deeper than it is long. -/
def parse (text : String) : Except (Failure Empty) Value := do
  let r ← readValue text.length text.toList
  atEnd r

end BlockCircuit.Json
