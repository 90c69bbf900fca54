import BlockCircuit.Json.Value

/-!
# Printing JSON values

A value is printed over several lines, each level indented by two more spaces. Strings escape the
quote, the backslash and the control characters below the space; all else stands as it is.
-/

namespace BlockCircuit.Json

/-- How a character is written in a string. -/
def escapedChar (c : Char) : List Char :=
  match c with
  | '"' => ['\\', '"']
  | '\\' => ['\\', '\\']
  | '\x08' => ['\\', 'b']
  | '\t' => ['\\', 't']
  | '\n' => ['\\', 'n']
  | '\x0c' => ['\\', 'f']
  | '\r' => ['\\', 'r']
  | c =>
      if c.toNat < 0x20 then
        ['\\', 'u', '0', '0', Nat.digitChar (c.toNat / 16), Nat.digitChar (c.toNat % 16)]
      else [c]

/-- A string as it is written. -/
def printedString (s : String) : List Char :=
  '"' :: s.toList.flatMap escapedChar ++ ['"']

/-- A new line, indented for a level. -/
def newLine (level : Nat) : List Char :=
  '\n' :: List.replicate (2 * level) ' '

mutual

/-- A value as it is written at a level. -/
def printed (level : Nat) : Value → List Char
  | .null => ['n', 'u', 'l', 'l']
  | .boolean true => ['t', 'r', 'u', 'e']
  | .boolean false => ['f', 'a', 'l', 's', 'e']
  | .number n => n.text.toList
  | .string s => printedString s
  | .array [] => ['[', ']']
  | .array (v :: items) =>
      '[' :: newLine (level + 1) ++ printed (level + 1) v ++ printedItems (level + 1) items
        ++ newLine level ++ [']']
  | .object [] => ['\x7b', '\x7d']
  | .object ((key, v) :: members) =>
      '\x7b' :: newLine (level + 1) ++ printedString key ++ [':', ' '] ++ printed (level + 1) v
        ++ printedMembers (level + 1) members ++ newLine level ++ ['\x7d']

/-- The elements of an array after the first one. -/
def printedItems (level : Nat) : List Value → List Char
  | [] => []
  | v :: items => ',' :: newLine level ++ printed level v ++ printedItems level items

/-- The members of an object after the first one. -/
def printedMembers (level : Nat) : List (String × Value) → List Char
  | [] => []
  | (key, v) :: members =>
      ',' :: newLine level ++ printedString key ++ [':', ' '] ++ printed level v
        ++ printedMembers level members

end

/-- A value as a text of its own. -/
def Value.pretty (v : Value) : String :=
  String.ofList (printed 0 v)

end BlockCircuit.Json
