import BlockCircuit.Decimal.Shortest

/-!
# JSON values

Objects keep their members in the order in which they are written, repeated keys included. A number
is an integer if it is written as one and fits a signed or an unsigned word of 64 bits, and a double
otherwise.
-/

namespace BlockCircuit.Json

/-- A number. -/
inductive Number where
  /-- A whole number from `-2 ^ 63` to `2 ^ 64 - 1`. -/
  | integer (value : Int)
  /-- Any other number, and minus zero. -/
  | double (value : Decimal.Double)
deriving DecidableEq, Repr

/-- The text of a number. -/
def Number.text : Number → String
  | .integer value => toString value
  | .double value => value.text

/-- A JSON value. -/
inductive Value where
  | null
  | boolean (value : Bool)
  | number (value : Number)
  | string (value : String)
  | array (items : List Value)
  | object (members : List (String × Value))
deriving Inhabited

/-- The value of the first member with the given key. -/
def Value.member? (key : String) : Value → Option Value
  | .object members => members.lookup key
  | _ => none

end BlockCircuit.Json
