/-!
# Faults of JSON text

What can be wrong with a text as JSON, whatever it is meant to say.
-/

namespace BlockCircuit.Json

/-- One way in which a text is not JSON. -/
inductive Fault where
  /-- The text ends where a value must be, or inside a word or a number. -/
  | endInValue
  /-- The text ends inside an array. -/
  | endInArray
  /-- The text ends inside an object. -/
  | endInObject
  /-- The text ends inside a string. -/
  | endInString
  /-- A word that begins like `null`, `true` or `false` goes on differently. -/
  | expectedWord
  /-- Something stands where a value must be. -/
  | expectedValue
  /-- No colon follows a key. -/
  | expectedColon
  /-- Neither a comma nor a closing bracket follows an element. -/
  | expectedCommaOrBracket
  /-- Neither a comma nor a closing brace follows a member. -/
  | expectedCommaOrBrace
  /-- A key is not a string. -/
  | keyNotString
  /-- A number goes on in a way that no number does. -/
  | invalidNumber
  /-- A number is too large for double precision. -/
  | numberOutOfRange
  /-- A backslash is followed by something that is no escape. -/
  | invalidEscape
  /-- Half of a surrogate pair is written without the other half. -/
  | loneSurrogate
  /-- The first half of a surrogate pair is followed by something that is no escape. -/
  | unfinishedPair
  /-- A string holds a control character that is not escaped. -/
  | controlCharacter
  /-- A comma stands before a closing bracket or brace. -/
  | trailingComma
  /-- Something follows where everything has been read. -/
  | trailingCharacters
  /-- Arrays and objects are nested too deeply. -/
  | tooDeep
deriving DecidableEq, Repr

/-- The message of a fault. -/
def Fault.message : Fault → String
  | endInValue => "EOF while parsing a value"
  | endInArray => "EOF while parsing a list"
  | endInObject => "EOF while parsing an object"
  | endInString => "EOF while parsing a string"
  | expectedWord => "expected ident"
  | expectedValue => "expected value"
  | expectedColon => "expected `:`"
  | expectedCommaOrBracket => "expected `,` or `]`"
  | expectedCommaOrBrace => "expected `,` or `\x7d`"
  | keyNotString => "key must be a string"
  | invalidNumber => "invalid number"
  | numberOutOfRange => "number out of range"
  | invalidEscape => "invalid escape"
  | loneSurrogate => "lone leading surrogate in hex escape"
  | unfinishedPair => "unexpected end of hex escape"
  | controlCharacter => "control character (\\u0000-\\u001F) found while parsing a string"
  | trailingComma => "trailing comma"
  | trailingCharacters => "trailing characters"
  | tooDeep => "recursion limit exceeded"

end BlockCircuit.Json
