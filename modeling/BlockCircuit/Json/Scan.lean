import BlockCircuit.Json.Fault
import BlockCircuit.Json.Value
import BlockCircuit.Text.Bytes

/-!
# Scanning JSON text

A reader takes a text and yields what it has read and the rest of the text, which is shorter. This
module holds that result type, the way readers fail, and the readers of words, numbers and strings.

A failure tells the place of the fault by the number of bytes that are unread there. Some faults are
placed on the next unread byte (`beyond`), others just before it (`here`). A problem that a schema
has with a text gets its place only when the array or object around it is closed; until then it
travels with the text that is left (`unplaced`).
-/

namespace BlockCircuit.Json

open Text (byteCount)

/-! ## Results of readers -/

/-- Why a reader stops. `π` are the problems that are not faults of the text as JSON. -/
inductive Failure (π : Type) where
  /-- The text is not JSON. -/
  | malformed (fault : Fault) (unread : Nat)
  /-- The text is not what was asked for, as is clear at a certain place. -/
  | refused (problem : π) (unread : Nat)
  /-- The text is not what was asked for; the place depends on what follows. -/
  | unplaced (problem : π) (rest : List Char)
deriving DecidableEq, Repr

/-- A fault just before the rest of the text. -/
def Failure.here {π : Type} (fault : Fault) (rest : List Char) : Failure π :=
  .malformed fault (byteCount rest)

/-- A fault on the first byte of the rest of the text, or at its end if there is none. -/
def Failure.beyond {π : Type} (fault : Fault) (rest : List Char) : Failure π :=
  .malformed fault (byteCount rest - 1)

/-- A value read from the front of a text, and the rest, which is shorter. -/
structure Read (α : Type) (text : List Char) where
  value : α
  rest : List Char
  shorter : rest.length < text.length

/-- A value read from the front of a text, and the rest, which may be the whole text. -/
structure Taken (α : Type) (text : List Char) where
  value : α
  rest : List Char
  noLonger : rest.length ≤ text.length

/-- What a reader yields that takes something of the text. -/
abbrev Scan (π α : Type) (text : List Char) := Except (Failure π) (Read α text)

/-- What a reader yields that may take nothing of the text. -/
abbrev Look (π α : Type) (text : List Char) := Except (Failure π) (Taken α text)

/-- The same result with another value. -/
def Read.map {α β : Type} {text : List Char} (f : α → β) (r : Read α text) : Read β text :=
  ⟨f r.value, r.rest, r.shorter⟩

/-- A result for the rest of a text is one for the text. -/
def Read.from {α : Type} {rest text : List Char} (r : Read α rest)
    (h : rest.length ≤ text.length) : Read α text :=
  ⟨r.value, r.rest, Nat.lt_of_lt_of_le r.shorter h⟩

/-- A result for the rest of a text, when something was taken before it. -/
def Taken.after {α : Type} {rest text : List Char} (r : Taken α rest)
    (h : rest.length < text.length) : Read α text :=
  ⟨r.value, r.rest, Nat.lt_of_le_of_lt r.noLonger h⟩

/-- A result for the rest of a text is one for the text. -/
def Taken.from {α : Type} {rest text : List Char} (r : Taken α rest)
    (h : rest.length ≤ text.length) : Taken α text :=
  ⟨r.value, r.rest, Nat.le_trans r.noLonger h⟩

theorem length_le_cons {α : Type} (c : α) (text : List α) :
    text.length ≤ (c :: text).length :=
  Nat.le_succ _

theorem length_lt_cons {α : Type} (c : α) (text : List α) :
    text.length < (c :: text).length :=
  Nat.lt_succ_self _

/-- Yields a value and takes nothing. -/
def Taken.nothing {α : Type} {text : List Char} (value : α) : Taken α text :=
  ⟨value, text, Nat.le_refl _⟩

/-- A result for what follows a character is one for the whole. -/
def Read.past {α : Type} {c : Char} {text : List Char} (r : Read α text) : Read α (c :: text) :=
  r.from (length_le_cons c text)

/-- A result for what follows a character is one for the whole, and takes something of it. -/
def Taken.past {α : Type} {c : Char} {text : List Char} (r : Taken α text) : Read α (c :: text) :=
  r.after (length_lt_cons c text)

/-- A result for what follows a character is one for the whole. -/
def Taken.later {α : Type} {c : Char} {text : List Char} (r : Taken α text) :
    Taken α (c :: text) :=
  r.from (length_le_cons c text)

/-! ## Blanks and words -/

/-- The characters that may stand between tokens. -/
def isBlank (c : Char) : Bool :=
  c = ' ' || c = '\n' || c = '\t' || c = '\r'

/-- The text without the blanks at its front. -/
def skipBlanks (text : List Char) : List Char :=
  text.dropWhile isBlank

theorem length_skipBlanks_le (text : List Char) : (skipBlanks text).length ≤ text.length :=
  (List.dropWhile_sublist isBlank).length_le

/-- What follows the first character of a text without blanks is shorter than the text. -/
theorem length_lt_of_skipBlanks {text rest : List Char} {c : Char}
    (h : skipBlanks text = c :: rest) : rest.length < text.length := by
  have := length_skipBlanks_le text
  rw [h, List.length_cons] at this
  omega

theorem length_cons_le_of_skipBlanks {text rest : List Char} {c : Char}
    (h : skipBlanks text = c :: rest) : (c :: rest).length ≤ text.length :=
  h ▸ length_skipBlanks_le text

theorem length_le_of_skipBlanks {text rest : List Char} {c : Char}
    (h : skipBlanks text = c :: rest) : rest.length ≤ text.length :=
  Nat.le_of_lt (length_lt_of_skipBlanks h)

/-- Reads the letters of a word. -/
def readWord {π : Type} : (letters text : List Char) → Look π Unit text
  | [], _ => .ok (.nothing ())
  | _ :: _, [] => .error (.here .endInValue [])
  | l :: letters, c :: text =>
      if c = l then do
        let r ← readWord letters text
        return r.later
      else .error (.beyond .expectedWord (c :: text))

/-! ## Numbers -/

/-- The value of a decimal digit. -/
def digitValue (c : Char) : Nat :=
  c.toNat - '0'.toNat

/-- Whether a text begins with a digit. -/
def startsWithDigit : List Char → Bool
  | c :: _ => c.isDigit
  | [] => false

/-- Appends digits from the front of a text to a number, as long as it does not exceed `limit`. -/
def gatherDigits (limit : Nat) : (number : Nat) → (text : List Char) → Nat × List Char
  | number, [] => (number, [])
  | number, c :: text =>
      if c.isDigit ∧ number * 10 + digitValue c ≤ limit then
        gatherDigits limit (number * 10 + digitValue c) text
      else (number, c :: text)

theorem length_gatherDigits_le (limit number : Nat) (text : List Char) :
    (gatherDigits limit number text).2.length ≤ text.length := by
  induction text generalizing number with
  | nil => simp [gatherDigits]
  | cons c text ih =>
    unfold gatherDigits
    split
    · exact Nat.le_succ_of_le (ih _)
    · simp

/-- The text without the digits at its front. -/
def skipDigits (text : List Char) : List Char :=
  text.dropWhile Char.isDigit

theorem length_skipDigits_le (text : List Char) : (skipDigits text).length ≤ text.length :=
  (List.dropWhile_sublist Char.isDigit).length_le

/-- The greatest number whose digits are all kept: it fills a word of 64 bits. -/
def maxSignificand : Nat := 18446744073709551615

/-- The greatest exponent that is kept: it fills a signed word of 32 bits. -/
def maxExponent : Nat := 2147483647

/-- How far whole numbers go below zero: to the least signed word of 64 bits. -/
def maxNegated : Nat := 9223372036854775808

/-- The double `significand * 10 ^ exponent`, which ends before the rest of the text. -/
def doubleOf {π : Type} (negative : Bool) (significand : Nat) (exponent : Int)
    (rest : List Char) : Except (Failure π) Number :=
  match (Decimal.Magnitude.ofNat significand).timesPowerOfTen? exponent with
  | some magnitude => .ok (.double ⟨negative, magnitude⟩)
  | none => .error (.here .numberOutOfRange rest)

/-- The whole number of some digits. Minus zero, and what is below `-2 ^ 63`, becomes a double. -/
def integerOf (negative : Bool) (significand : Nat) : Number :=
  if negative then
    if significand = 0 ∨ maxNegated < significand then
      .double ⟨true, .ofNat significand⟩
    else .integer (-significand)
  else .integer significand

/-- The sign of an exponent, and the text after it. -/
def exponentSign : List Char → Bool × List Char
  | '+' :: text => (false, text)
  | '-' :: text => (true, text)
  | text => (false, text)

theorem length_exponentSign_le (text : List Char) :
    (exponentSign text).2.length ≤ text.length := by
  unfold exponentSign
  split <;> simp

/-- Reads the digits of an exponent, which lowers the number if `down` is set. An exponent that is
too large to be kept makes the number zero, unless it makes it too large. -/
def readExponentDigits {π : Type} (negative down : Bool) (significand : Nat) (exponent : Int) :
    (text : List Char) → Look π Number text
  | [] => .error (.here .endInValue [])
  | c :: text =>
      if c.isDigit then
        let gathered := gatherDigits maxExponent 0 (c :: text)
        have h : gathered.2.length ≤ (c :: text).length := length_gatherDigits_le _ _ _
        if startsWithDigit gathered.2 then
          if significand ≠ 0 ∧ !down then .error (.beyond .numberOutOfRange gathered.2)
          else
            .ok ⟨.double ⟨negative, .zero⟩, skipDigits gathered.2,
              Nat.le_trans (length_skipDigits_le _) h⟩
        else do
          let power : Int := if down then exponent - gathered.1 else exponent + gathered.1
          let number ← doubleOf negative significand power gathered.2
          return ⟨number, gathered.2, h⟩
      else .error (.beyond .invalidNumber (c :: text))

/-- Reads the exponent of a number, from its sign on. -/
def readExponent {π : Type} (negative : Bool) (significand : Nat) (exponent : Int)
    (text : List Char) : Look π Number text := do
  let sign := exponentSign text
  let r ← readExponentDigits negative sign.1 significand exponent sign.2
  return r.from (length_exponentSign_le text)

/-- Reads what may follow the digits of a number that is not written as an integer: its
exponent. -/
def readScale {π : Type} (negative : Bool) (significand : Nat) (exponent : Int) :
    (text : List Char) → Look π Number text
  | [] => do
      let number ← doubleOf negative significand exponent []
      return .nothing number
  | c :: text =>
      if c = 'e' ∨ c = 'E' then do
        let r ← readExponent negative significand exponent text
        return r.later
      else do
        let number ← doubleOf negative significand exponent (c :: text)
        return .nothing number

/-- Reads the fraction of a number, after its point. Digits beyond the greatest significand are
dropped. -/
def readFraction {π : Type} (negative : Bool) (significand : Nat) (exponent : Int)
    (text : List Char) : Look π Number text :=
  match text with
  | [] => .error (.beyond .endInValue [])
  | c :: rest =>
      if c.isDigit then
        let gathered := gatherDigits maxSignificand significand (c :: rest)
        have h : (skipDigits gathered.2).length ≤ (c :: rest).length :=
          Nat.le_trans (length_skipDigits_le _) (length_gatherDigits_le _ _ _)
        do
          let r ← readScale negative gathered.1
            (exponent - ((c :: rest).length - gathered.2.length : Nat)) (skipDigits gathered.2)
          return r.from h
      else .error (.beyond .invalidNumber (c :: rest))

/-- Reads what may follow the whole part of a number. `dropped` digits of the whole part were beyond
the greatest significand. -/
def readAfterWhole {π : Type} (negative : Bool) (significand dropped : Nat) :
    (text : List Char) → Look π Number text
  | '.' :: text => do
      let r ← readFraction negative significand dropped text
      return r.later
  | text =>
      if dropped = 0 ∧ text.head? ≠ some 'e' ∧ text.head? ≠ some 'E' then
        .ok (.nothing (integerOf negative significand))
      else readScale negative significand dropped text

/-- Reads a number after its sign. -/
def readUnsigned {π : Type} (negative : Bool) : (text : List Char) → Scan π Number text
  | [] => .error (.here .endInValue [])
  | c :: text =>
      if c = '0' then
        if startsWithDigit text then .error (.beyond .invalidNumber text)
        else do
          let r ← readAfterWhole negative 0 0 text
          return r.past
      else if c.isDigit then
        let gathered := gatherDigits maxSignificand (digitValue c) text
        have h : (skipDigits gathered.2).length < (c :: text).length :=
          Nat.lt_succ_of_le
            (Nat.le_trans (length_skipDigits_le _) (length_gatherDigits_le _ _ _))
        do
          let r ← readAfterWhole negative gathered.1
            (gathered.2.length - (skipDigits gathered.2).length) (skipDigits gathered.2)
          return r.after h
      else .error (.beyond .invalidNumber (c :: text))

/-- Reads a number. -/
def readNumber {π : Type} : (text : List Char) → Scan π Number text
  | '-' :: text => do
      let r ← readUnsigned true text
      return r.past
  | text => readUnsigned false text

/-! ## Strings -/

/-- The value of a hexadecimal digit. -/
def hexValue? (c : Char) : Option Nat :=
  if c.isDigit then some (c.toNat - '0'.toNat)
  else if 'a' ≤ c ∧ c ≤ 'f' then some (c.toNat - 'a'.toNat + 10)
  else if 'A' ≤ c ∧ c ≤ 'F' then some (c.toNat - 'A'.toNat + 10)
  else none

/-- The value of four hexadecimal digits. -/
def hexQuad? (a b c d : Char) : Option Nat := do
  return (((← hexValue? a) * 16 + (← hexValue? b)) * 16 + (← hexValue? c)) * 16 + (← hexValue? d)

/-- The characters that a backslash and one letter stand for. -/
def simpleEscape? : Char → Option Char
  | '"' => some '"'
  | '\\' => some '\\'
  | '/' => some '/'
  | 'b' => some '\x08'
  | 'f' => some '\x0c'
  | 'n' => some '\n'
  | 'r' => some '\r'
  | 't' => some '\t'
  | _ => none

/-- Reads four hexadecimal digits. Four bytes are taken for them, whatever they are. -/
def readHexQuad {π : Type} : (text : List Char) → Scan π Nat text
  | a :: b :: c :: d :: text =>
      match hexQuad? a b c d with
      | some n => .ok ⟨n, text, by simp; omega⟩
      | none => .error (.malformed .invalidEscape (byteCount (a :: b :: c :: d :: text) - 4))
  | text =>
      if byteCount text < 4 then .error (.here .endInString [])
      else .error (.malformed .invalidEscape (byteCount text - 4))

/-- Whether a number is the first half of a surrogate pair. -/
def isHighSurrogate (n : Nat) : Bool := 0xD800 ≤ n && n ≤ 0xDBFF

/-- Whether a number is the second half of a surrogate pair. -/
def isLowSurrogate (n : Nat) : Bool := 0xDC00 ≤ n && n ≤ 0xDFFF

/-- The character of a surrogate pair. -/
def pairedChar (high low : Nat) : Char :=
  Char.ofNat ((high - 0xD800) * 0x400 + (low - 0xDC00) + 0x10000)

/-- Reads the second half of a surrogate pair, which is an escape of its own. -/
def readLowSurrogate {π : Type} (high : Nat) : (text : List Char) → Scan π Char text
  | [] => .error (.here .endInString [])
  | '\\' :: [] => .error (.here .endInString [])
  | '\\' :: 'u' :: text => do
      let r ← readHexQuad text
      if isLowSurrogate r.value then
        return (r.map (pairedChar high)).from (by simp; omega)
      else .error (.here .loneSurrogate r.rest)
  | '\\' :: c :: text => .error (.beyond .unfinishedPair (c :: text))
  | c :: text => .error (.beyond .unfinishedPair (c :: text))

/-- Reads the digits of a Unicode escape, and the second half of a pair if it needs one. -/
def readUnicodeEscape {π : Type} (text : List Char) : Scan π Char text := do
  let r ← readHexQuad text
  if isLowSurrogate r.value then .error (.here .loneSurrogate r.rest)
  else if isHighSurrogate r.value then do
    let t ← readLowSurrogate r.value r.rest
    return t.from (Nat.le_of_lt r.shorter)
  else return r.map Char.ofNat

/-- Reads an escape after its backslash. -/
def readEscape {π : Type} : (text : List Char) → Scan π Char text
  | [] => .error (.here .endInString [])
  | c :: text =>
      if c = 'u' then do
        let r ← readUnicodeEscape text
        return r.past
      else
        match simpleEscape? c with
        | some e => .ok ⟨e, text, length_lt_cons c text⟩
        | none => .error (.beyond .invalidEscape (c :: text))

/-- Reads the characters of a string and the quote that ends it. -/
def readChars {π : Type} (text : List Char) : Scan π (List Char) text :=
  match text with
  | [] => .error (.here .endInString [])
  | c :: rest =>
      if c = '"' then .ok ⟨[], rest, length_lt_cons c rest⟩
      else if c = '\\' then
        match readEscape rest with
        | .error e => .error e
        | .ok e =>
            have := e.shorter
            match readChars e.rest with
            | .error f => .error f
            | .ok r => .ok ((r.map (e.value :: ·)).from (Nat.le_of_lt e.shorter)).past
      else if c.toNat < 0x20 then .error (.beyond .controlCharacter (c :: rest))
      else
        match readChars rest with
        | .error f => .error f
        | .ok r => .ok (r.map (c :: ·)).past
termination_by text.length

/-- Reads a string after its first quote. -/
def readString {π : Type} (text : List Char) : Scan π String text := do
  let r ← readChars text
  return r.map String.ofList

end BlockCircuit.Json
