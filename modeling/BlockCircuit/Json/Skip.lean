import BlockCircuit.Json.Nesting

/-!
# Skipping JSON values

A value that nobody asks for is not built, only passed over. It may be nested to any depth, its
numbers may be of any size and its surrogates need not be paired. The arrays and objects that are
open are kept on a stack.
-/

namespace BlockCircuit.Json

/-- Passes over the digits of an exponent. -/
def skipExponentDigits {π : Type} : (text : List Char) → Look π Unit text
  | [] => .error (.here .invalidNumber [])
  | c :: text =>
      if c.isDigit then .ok ⟨(), skipDigits text, Nat.le_succ_of_le (length_skipDigits_le text)⟩
      else .error (.beyond .invalidNumber (c :: text))

/-- Passes over the exponent of a number, if there is one. -/
def skipScale {π : Type} : (text : List Char) → Look π Unit text
  | [] => .ok (.nothing ())
  | c :: text =>
      if c = 'e' ∨ c = 'E' then do
        let r ← skipExponentDigits (exponentSign text).2
        return (r.from (length_exponentSign_le text)).later
      else .ok (.nothing ())

/-- Passes over the fraction and the exponent of a number, as far as there are such. -/
def skipAfterWhole {π : Type} : (text : List Char) → Look π Unit text
  | '.' :: text =>
      if startsWithDigit text then do
        let r ← skipScale (skipDigits text)
        return r.from (Nat.le_succ_of_le (length_skipDigits_le text))
      else .error (.beyond .invalidNumber text)
  | text => skipScale text

/-- Passes over a number after its sign. -/
def skipUnsigned {π : Type} : (text : List Char) → Scan π Unit text
  | [] => .error (.here .invalidNumber [])
  | c :: text =>
      if c = '0' then
        if startsWithDigit text then .error (.beyond .invalidNumber text)
        else do
          let r ← skipAfterWhole text
          return r.past
      else if c.isDigit then do
        let r ← skipAfterWhole (skipDigits text)
        return r.after (Nat.lt_succ_of_le (length_skipDigits_le text))
      else .error (.beyond .invalidNumber (c :: text))

/-- Passes over a number. -/
def skipNumber {π : Type} : (text : List Char) → Scan π Unit text
  | '-' :: text => do
      let r ← skipUnsigned text
      return r.past
  | text => skipUnsigned text

/-- Passes over an escape after its backslash. -/
def skipEscape {π : Type} : (text : List Char) → Scan π Unit text
  | [] => .error (.here .endInString [])
  | c :: text =>
      if c = 'u' then do
        let r ← readHexQuad text
        return (r.map fun _ => ()).past
      else
        match simpleEscape? c with
        | some _ => .ok ⟨(), text, length_lt_cons c text⟩
        | none => .error (.beyond .invalidEscape (c :: text))

/-- Passes over a string after its first quote. -/
def skipString {π : Type} (text : List Char) : Scan π Unit text :=
  match text with
  | [] => .error (.here .endInString [])
  | c :: rest =>
      if c = '"' then .ok ⟨(), rest, length_lt_cons c rest⟩
      else if c = '\\' then
        match skipEscape rest with
        | .error f => .error f
        | .ok e =>
            have := e.shorter
            match skipString e.rest with
            | .error f => .error f
            | .ok r => .ok (r.from (Nat.le_of_lt e.shorter)).past
      else if c.toNat < 0x20 then .error (.here .controlCharacter (c :: rest))
      else
        match skipString rest with
        | .error f => .error f
        | .ok r => .ok r.past
termination_by text.length

/-- Passes over a value that is neither an array nor an object, at the front of a text without
blanks. -/
def skipScalar {π : Type} : (text : List Char) → Scan π Unit text
  | [] => .error (.beyond .endInValue [])
  | c :: text =>
      if c = 'n' then do
        let r ← readWord ['u', 'l', 'l'] text
        return r.past
      else if c = 't' then do
        let r ← readWord ['r', 'u', 'e'] text
        return r.past
      else if c = 'f' then do
        let r ← readWord ['a', 'l', 's', 'e'] text
        return r.past
      else if c = '"' then do
        let r ← skipString text
        return r.past
      else if c = '-' ∨ c.isDigit then skipNumber (c :: text)
      else .error (.beyond .expectedValue (c :: text))

/-- Passes over a key and its colon. -/
def skipKey {π : Type} (text : List Char) : Scan π Unit text :=
  match h : skipBlanks text with
  | [] => .error (.beyond .endInObject [])
  | c :: rest =>
      if c = '"' then do
        let key ← skipString rest
        let colon ← readColon key.rest
        return (colon.from (Nat.le_of_lt key.shorter)).from
          (Nat.le_of_lt (length_lt_of_skipBlanks h))
      else .error (.beyond .keyNotString (c :: rest))

/-- What a skipped value is inside of. -/
inductive Frame where
  | array
  | object
deriving DecidableEq, Repr

namespace Frame

/-- The character that ends an array or object. -/
def closer : Frame → Char
  | .array => ']'
  | .object => '\x7d'

/-- The fault of a text that ends inside. -/
def endFault : Frame → Fault
  | .array => .endInArray
  | .object => .endInObject

/-- The fault of an item that is followed by something strange. -/
def itemFault : Frame → Fault
  | .array => .expectedCommaOrBracket
  | .object => .expectedCommaOrBrace

end Frame

/-- Where a skipped text stands: before a value, before a key, or after a value. -/
inductive Stage where
  | value
  | key
  | after
deriving DecidableEq, Repr

/-- Where a text stands after a comma. -/
def Frame.afterComma : Frame → Stage
  | .array => .value
  | .object => .key

/-- Passes over the rest of the arrays and objects on the stack, the innermost first. -/
def skipOpen {π : Type} (stage : Stage) (stack : List Frame) (text : List Char) :
    Look π Unit text :=
  match stage, stack with
  | .value, stack =>
      match h : skipBlanks text with
      | [] => .error (.beyond .endInValue [])
      | c :: rest =>
          have hc := length_lt_of_skipBlanks h
          if c = '[' ∨ c = '\x7b' then
            let frame : Frame := if c = '[' then .array else .object
            match h' : skipBlanks rest with
            | [] => .error (.beyond frame.endFault [])
            | d :: inner =>
                have hd : (d :: inner).length ≤ rest.length := h' ▸ length_skipBlanks_le rest
                if d = frame.closer then
                  match skipOpen .after stack inner with
                  | .error f => .error f
                  | .ok r => .ok (r.from (by simp only [List.length_cons] at hd; omega))
                else
                  match skipOpen frame.afterComma (frame :: stack) (d :: inner) with
                  | .error f => .error f
                  | .ok r => .ok (r.from (by omega))
          else
            match skipScalar (c :: rest) with
            | .error f => .error f
            | .ok s =>
                have := s.shorter
                have : (c :: rest).length ≤ text.length := h ▸ length_skipBlanks_le text
                match skipOpen .after stack s.rest with
                | .error f => .error f
                | .ok r => .ok (r.from (by omega))
  | .key, stack =>
      match skipKey text with
      | .error f => .error f
      | .ok k =>
          have := k.shorter
          match skipOpen .value stack k.rest with
          | .error f => .error f
          | .ok r => .ok (r.from (by omega))
  | .after, [] => .ok (.nothing ())
  | .after, frame :: stack =>
      match h : skipBlanks text with
      | [] => .error (.beyond frame.endFault [])
      | c :: rest =>
          have hc := length_lt_of_skipBlanks h
          if c = ',' then
            match skipOpen frame.afterComma (frame :: stack) rest with
            | .error f => .error f
            | .ok r => .ok (r.from (by omega))
          else if c = frame.closer then
            match skipOpen .after stack rest with
            | .error f => .error f
            | .ok r => .ok (r.from (by omega))
          else .error (.beyond frame.itemFault (c :: rest))
termination_by text.length
decreasing_by all_goals (try simp only [List.length_cons] at *); omega

/-- Passes over one value. -/
def skipValue {π : Type} (text : List Char) : Look π Unit text :=
  skipOpen .value [] text

end BlockCircuit.Json
