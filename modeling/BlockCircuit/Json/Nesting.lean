import BlockCircuit.Json.Scan

/-!
# Arrays and objects in JSON text

The elements of an array and the members of an object are read one by one, by a reader that is a
parameter. When they have been read, the array or object is closed: the closing bracket or brace
must follow. A problem that has no place yet gets it then.
-/

namespace BlockCircuit.Json

open Text (byteCount)

/-! ## What comes next -/

/-- What comes next inside an array or object: its end, or an item. -/
inductive Next (α : Type) (text : List Char) where
  /-- The closing character comes, which is not taken. -/
  | close (rest : List Char) (noLonger : rest.length ≤ text.length)
  /-- An item comes. -/
  | item (value : α) (rest : List Char) (noLonger : rest.length ≤ text.length)

/-- Looks for an element of an array, which after the first one needs a comma before it. -/
def nextElement {π : Type} (first : Bool) (text : List Char) :
    Except (Failure π) (Next Unit text) :=
  match h : skipBlanks text with
  | [] => .error (.beyond .endInArray [])
  | c :: rest =>
      have hc : (c :: rest).length ≤ text.length := h ▸ length_skipBlanks_le text
      if c = ']' then .ok (.close (c :: rest) hc)
      else if first then .ok (.item () (c :: rest) hc)
      else if c = ',' then
        match h' : skipBlanks rest with
        | [] => .error (.beyond .endInValue [])
        | d :: rest' =>
            if d = ']' then .error (.beyond .trailingComma (d :: rest'))
            else
              .ok (.item () (d :: rest') (by
                have := h' ▸ length_skipBlanks_le rest
                simp only [List.length_cons] at hc this ⊢
                omega))
      else .error (.beyond .expectedCommaOrBracket (c :: rest))

/-- Looks for a member of an object, which after the first one needs a comma before it, and reads
its key. -/
def nextKey {π : Type} (first : Bool) (text : List Char) :
    Except (Failure π) (Next String text) :=
  match h : skipBlanks text with
  | [] => .error (.beyond .endInObject [])
  | c :: rest =>
      have hc : (c :: rest).length ≤ text.length := h ▸ length_skipBlanks_le text
      if c = '\x7d' then .ok (.close (c :: rest) hc)
      else if first then
        if c = '"' then do
          let key ← readString rest
          return .item key.value key.rest
            (by have := key.shorter; simp only [List.length_cons] at hc; omega)
        else .error (.beyond .keyNotString (c :: rest))
      else if c = ',' then
        match h' : skipBlanks rest with
        | [] => .error (.beyond .endInValue [])
        | d :: rest' =>
            if d = '"' then do
              let key ← readString rest'
              return .item key.value key.rest (by
                have := key.shorter
                have := h' ▸ length_skipBlanks_le rest
                simp only [List.length_cons] at hc this
                omega)
            else if d = '\x7d' then .error (.beyond .trailingComma (d :: rest'))
            else .error (.beyond .keyNotString (d :: rest'))
      else .error (.beyond .expectedCommaOrBrace (c :: rest))

/-- Reads the colon between a key and its value. -/
def readColon {π : Type} (text : List Char) : Scan π Unit text :=
  match h : skipBlanks text with
  | [] => .error (.beyond .endInObject [])
  | c :: rest =>
      if c = ':' then .ok ⟨(), rest, length_lt_of_skipBlanks h⟩
      else .error (.beyond .expectedColon (c :: rest))

/-- Reads a colon and then a value. -/
def afterColon {π α : Type} (value : (text : List Char) → Scan π α text) (text : List Char) :
    Scan π α text := do
  let colon ← readColon text
  let r ← value colon.rest
  return r.from (Nat.le_of_lt colon.shorter)

/-! ## Items in a row -/

/-- Reads elements up to the end of an array. -/
def readElements {π α : Type} (element : (text : List Char) → Scan π α text) (first : Bool)
    (text : List Char) : Look π (List α) text :=
  match nextElement first text with
  | .error f => .error f
  | .ok (.close rest h) => .ok ⟨[], rest, h⟩
  | .ok (.item _ rest h) =>
      match element rest with
      | .error f => .error f
      | .ok r =>
          have := r.shorter
          match readElements element false r.rest with
          | .error f => .error f
          | .ok rs => .ok ⟨r.value :: rs.value, rs.rest, by have := rs.noLonger; omega⟩
termination_by text.length

/-- Reads members up to the end of an object. Each one changes a state; its reader begins after the
key. -/
def readMembers {π σ : Type} (member : String → σ → (text : List Char) → Scan π σ text)
    (first : Bool) (state : σ) (text : List Char) : Look π σ text :=
  match nextKey first text with
  | .error f => .error f
  | .ok (.close rest h) => .ok ⟨state, rest, h⟩
  | .ok (.item key rest h) =>
      match member key state rest with
      | .error f => .error f
      | .ok r =>
          have := r.shorter
          match readMembers member false r.value r.rest with
          | .error f => .error f
          | .ok rs => .ok (rs.from (by omega))
termination_by text.length

/-! ## Closing -/

/-- What the end of an array or object looks like: where reading it stops, and what is wrong. -/
structure Closing (text : List Char) where
  rest : List Char
  fault? : Option Fault
  noLonger : rest.length ≤ text.length

/-- The end of an array. -/
def closeArray (text : List Char) : Closing text :=
  match h : skipBlanks text with
  | [] => ⟨[], some .endInArray, by simp⟩
  | c :: rest =>
      have hc : rest.length < text.length := length_lt_of_skipBlanks h
      if c = ']' then ⟨rest, none, by omega⟩
      else if c = ',' then
        let after := skipBlanks rest
        ⟨after, some (if after.head? = some ']' then .trailingComma else .trailingCharacters),
          Nat.le_trans (length_skipBlanks_le rest) (by omega)⟩
      else ⟨c :: rest, some .trailingCharacters, hc⟩

/-- The end of an object. -/
def closeObject (text : List Char) : Closing text :=
  match h : skipBlanks text with
  | [] => ⟨[], some .endInObject, by simp⟩
  | c :: rest =>
      have hc : rest.length < text.length := length_lt_of_skipBlanks h
      if c = '\x7d' then ⟨rest, none, by omega⟩
      else
        ⟨c :: rest, some (if c = ',' then .trailingComma else .trailingCharacters), hc⟩

/-- Closes an array or object after what was read in it. A problem without a place is placed after
the end, or where the end is looked for in vain. -/
def closed {π α : Type} {text : List Char} (close : (text : List Char) → Closing text) :
    Look π α text → Look π α text
  | .ok r =>
      let c := close r.rest
      match c.fault? with
      | none => .ok ⟨r.value, c.rest, Nat.le_trans c.noLonger r.noLonger⟩
      | some fault => .error (.beyond fault c.rest)
  | .error (.unplaced problem rest) => .error (.refused problem (byteCount (close rest).rest))
  | .error (.malformed fault unread) => .error (.malformed fault unread)
  | .error (.refused problem unread) => .error (.refused problem unread)

end BlockCircuit.Json
