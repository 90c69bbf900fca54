/-!
# Texts as bytes

A text is stored as the bytes of its UTF-8 encoding. Not all bytes are the encoding of a text.

Positions in a text are counted in these bytes. A place in a text is known by the number of bytes
that are still unread there; for a reader of messages it is a line, from one, and the number of bytes
read since the line began.
-/

namespace BlockCircuit.Text

/-- The bytes of a text. -/
def toBytes (text : String) : List UInt8 :=
  text.toList.flatMap String.utf8EncodeChar

/-- The text that some bytes encode. -/
def ofBytes? (bytes : List UInt8) : Option String :=
  String.fromUTF8? ⟨bytes.toArray⟩

/-- The bytes of a text encode it. -/
theorem ofBytes?_toBytes (text : String) : ofBytes? (toBytes text) = some text := by
  have hbytes : (⟨(toBytes text).toArray⟩ : ByteArray) = text.toByteArray := by
    rw [← String.utf8Encode_toList, List.utf8Encode, toBytes]
    exact ByteArray.ext List.data_toByteArray.symm
  rw [ofBytes?, hbytes, String.fromUTF8?, dif_pos text.isValidUTF8]
  rfl

/-! ## Positions -/

/-- The length of a text in bytes of UTF-8. -/
def byteCount : List Char → Nat
  | [] => 0
  | c :: cs => c.utf8Size + byteCount cs

/-- A line, from one, and a number of bytes in it. -/
structure Position where
  line : Nat
  column : Nat
deriving DecidableEq, Repr

/-- The position that is `offset` bytes further on than `start`, at which the text begins. -/
def advance (start : Position) : (offset : Nat) → List Char → Position
  | _, [] => start
  | offset, c :: cs =>
      if offset < c.utf8Size then { start with column := start.column + offset }
      else if c = '\n' then advance ⟨start.line + 1, 0⟩ (offset - c.utf8Size) cs
      else advance { start with column := start.column + c.utf8Size } (offset - c.utf8Size) cs

/-- The position in a text where `unread` bytes are left. -/
def positionOf (text : List Char) (unread : Nat) : Position :=
  advance ⟨1, 0⟩ (byteCount text - unread) text

@[simp] theorem byteCount_nil : byteCount [] = 0 := rfl

@[simp] theorem byteCount_append (s t : List Char) :
    byteCount (s ++ t) = byteCount s + byteCount t := by
  induction s with
  | nil => simp
  | cons c s ih => simp [byteCount, ih, Nat.add_assoc]

end BlockCircuit.Text
