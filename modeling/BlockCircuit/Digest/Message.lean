/-!
# Messages and their digests

Both digests of this library read a message in blocks of 512 bits. The message is closed by a
single one bit, filled with zero bits, and ended by its length in bits as a 64-bit number, all in
big-endian order.

A digest is written in hexadecimal: each byte as two lowercase digits, the high half first.
-/

namespace BlockCircuit.Digest

/-! ## Messages in blocks of sixteen words -/

/-- A number as `n` bytes, the most significant one first; higher digits are dropped. -/
def bigEndian (n value : Nat) : List UInt8 :=
  (List.range n).reverse.map fun i => UInt8.ofNat (value / Nat.pow 256 i)

/-- The word of four bytes in big-endian order. -/
def word (a b c d : UInt8) : UInt32 :=
  (a.toUInt32 <<< 24) ||| (b.toUInt32 <<< 16) ||| (c.toUInt32 <<< 8) ||| d.toUInt32

/-- The bytes of a word, the most significant one first. -/
def wordBytes (w : UInt32) : List UInt8 :=
  [(w >>> 24).toUInt8, (w >>> 16).toUInt8, (w >>> 8).toUInt8, w.toUInt8]

/-- A message with its closing bit, its filling and its length. -/
def pad (message : List UInt8) : List UInt8 :=
  message ++ 0x80 :: List.replicate ((119 - message.length % 64) % 64) 0
    ++ bigEndian 8 (8 * message.length)

/-- Bytes taken four at a time; a rest of less than four is dropped. -/
def words : List UInt8 → List UInt32
  | a :: b :: c :: d :: bytes => word a b c d :: words bytes
  | _ => []

/-- A list cut into pieces of sixteen, the last of which may be shorter. -/
def sixteens {α : Type} (xs : List α) : List (List α) :=
  (List.range ((xs.length + 15) / 16)).map fun i => (xs.drop (16 * i)).take 16

/-- The blocks of a message, each of sixteen words. -/
def blocks (message : List UInt8) : List (List UInt32) :=
  sixteens (words (pad message))

/-- A word rotated to the left; `n` is between 1 and 31. -/
def rotateLeft (w : UInt32) (n : UInt32) : UInt32 :=
  (w <<< n) ||| (w >>> (32 - n))

/-- A word rotated to the right; `n` is between 1 and 31. -/
def rotateRight (w : UInt32) (n : UInt32) : UInt32 :=
  (w >>> n) ||| (w <<< (32 - n))

/-- Continues a schedule by `n` words. The newest word comes first in `window`, which holds at
least the last sixteen words; `next` computes a word from them. -/
def extend (next : List UInt32 → UInt32) : Nat → List UInt32 → List UInt32
  | 0, window => window
  | n + 1, window => extend next n (next window :: window)

/-- The schedule of a block: its sixteen words and `n` computed ones, in order. -/
def schedule (next : List UInt32 → UInt32) (n : Nat) (block : List UInt32) : List UInt32 :=
  (extend next n block.reverse).reverse

/-- Padding fills the last block. -/
theorem length_pad (message : List UInt8) : (pad message).length % 64 = 0 := by
  simp only [pad, bigEndian, List.length_append, List.length_cons, List.length_replicate,
    List.length_map, List.length_reverse, List.length_range]
  omega

/-! ## Bytes in hexadecimal -/

/-- The lowercase hexadecimal digit of the low four bits of a number. -/
def hexDigit (n : Nat) : Char :=
  Nat.digitChar (n % 16)

/-- The two digits of a byte. -/
def hexByte (b : UInt8) : List Char :=
  [hexDigit (b.toNat / 16), hexDigit b.toNat]

/-- Bytes in hexadecimal, two digits each. -/
def hex (bytes : List UInt8) : String :=
  String.ofList (bytes.flatMap hexByte)

/-- A text in hexadecimal has two characters a byte. -/
theorem length_hex (bytes : List UInt8) : (hex bytes).toList.length = 2 * bytes.length := by
  simp only [hex, String.toList_ofList]
  induction bytes with
  | nil => rfl
  | cons b bs ih => simp [hexByte, ih]; omega

end BlockCircuit.Digest
