import BlockCircuit.Digest.Message

/-!
# SHA-1

A state of five words is stirred by eighty rounds a block. The digest is the final state in
big-endian order, twenty bytes long.
-/

namespace BlockCircuit.Digest.Sha1

/-- The five words carried from block to block. -/
structure State where
  a : UInt32
  b : UInt32
  c : UInt32
  d : UInt32
  e : UInt32
deriving DecidableEq, Repr

/-- The state before the first block. -/
def initial : State :=
  ⟨0x67452301, 0xefcdab89, 0x98badcfe, 0x10325476, 0xc3d2e1f0⟩

/-- A schedule word is the rotated sum of the words 3, 8, 14 and 16 places back. -/
def nextWord (window : List UInt32) : UInt32 :=
  rotateLeft (window.getD 2 0 ^^^ window.getD 7 0 ^^^ window.getD 13 0 ^^^ window.getD 15 0) 1

/-- The mixing function and the constant of a round. -/
def mixing (round : Nat) (b c d : UInt32) : UInt32 × UInt32 :=
  if round < 20 then ((b &&& c) ||| (~~~b &&& d), 0x5a827999)
  else if round < 40 then (b ^^^ c ^^^ d, 0x6ed9eba1)
  else if round < 60 then ((b &&& c) ||| (b &&& d) ||| (c &&& d), 0x8f1bbcdc)
  else (b ^^^ c ^^^ d, 0xca62c1d6)

/-- One round, with the schedule word of that round. -/
def step (s : State) (round : Nat × UInt32) : State :=
  let (f, k) := mixing round.1 s.b s.c s.d
  ⟨rotateLeft s.a 5 + f + s.e + k + round.2, s.a, rotateLeft s.b 30, s.c, s.d⟩

/-- Stirs one block into the state. -/
def compress (s : State) (block : List UInt32) : State :=
  let t := ((List.range 80).zip (schedule nextWord 64 block)).foldl step s
  ⟨s.a + t.a, s.b + t.b, s.c + t.c, s.d + t.d, s.e + t.e⟩

/-- The twenty bytes of the digest. -/
def digest (message : List UInt8) : List UInt8 :=
  let s := (blocks message).foldl compress initial
  [s.a, s.b, s.c, s.d, s.e].flatMap wordBytes

/-- The digest as forty hexadecimal digits. -/
def hexDigest (message : List UInt8) : String :=
  hex (digest message)

end BlockCircuit.Digest.Sha1
