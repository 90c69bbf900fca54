import BlockCircuit.Digest.Sha1
import BlockCircuit.Text.Bytes

/-!
# Identifiers for circuit names

Block ids and type names are free text, but an identifier must not contain `-`. A name that does
is replaced by a token: the letter `v` and the first six characters of a digest of the name. The
digest is a parameter, SHA-1 unless another one is given.
-/

namespace BlockCircuit

/-- How names become identifiers: a digest of the bytes of a name. -/
structure Sanitizer where
  digest : List UInt8 → String

namespace Sanitizer

/-- The number of characters a token keeps of the digest. -/
def tokenLength : Nat := 6

/-- Tokens from SHA-1. -/
def sha1 : Sanitizer where
  digest := Digest.Sha1.hexDigest

instance : Inhabited Sanitizer := ⟨sha1⟩

/-- The identifier that stands for a name, whatever the name holds. A digest that is shorter than
a token is taken whole. -/
def token (s : Sanitizer) (name : String) : String :=
  String.ofList ('v' :: (s.digest (Text.toBytes name)).toList.take tokenLength)

/-- The identifier of a block or a port: its name, unless that contains a hyphen. -/
def ident (s : Sanitizer) (name : String) : String :=
  if '-' ∈ name.toList then s.token name else name

/-- The identifier of a name; with `force` every name becomes a token. -/
def sanitize (s : Sanitizer) (name : String) (force : Bool) : String :=
  if force then s.token name else s.ident name

/-- The name of the module that stands for `typeName` inside the module `parent`. -/
def childName (s : Sanitizer) (parent typeName : String) : String :=
  parent ++ "_" ++ s.token typeName

/-- A name without a hyphen is its own identifier. -/
theorem ident_of_notMem {s : Sanitizer} {name : String} (h : '-' ∉ name.toList) :
    s.ident name = name := by
  simp [ident, h]

/-- A name with a hyphen becomes a token. -/
theorem ident_of_mem {s : Sanitizer} {name : String} (h : '-' ∈ name.toList) :
    s.ident name = s.token name := by
  simp [ident, h]

end Sanitizer

end BlockCircuit
