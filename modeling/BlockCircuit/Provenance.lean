import BlockCircuit.Digest.Sha256
import BlockCircuit.Json.Printer
import BlockCircuit.Text.Bytes

/-!
# Provenance

A provenance record ties the results of a compilation to the document they were made from, by the
SHA-256 digests of the texts. It is written as a JSON document.
-/

namespace BlockCircuit

/-- The version of this compiler. -/
def compilerVersion : String := "0.2.0"

/-- Where the results of a compilation come from. -/
structure Provenance where
  top : String
  sourceHash : String
  verilogHash : String
  /-- Absent when there are no pin constraints. -/
  pcfHash : Option String
  compilerVersion : String
deriving DecidableEq, Repr

namespace Provenance

/-- The digest of a text. -/
def hash (text : String) : String :=
  Digest.Sha256.hexDigest (Text.toBytes text)

/-- The record of results made from a document. -/
def compute (source top verilog : String) (pcf : Option String) : Provenance where
  top := top
  sourceHash := hash source
  verilogHash := hash verilog
  pcfHash := pcf.map hash
  compilerVersion := BlockCircuit.compilerVersion

/-- The record as a JSON value. -/
def toValue (p : Provenance) : Json.Value :=
  .object
    [("top", .string p.top),
     ("source_hash", .string p.sourceHash),
     ("verilog_hash", .string p.verilogHash),
     ("pcf_hash", (p.pcfHash.map Json.Value.string).getD .null),
     ("compiler_version", .string p.compilerVersion)]

/-- The record as a JSON document that ends with a line break. -/
def toJson (p : Provenance) : String :=
  p.toValue.pretty ++ "\n"

end Provenance

end BlockCircuit
