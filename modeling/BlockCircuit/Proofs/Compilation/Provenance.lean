import BlockCircuit.Proofs.Json.Printing
import BlockCircuit.Provenance

/-!
# Provenance records are read back

A provenance record is kept beside the results of a compilation, so that it can be asked later what
they were made from. The digests in it are harmless to write, but the name of the outermost module comes
from outside and may be any text: one with a quote or a line break in it must not end the string early,
and must come back as it was.

* `not_hasNumber_toValue` — a record is written without numbers, so nothing hangs on how these are
  printed;
* `spells_pretty_toValue` — a record is written as one JSON document;
* `toJson_reads_back` — the document stands for the fields of the record, in order, and for nothing
  else;
* `toJson_injective` — two records are never written alike.
-/

namespace BlockCircuit.Provenance

open Json (Blanks IsTextOf Spells Value)

theorem not_hasNumber_toValue (p : Provenance) (n : Json.Number) : ¬ p.toValue.HasNumber n := by
  intro h
  cases h with
  | @member key v _ hmem hn =>
    simp only [List.mem_cons, Prod.mk.injEq, List.not_mem_nil, or_false] at hmem
    rcases hmem with ⟨-, rfl⟩ | ⟨-, rfl⟩ | ⟨-, rfl⟩ | ⟨-, rfl⟩ | ⟨-, rfl⟩
    case inr.inr.inr.inl =>
      cases hpcf : p.pcfHash with
      | none =>
        rw [hpcf] at hn
        cases hn
      | some digest =>
        rw [hpcf] at hn
        cases hn
    all_goals cases hn

theorem spells_pretty_toValue (p : Provenance) : Spells p.toValue p.toValue.pretty.toList :=
  Json.spells_pretty fun n hn => absurd hn (p.not_hasNumber_toValue n)

theorem isTextOf_toJson (p : Provenance) : IsTextOf p.toValue p.toJson.toList := by
  have hbreak : Blanks "\n".toList := by decide
  have htext := IsTextOf.spelled Json.blanks_nil p.spells_pretty_toValue hbreak
  rw [List.nil_append, ← String.toList_append] at htext
  exact htext

/-- What is written of a record is a document and one line break. The document is a text of the object
that holds the fields of the record in their order, whatever characters are in them, and has null for
the digest of the pin constraints if and only if the record has none. This is what the reader of values
makes of it, and all that any reader could make of it. -/
theorem toJson_reads_back (p : Provenance) :
    ∃ (document : String) (pcf : Value),
      let record : Value := .object
        [("top", .string p.top),
         ("source_hash", .string p.sourceHash),
         ("verilog_hash", .string p.verilogHash),
         ("pcf_hash", pcf),
         ("compiler_version", .string p.compilerVersion)]
      p.toJson = document ++ "\n" ∧ document.toList.getLast? = some '\x7d' ∧
        Spells record document.toList ∧
        Json.parse p.toJson = .ok record ∧ (∀ v, IsTextOf v p.toJson.toList ↔ v = record) ∧
        (pcf = .null ↔ p.pcfHash = none) ∧
        ∀ digest, pcf = .string digest ↔ p.pcfHash = some digest := by
  have htext := p.isTextOf_toJson
  refine ⟨p.toValue.pretty, (p.pcfHash.map Value.string).getD .null, rfl, ?last,
    p.spells_pretty_toValue, htext.parse, ?only, ?absent, ?present⟩
  case last =>
    have hspells := p.spells_pretty_toValue
    generalize p.toValue.pretty.toList = w at hspells
    cases hspells with
    | object => rw [← List.cons_append, List.getLast?_concat]
  case only =>
    intro v
    constructor
    · intro hv
      exact hv.unique htext
    · rintro rfl
      exact htext
  case absent => cases p.pcfHash <;> simp
  case present =>
    intro digest
    cases p.pcfHash <;> simp

theorem toValue_injective : Function.Injective toValue := by
  rintro ⟨top, source, verilog, pcf, version⟩ ⟨top', source', verilog', pcf', version'⟩ h
  cases pcf <;> cases pcf' <;> simp_all [toValue]

/-- Two records that are written alike are the same record. -/
theorem toJson_injective : Function.Injective toJson := by
  intro p q hpq
  have hq := q.isTextOf_toJson
  rw [← hpq] at hq
  exact toValue_injective (p.isTextOf_toJson.unique hq)

end BlockCircuit.Provenance
