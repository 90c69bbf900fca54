import BlockCircuit.Document.Load
import BlockCircuit.Proofs.Document.Readings
import BlockCircuit.Proofs.Json.Spelling

/-!
# Loading from text and from values

A project may be loaded from the text of a document or from its value. Both come to the same, for every
text of a value that is not nested too deeply for the reader.

* `toOption_ofText` — what a text comes to is what its value comes to;
* `ofText_agrees_with_ofValue` — the same project, or an error on both ways.
-/

namespace BlockCircuit.Project

/-- The project of a text is that of the value it is a text of, unless there is none. -/
theorem toOption_ofText {v : Json.Value} {source : String} (htext : Json.IsTextOf v source.toList)
    (hdepth : v.depth ≤ maxDepth) : (ofText source).toOption = (ofValue v).toOption := by
  obtain ⟨after, hvalue, hend⟩ := htext.valueRead (π := Document.Problem) hdepth
  have hread := Document.readsAsValues_ofText maxDepth (Json.scanned_readValue_iff.2 hvalue)
    (.record .project)
  rw [ofText, ofValue]
  cases hproject : Document.ofValue v (.record .project) with
  | error problem =>
    rw [hproject] at hread
    obtain ⟨f, hf⟩ := Json.scanned_eq_none_iff.1 hread
    dsimp only
    rw [hf]
    rfl
  | ok p =>
    rw [hproject] at hread
    obtain ⟨hshorter, hp⟩ := Json.scanned_eq_some_iff.1 hread
    have hwhole : Json.atEnd (π := Document.Problem) ⟨p, after, hshorter⟩ = .ok p := by
      rw [Json.atEnd]
      dsimp only
      rw [hend]
    dsimp only
    rw [hp]
    dsimp only
    rw [hwhole]

/-- Loading a text and loading its value agree: either both yield the same project, or both fail with
the error of a malformed project. A value has many texts, with any blanks and any escapes; its keys may
even be repeated. -/
theorem ofText_agrees_with_ofValue {v : Json.Value} {source : String}
    (htext : Json.IsTextOf v source.toList) (hdepth : v.depth < 128) :
    (∃ p, ofText source = .ok p ∧ ofValue v = .ok p) ∨
      ∃ e e', ofText source = .error e ∧ ofValue v = .error e' ∧
        e.toCompileError = .malformedProject e.message ∧
          e'.toCompileError = .malformedProject e'.message := by
  have hagree := toOption_ofText htext (Nat.le_of_lt_succ hdepth)
  cases hloaded : ofText source with
  | ok p =>
    cases hvalue : ofValue v with
    | ok p' =>
      rw [hloaded, hvalue] at hagree
      cases hagree
      exact .inl ⟨p, rfl, rfl⟩
    | error e' =>
      rw [hloaded, hvalue] at hagree
      cases hagree
  | error e =>
    cases hvalue : ofValue v with
    | ok p =>
      rw [hloaded, hvalue] at hagree
      cases hagree
    | error e' => exact .inr ⟨e, e', rfl, rfl, rfl, rfl⟩

/-! ### A sample -/

/-- A project of one input on pin 7, with most of its records written as arrays. -/
def sampleValue : Json.Value :=
  .object [("graph", .array [
    .array [.array [.string "a", .string "basic.input", .array [.array [.null, .number (.integer 7)]]]],
    .array []])]

/-- A text of it, with blanks and an escape. -/
def sampleText : String :=
  " \x7b\"graph\": [[[\"\\u0061\", \"basic.input\", [[null, 7]]]], []]\x7d\n"

theorem isTextOf_sample : Json.IsTextOf sampleValue sampleText.toList := by
  have hblank : Json.Blanks [' '] := by decide
  have hfirst : Json.Separator true [] := .first Json.blanks_nil
  have hcomma : Json.Separator false [',', ' '] := .comma Json.blanks_nil hblank
  have hcode : Json.hexQuad? '0' '0' '6' '1' = some 'a'.toNat := by decide
  have hid : Json.SpellsString "a" _ := .quoted (.cons (.code hcode) .nil)
  have htype : Json.SpellsString "basic.input" _ := Json.spellsString_self (by decide)
  have hkey : Json.SpellsString "graph" _ := Json.spellsString_self (by decide)
  have hseven : Json.Numeral (.integer 7) ['7'] := by decide
  have hpin := Json.Spells.array (.cons hfirst .null (.cons hcomma (.number hseven) .nil))
    Json.blanks_nil
  have hdata := Json.Spells.array (.cons hfirst hpin .nil) Json.blanks_nil
  have hblock := Json.Spells.array
    (.cons hfirst (.string hid) (.cons hcomma (.string htype) (.cons hcomma hdata .nil)))
    Json.blanks_nil
  have hblocks := Json.Spells.array (.cons hfirst hblock .nil) Json.blanks_nil
  have hwires := Json.Spells.array .nil Json.blanks_nil
  have hgraph := Json.Spells.array (.cons hfirst hblocks (.cons hcomma hwires .nil)) Json.blanks_nil
  have hproject := Json.Spells.object (.cons hfirst hkey Json.blanks_nil hblank hgraph .nil)
    Json.blanks_nil
  exact .spelled hblank hproject (by decide : Json.Blanks ['\n'])

/-- The text of the sample is loaded as its value is. -/
theorem ofText_agrees_on_sample :
    Json.IsTextOf sampleValue sampleText.toList ∧ sampleValue.depth < 128 ∧
      ofText sampleText = .ok ⟨⟨[⟨"a", .input (some ⟨none, "7"⟩)⟩], []⟩, []⟩ := by
  have hdepth : sampleValue.depth < 128 := by decide
  have hvalue : ofValue sampleValue = .ok ⟨⟨[⟨"a", .input (some ⟨none, "7"⟩)⟩], []⟩, []⟩ := rfl
  rcases ofText_agrees_with_ofValue isTextOf_sample hdepth with ⟨p, htext, hp⟩ | ⟨_, _, _, hfail, _⟩
  · cases hvalue.symm.trans hp
    exact ⟨isTextOf_sample, hdepth, htext⟩
  · cases hvalue.symm.trans hfail

end BlockCircuit.Project
