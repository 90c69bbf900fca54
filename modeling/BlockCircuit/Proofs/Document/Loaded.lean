import BlockCircuit.Proofs.Check.Order
import BlockCircuit.Proofs.Compilation.Accepted
import BlockCircuit.Proofs.Document.Keyed
import BlockCircuit.Proofs.Verilog.Hierarchy

/-!
# Projects that are loaded from documents

Some of what is known of compilation asks for tables of dependencies with one entry for each type
name, since a second entry would never be found. A document cannot ask for anything else: whatever
is loaded from it has such tables. So for documents all this holds without the condition.

* `IsLoaded` — the project is loaded from a document, given as a text or as a value;
* `IsLoaded.elaborate_written` — the text of an accepted document has the modules that make the tree
  of instances of its project;
* `IsLoaded.nodup_names_iff` — when the modules of this text have distinct names;
* `IsLoaded.compiles_iff` — whether a document is accepted does not depend on the order of blocks,
  wires and dependencies.
-/

namespace BlockCircuit

open Verilog

/-- The project is loaded from a document. -/
inductive Project.IsLoaded (p : Project) : Prop
  | ofText {source : String} : Project.ofText source = .ok p → IsLoaded p
  | ofValue {value : Json.Value} : Project.ofValue value = .ok p → IsLoaded p

namespace Project.IsLoaded

variable {s : Sanitizer} {name text : String} {p q : Project}

/-- A project that is loaded has one entry for each type name. -/
theorem keyed (hload : p.IsLoaded) : p.Keyed := by
  cases hload with
  | ofText h => exact keyed_of_ofText h
  | ofValue h => exact keyed_of_ofValue h

/-- The modules in the text of an accepted document make the tree of instances of its project, if
the tokens of its type names can be told apart, no circuit is trivial and no code is empty. -/
theorem elaborate_written (hload : p.IsLoaded)
    (htext : (compileCircuit s true name p).result = .ok text) (hcodeType : ¬p.TypeName codeType)
    (htokens : s.Separates {t | t = codeType ∨ p.TypeName t})
    (hbody : ∀ path q, p.Reaches path q → q.graph.wires ≠ [] ∨ q.graph.instanceBlocks ≠ [])
    (hcode : ∀ path q, p.Reaches path q → "" ∉ q.graph.codeTexts) :
    ∃ modules design, text = render modules ∧
      elaborate (written modules) name = some design ∧ p.expand s = some design := by
  obtain ⟨hok, rfl⟩ := compileCircuit_strict_eq_ok_iff.1 htext
  have hnd : ((treeModules s name p).map (·.name)).Nodup :=
    nodup_names_treeModules hload.keyed hcodeType
      (fun path q hq => (Check.wellFormed_of_isOk hok hq).code) htokens
  obtain ⟨design, helaborate, hexpand⟩ := elaborate_treeModules hok hnd hbody hcode
  exact ⟨_, design, rfl, helaborate, hexpand⟩

/-- The modules in the text of an accepted document have distinct names exactly when no circuit has a
code block beside a dependency that is named like the type of code blocks. -/
theorem nodup_names_iff (hload : p.IsLoaded)
    (htext : (compileCircuit s true name p).result = .ok text)
    (htokens : s.Separates {t | t = codeType ∨ p.TypeName t}) :
    ∃ modules, text = render modules ∧
      ((modules.map (·.name)).Nodup ↔
        ∀ path q, p.Reaches path q → codeType ∈ q.deps.map Prod.fst →
          ∀ b ∈ q.graph.blocks, b.kind.isCode = false) := by
  obtain ⟨hok, rfl⟩ := compileCircuit_strict_eq_ok_iff.1 htext
  exact ⟨_, rfl, nodup_names_iff_of_isOk hok hload.keyed htokens⟩

/-- A document compiles with checks exactly when one does that gives the same circuits in another
order. -/
theorem compiles_iff (hload : p.IsLoaded) (h : Rearranged p q) :
    (∃ text, (compileCircuit s true name p).result = .ok text) ↔
      ∃ text, (compileCircuit s true name q).result = .ok text := by
  simp only [compileCircuit_strict_eq_ok_iff, exists_and_left, exists_eq, and_true]
  exact ⟨isOk_of_rearranged hload.keyed h, isOk_of_rearranged (h.keyed hload.keyed) h.symm⟩

end Project.IsLoaded

end BlockCircuit
