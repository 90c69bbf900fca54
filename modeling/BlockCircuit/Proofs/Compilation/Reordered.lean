import BlockCircuit.Proofs.Compilation.Dependencies
import BlockCircuit.Proofs.Project.Rearranged

/-!
# Dependencies in another order

While a tree is written, the types above the current circuit are kept, and the first cycle ends the
work. So whether a dependency is written could depend on those that come before it. But what is kept
while one dependency is written is dropped again before the next one, and whether some path repeats a
type name has nothing to do with order. With the dependencies of every circuit in an order of their own,
a project compiles as before, and to the same modules in another order.

* `Reordered` — two projects that differ only in the order of their dependencies, at every level;
* `Rearranged.acyclic` — whether there is a cycle does not depend on the order of a document;
* `treeModules_perm` — the modules of a tree are the same, in some order;
* `compileCircuit_reordered` — both together for compilation without checks.
-/

namespace BlockCircuit

variable {s : Sanitizer} {name : String} {ancestors : List String} {p q : Project}

namespace Project

mutual

/-- Two projects have the same graph, and the same dependencies in another order, whose own
dependencies are in another order in turn. -/
inductive Reordered : Project → Project → Prop
  | mk {graph : Graph} {deps between deps' : List (String × Project)} :
      deps.Perm between → ReorderedBelow between deps' → Reordered ⟨graph, deps⟩ ⟨graph, deps'⟩

/-- Two tables have the same type names in the same order, and the definitions under each of them
differ only in the order of their dependencies. -/
inductive ReorderedBelow : List (String × Project) → List (String × Project) → Prop
  | nil : ReorderedBelow [] []
  | cons {t : String} {p q : Project} {deps deps' : List (String × Project)} :
      Reordered p q → ReorderedBelow deps deps' → ReorderedBelow ((t, p) :: deps) ((t, q) :: deps')

end

theorem Reordered.refl (p : Project) : Reordered p p := by
  refine @Project.induction (fun p => Reordered p p) (fun deps => ReorderedBelow deps deps)
    ?mk ?nil ?cons p
  case mk => exact fun graph deps hdeps => .mk (.refl deps) hdeps
  case nil => exact .nil
  case cons => exact fun t p deps hp hdeps => .cons hp hdeps

/-- Dependencies in another order are one way to differ in order. -/
theorem Reordered.rearranged (h : Reordered p q) : Rearranged p q := by
  refine @Reordered.rec (fun p q _ => Rearranged p q) (fun deps deps' _ => RearrangedDeps deps deps')
    ?mk ?nil ?cons p q h
  case mk =>
    intro graph deps between deps' hperm _ hbelow
    exact .mk (.refl _) (.refl _) (.trans (.of_perm hperm) hbelow)
  case nil => exact .nil
  case cons => exact fun _ _ hp hdeps => .cons hp hdeps

theorem Reordered.graph_eq (h : Reordered p q) : p.graph = q.graph := by
  cases h
  rfl

/-- Whether a type is used inside its own definition does not depend on the order of a document. -/
theorem Rearranged.acyclic (h : Rearranged p q) (hp : p.Acyclic ancestors) : q.Acyclic ancestors := by
  intro path r hr
  obtain ⟨r', hr', -⟩ := h.symm.exists_reaches hr
  exact hp path r' hr'

theorem Rearranged.acyclic_iff (h : Rearranged p q) : p.Acyclic ancestors ↔ q.Acyclic ancestors :=
  ⟨h.acyclic, h.symm.acyclic⟩

end Project

open Project (Reordered ReorderedBelow)

namespace Verilog

/-- What is written of a module: its name and its text. -/
def Module.written (m : Module) : String × String :=
  (m.name, m.text)

/-- The modules of a tree whose dependencies are in another order are the same, in some order. -/
theorem treeModules_perm (h : Reordered p q) (name : String) :
    (treeModules s name p).Perm (treeModules s name q) := by
  refine @Reordered.rec
    (fun p q _ => ∀ name, (treeModules s name p).Perm (treeModules s name q))
    (fun deps deps' _ => ∀ name, (depModules s name deps).Perm (depModules s name deps'))
    ?mk ?nil ?cons p q h name
  case mk =>
    intro graph deps between deps' hperm _ ih name
    have horder : (depModules s name deps).Perm (depModules s name between) := by
      rw [depModules_eq_flatMap, depModules_eq_flatMap]
      exact hperm.flatMap_right _
    rw [treeModules, treeModules]
    exact (horder.trans (ih name)).append_right _
  case nil => exact fun _ => .refl _
  case cons =>
    intro t p q deps deps' _ _ ihp ihdeps name
    rw [depModules, depModules]
    exact (ihp _).append (ihdeps name)

/-- The module of the outermost circuit is the last one. -/
theorem getLast?_treeModules (name : String) (p : Project) :
    (treeModules s name p).getLast? = some (circuitModule s name p.graph) := by
  rw [treeModules_eq, graphModules, ← List.append_assoc, List.getLast?_concat]

end Verilog

open Verilog

/-- Let two projects differ only in the order of their dependencies, at any level. Then compilation
without checks succeeds for both of them or for none. If it does, the two texts are made of lists of
modules in which the same names have the same texts, in some order, and the module of the outermost
circuit, which is the same, comes last in both. -/
theorem compileCircuit_reordered (h : Reordered p q) :
    ((∃ text, (compileCircuit s false name p).result = .ok text) ↔
        ∃ text, (compileCircuit s false name q).result = .ok text) ∧
      ∀ text text', (compileCircuit s false name p).result = .ok text →
        (compileCircuit s false name q).result = .ok text' →
          ∃ modules modules' top, (emit s name [] p).result = .ok modules ∧
            (emit s name [] q).result = .ok modules' ∧
            text = render modules ∧ text' = render modules' ∧
            (modules.map Module.written).Perm (modules'.map Module.written) ∧
            modules.getLast? = some top ∧ modules'.getLast? = some top ∧ top.name = name := by
  have hacyclic : p.Acyclic [] ↔ q.Acyclic [] := h.rearranged.acyclic_iff
  constructor
  · simp only [compileCircuit_lenient_eq_ok_iff, exists_and_left, exists_eq', and_true, hacyclic]
  · intro text text' htext htext'
    obtain ⟨-, hp, rfl⟩ := compileCircuit_lenient_eq_ok_iff.1 htext
    obtain ⟨-, hq, rfl⟩ := compileCircuit_lenient_eq_ok_iff.1 htext'
    refine ⟨_, _, circuitModule s name p.graph, congrArg Logged.result (emit_of_acyclic hp),
      congrArg Logged.result (emit_of_acyclic hq), rfl, rfl, ?_, getLast?_treeModules name p, ?_, rfl⟩
    · exact (treeModules_perm h name).map _
    · rw [h.graph_eq]
      exact getLast?_treeModules name q

/-- A circuit with three dependencies, one of which has dependencies of its own. -/
def Project.rack : Project where
  graph := { blocks := [.compound "top" "latch", .compound "bottom" "drawer"] }
  deps := [("latch", .latch), ("drawer", { deps := [("bell", .alarm), ("latch", .latch)] }),
    ("siren", .alarm)]

/-- The same with the dependencies of both circuits in another order. -/
def Project.turnedRack : Project where
  graph := Project.rack.graph
  deps := [("drawer", { deps := [("latch", .latch), ("bell", .alarm)] }), ("siren", .alarm),
    ("latch", .latch)]

theorem Project.reordered_rack : Reordered .rack .turnedRack := by
  have hdrawer : Reordered { deps := [("bell", .alarm), ("latch", .latch)] }
      { deps := [("latch", .latch), ("bell", .alarm)] } :=
    .mk (.swap ..) (.cons (.refl _) (.cons (.refl _) .nil))
  have horder : Project.rack.deps.Perm
      [("drawer", { deps := [("bell", .alarm), ("latch", .latch)] }), ("siren", .alarm),
        ("latch", .latch)] :=
    .trans (.swap ..) (.cons _ (.swap ..))
  exact .mk horder (.cons hdrawer (.cons (.refl _) (.cons (.refl _) .nil)))

/-- Both compile, to the same twelve modules in another order. -/
theorem compileCircuit_reordered_rack :
    Reordered .rack .turnedRack ∧
      ∃ modules modules', (emit .sha1 "main" [] .rack).result = .ok modules ∧
        (emit .sha1 "main" [] .turnedRack).result = .ok modules' ∧
        modules.length = 12 ∧
          (modules.map Module.written).Perm (modules'.map Module.written) := by
  have hacyclic : Project.rack.Acyclic [] := by decide
  have htext : (compileCircuit .sha1 false "main" .rack).result =
      .ok (render (treeModules .sha1 "main" .rack)) :=
    compileCircuit_lenient_eq_ok_iff.2 ⟨by decide, hacyclic, rfl⟩
  obtain ⟨hiff, hmodules⟩ :=
    @compileCircuit_reordered .sha1 "main" _ _ Project.reordered_rack
  obtain ⟨text', htext'⟩ := hiff.1 ⟨_, htext⟩
  obtain ⟨modules, modules', -, hemit, hemit', -, -, hperm, -⟩ := hmodules _ _ htext htext'
  cases eq_treeModules_of_emit hemit
  exact ⟨Project.reordered_rack, _, modules', hemit, hemit', rfl, hperm⟩

end BlockCircuit
