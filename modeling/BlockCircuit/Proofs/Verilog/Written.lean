import BlockCircuit.Proofs.Project.ModuleName
import BlockCircuit.Proofs.Project.Tree
import BlockCircuit.Proofs.Verilog.Modules

/-!
# Modules that are written out

A module without a name or without a body has no text, so nothing of it is written. The body of a
circuit has a text unless there is neither a wire nor an instance.

* `text_bodyOf_eq_empty_iff` — when the body of a circuit has no text;
* `mem_graphModules_iff`, `mem_treeModules_iff` — each module of a tree belongs to one circuit of it,
  and is that of a code block or of the circuit itself;
* `written_treeModules` — if no circuit is trivial and no code is empty, all modules are written.
-/

namespace BlockCircuit

/-- The texts of the code blocks of a circuit. -/
def Graph.codeTexts (g : Graph) : List String :=
  g.blocks.filterMap fun b =>
    match b.kind with
    | .code _ text => some text
    | _ => none

namespace Verilog

variable {s : Sanitizer} {p : Project} {g : Graph} {m : Module} {name circuit : String}

/-- The modules of which there is something in the text of the list. -/
def written (modules : List Module) : List Module :=
  modules.filter (·.text ≠ "")

/-! ## Texts -/

theorem moduleText_eq_empty_iff {ports : Ports} {body : String} :
    moduleText name ports body = "" ↔ name = "" ∨ body = "" := by
  rw [moduleText]
  split
  · rename_i h
    exact iff_of_true rfl h
  · rename_i h
    refine iff_of_false ?_ h
    simp [String.append_eq_empty_iff]

theorem Module.text_ne_empty_iff : m.text ≠ "" ↔ m.name ≠ "" ∧ m.content.text ≠ "" := by
  rw [Module.text, ne_eq, moduleText_eq_empty_iff, not_or]

/-- Texts that are not empty come to an empty text only if there are none. -/
theorem join_map_eq_empty_iff {α : Type} {f : α → String} (hf : ∀ a, f a ≠ "") {l : List α} :
    String.join (l.map f) = "" ↔ l = [] := by
  cases l with
  | nil => simp
  | cons a l => simp [String.append_eq_empty_iff, hf a]

theorem intercalate_map_eq_empty_iff {α : Type} {separator : String} {f : α → String}
    (hf : ∀ a, f a ≠ "") {l : List α} :
    separator.intercalate (l.map f) = "" ↔ l = [] := by
  rcases l with - | ⟨a, - | ⟨b, l⟩⟩
  · simp
  · simp [hf a]
  · simp [String.append_eq_empty_iff, hf a]

theorem Assignment.text_ne_empty (a : Assignment) : a.text ≠ "" := by
  cases a <;> simp [Assignment.text, String.append_eq_empty_iff]

theorem Instance.text_ne_empty (i : Instance) : i.text ≠ "" := by
  simp [Instance.text, String.append_eq_empty_iff]

/-- Every statement has a text. -/
theorem Body.text_eq_empty_iff {b : Body} :
    b.text = "" ↔ b.nets = [] ∧ b.assignments = [] ∧ b.instances = [] := by
  have hnet (net : Nat) : "wire " ++ netName net ++ ";\n" ≠ "" := by
    simp [String.append_eq_empty_iff]
  rw [Body.text, String.append_eq_empty_iff, String.append_eq_empty_iff,
    join_map_eq_empty_iff hnet, join_map_eq_empty_iff Assignment.text_ne_empty,
    intercalate_map_eq_empty_iff Instance.text_ne_empty, and_assoc]

/-- The body of a circuit has a text if there is a wire or an instance. -/
theorem text_bodyOf_eq_empty_iff :
    (bodyOf s circuit g).text = "" ↔ g.wires = [] ∧ g.instanceBlocks = [] := by
  rw [Body.text_eq_empty_iff, bodyOf]
  constructor
  · rintro ⟨hnets, -, hinstances⟩
    exact ⟨by simpa using hnets, List.map_eq_nil_iff.1 hinstances⟩
  · rintro ⟨hwires, hinstances⟩
    simp [hwires, hinstances]

theorem render_cons_cons (m c : Module) (modules : List Module) :
    render (m :: c :: modules) = m.text ++ "\n" ++ render (c :: modules) := by
  rw [render, List.map_cons, List.map_cons, String.intercalate_cons_cons]
  rfl

/-- The text of a list of modules has the text of each of them in it. -/
theorem exists_render_eq_of_mem {modules : List Module} (hm : m ∈ modules) :
    ∃ before after, render modules = before ++ m.text ++ after := by
  induction modules with
  | nil => exact absurd hm List.not_mem_nil
  | cons c modules ih =>
    cases modules with
    | nil =>
      rw [List.mem_singleton.1 hm]
      exact ⟨"", "", by simp [render]⟩
    | cons d modules =>
      rw [render_cons_cons]
      rcases List.mem_cons.1 hm with rfl | hm
      · exact ⟨"", "\n" ++ render (d :: modules), by rw [String.empty_append, String.append_assoc]⟩
      · obtain ⟨before, after, hrender⟩ := ih hm
        refine ⟨c.text ++ "\n" ++ before, after, ?_⟩
        rw [hrender]
        simp only [String.append_assoc]

/-! ## The modules of a tree -/

theorem moduleName_ne_empty (hname : name ≠ "") (path : List String) :
    moduleName s name path ≠ "" := by
  induction path generalizing name with
  | nil => exact hname
  | cons t path ih => exact ih (s.childName_ne_empty name t)

/-- The modules of one circuit are those of its code blocks and that of the circuit itself. -/
theorem mem_graphModules_iff :
    m ∈ graphModules s name g ↔
      (∃ id ports text, .code id ports text ∈ g.blocks ∧
        m = ⟨s.childName name codeType, ports, .code text⟩) ∨ m = circuitModule s name g := by
  rw [graphModules, List.mem_append, List.mem_singleton, List.mem_filterMap]
  refine or_congr_left ⟨?_, ?_⟩
  · rintro ⟨⟨id, kind⟩, hb, hmodule⟩
    cases kind with
    | code ports text =>
      cases hmodule
      exact ⟨id, ports, text, hb, rfl⟩
    | input | output | compound => cases hmodule
  · rintro ⟨id, ports, text, hb, rfl⟩
    exact ⟨_, hb, rfl⟩

/-- The modules of a tree are those of its circuits, each named after the path to it. -/
theorem mem_treeModules_iff :
    m ∈ treeModules s name p ↔
      ∃ path q, p.Reaches path q ∧ m ∈ graphModules s (moduleName s name path) q.graph := by
  induction p using Project.induction_deps generalizing name with
  | step p ih =>
    rw [treeModules_eq, List.mem_append, List.mem_flatMap]
    constructor
    · rintro (⟨⟨t, dep⟩, hdep, hm⟩ | hm)
      · obtain ⟨path, q, hq, hm⟩ := (ih t dep hdep).1 hm
        exact ⟨t :: path, q, .through hdep hq, hm⟩
      · exact ⟨[], p, .here p, hm⟩
    · rintro ⟨path, q, hq, hm⟩
      cases hq with
      | here => exact .inr hm
      | @through _ dep _ t path hdep hq =>
        exact .inl ⟨(t, dep), hdep, (ih t dep hdep).2 ⟨path, q, hq, hm⟩⟩

theorem circuitModule_mem_of_reaches {path : List String} {q : Project} (hq : p.Reaches path q) :
    circuitModule s (moduleName s name path) q.graph ∈ treeModules s name p :=
  mem_treeModules_iff.2 ⟨path, q, hq, mem_graphModules_iff.2 (.inr rfl)⟩

/-- A module of a tree that stands for a circuit is the one of a circuit of the tree. -/
theorem exists_reaches_of_circuit {body : Body} (hm : m ∈ treeModules s name p)
    (hbody : m.content = .circuit body) :
    ∃ path q, p.Reaches path q ∧ m = circuitModule s (moduleName s name path) q.graph := by
  obtain ⟨path, q, hq, hm⟩ := mem_treeModules_iff.1 hm
  refine ⟨path, q, hq, ?_⟩
  rcases mem_graphModules_iff.1 hm with ⟨id, ports, text, -, rfl⟩ | hcircuit
  · cases hbody
  · exact hcircuit

/-- The modules of a circuit are written, if it is not trivial and its code is not empty. -/
theorem text_ne_empty_of_mem_graphModules (hname : name ≠ "")
    (hbody : g.wires ≠ [] ∨ g.instanceBlocks ≠ []) (hcode : "" ∉ g.codeTexts)
    (hm : m ∈ graphModules s name g) : m.text ≠ "" := by
  rw [Module.text_ne_empty_iff]
  rcases mem_graphModules_iff.1 hm with ⟨id, ports, text, hb, rfl⟩ | rfl
  · refine ⟨s.childName_ne_empty name codeType, ?_⟩
    rintro rfl
    exact hcode (List.mem_filterMap.2 ⟨_, hb, rfl⟩)
  · refine ⟨hname, ?_⟩
    show (bodyOf s name g).text ≠ ""
    rwa [ne_eq, text_bodyOf_eq_empty_iff, not_and_or]

/-- All modules of a tree are written, if no circuit is trivial and no code is empty. -/
theorem written_treeModules (hname : name ≠ "")
    (hbody : ∀ path q, p.Reaches path q → q.graph.wires ≠ [] ∨ q.graph.instanceBlocks ≠ [])
    (hcode : ∀ path q, p.Reaches path q → "" ∉ q.graph.codeTexts) :
    written (treeModules s name p) = treeModules s name p := by
  rw [written, List.filter_eq_self]
  intro m hm
  obtain ⟨path, q, hq, hm⟩ := mem_treeModules_iff.1 hm
  have hpath := moduleName_ne_empty (s := s) hname path
  have htext := text_ne_empty_of_mem_graphModules hpath (hbody path q hq) (hcode path q hq) hm
  exact decide_eq_true htext

end Verilog

end BlockCircuit
