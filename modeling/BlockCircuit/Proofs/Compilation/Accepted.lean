import BlockCircuit.Proofs.Compilation.Failure
import BlockCircuit.Proofs.Verilog.Instances
import BlockCircuit.Proofs.Verilog.ModulePaths

/-!
# The modules of accepted projects

With checks, compilation yields a text only for projects that the checks accept. This module is
about what acceptance says of the modules in that text: that every instance has its module, and
that no two modules share a name. Both need a proviso that the checks do not look for.

* `compileCircuit_strict_eq_ok_iff` — the text of an accepted project is that of all its modules;
* `instances_have_modules` — every instance names a module of the text, unless there is nothing to
  write for its block; `instances_of_shell` shows two blocks of this kind;
* `nodup_names_iff_of_strict` — no two modules share a name, unless a code block stands beside a
  dependency that is named like the type of code blocks; `repeated_name_of_shadow` is such a case.
-/

namespace BlockCircuit

open Verilog

variable {s : Sanitizer} {name text : String} {p q : Project} {path : List String}

/-- With checks, compilation yields the text of all modules for the projects that are accepted. -/
theorem compileCircuit_strict_eq_ok_iff :
    (compileCircuit s true name p).result = .ok text ↔
      (checkProject s name p).isOk = true ∧
        text = render (treeModules s name p) := by
  rw [result_compileCircuit_strict, firstErrorOr_eq_ok_iff, Check.isOk_iff_errors,
    eq_comm (b := text)]

/-! ## Instances without a module -/

/-- An instance in a module is that of a block: the module stands for the circuit at the end of a
path, and the block is one of this circuit. -/
structure Verilog.IsInstance (s : Sanitizer) (name : String) (p : Project) (path : List String)
    (q : Project) (b : Block) (c : Module) (i : Instance) : Prop where
  reaches : p.Reaches path q
  circuit : c = circuitModule s (moduleName s name path) q.graph
  block : b ∈ q.graph.instanceBlocks
  ofBlock : i = instanceOf s (moduleName s name path) q.graph.wires b

/-- Every instance in the modules of a tree is that of a block. -/
theorem exists_isInstance {c : Module} {i : Instance} (hc : c ∈ treeModules s name p)
    (hi : i ∈ c.instances) : ∃ path q b, IsInstance s name p path q b c i := by
  obtain ⟨module, ports, content⟩ := c
  cases content with
  | code text => exact absurd hi List.not_mem_nil
  | circuit body =>
    obtain ⟨path, q, hq, hcircuit⟩ := exists_reaches_of_circuit hc rfl
    rw [hcircuit] at hi
    obtain ⟨b, hb, rfl⟩ := List.mem_map.1 hi
    exact ⟨path, q, b, hq, hcircuit, hb, rfl⟩

/-- In the text of an accepted project, every instance names a module that is written there, unless
there is nothing to write for the block of the instance. -/
theorem instances_have_modules (htext : (compileCircuit s true name p).result = .ok text) :
    ∃ modules, (emit s name [] p).result = .ok modules ∧ text = render modules ∧
      ∀ c ∈ modules, ∀ i ∈ c.instances,
        (∃ path q b, IsInstance s name p path q b c i) ∧
          ∀ path q b, IsInstance s name p path q b c i → ¬Hollow q.deps b.kind →
            ∃ m ∈ written modules, m.name = i.module ∧
              ∃ before after, text = before ++ m.text ++ after := by
  obtain ⟨hok, rfl⟩ := compileCircuit_strict_eq_ok_iff.1 htext
  refine ⟨_, result_emit_of_isOk hok, rfl, fun c hc i hi => ⟨exists_isInstance hc hi, ?_⟩⟩
  rintro path q b ⟨hq, -, hb, rfl⟩ hkind
  obtain ⟨m, hm, hmodule⟩ := exists_moduleOf s name hq (Check.wellFormed_of_isOk hok hq) hb
  have htext : m.text ≠ "" :=
    (hmodule.text_ne_empty_iff (Check.name_ne_empty_of_isOk hok)).2 hkind
  exact ⟨m, List.mem_filter.2 ⟨hm, decide_eq_true htext⟩, (hmodule.module_instanceOf _).symm,
    exists_render_eq_of_mem hm⟩

/-- The checks accept the small tree. -/
theorem compileCircuit_alarm :
    (compileCircuit .sha1 true "main" .alarm).result =
      .ok (render (treeModules .sha1 "main" .alarm)) :=
  compileCircuit_strict_eq_ok_iff.2 ⟨by decide, rfl⟩

/-- The instance of a compound block. -/
theorem instances_of_alarm :
    ∃ text modules i, (compileCircuit .sha1 true "main" .alarm).result = .ok text ∧
      (emit .sha1 "main" [] .alarm).result = .ok modules ∧
        i ∈ (circuitModule .sha1 "main" Project.alarm.graph).instances ∧ i.name = "memory" ∧
          ∃ m ∈ written modules, m.name = i.module ∧
            ∃ before after, text = before ++ m.text ++ after := by
  have hkind : ¬Hollow Project.alarm.deps (.compound "latch") := by
    intro h
    cases h with
    | compound hdep hwires =>
      cases hdep
      cases hwires
  have hi : IsInstance .sha1 "main" .alarm [] .alarm (.compound "memory" "latch")
      (circuitModule .sha1 "main" Project.alarm.graph)
      (instanceOf .sha1 "main" Project.alarm.graph.wires (.compound "memory" "latch")) :=
    ⟨.here _, rfl, by decide, rfl⟩
  obtain ⟨modules, hemit, -, hinstances⟩ := instances_have_modules compileCircuit_alarm
  have hmodules : treeModules .sha1 "main" .alarm = modules :=
    Except.ok.inj ((result_emit_of_isOk (by decide)).symm.trans hemit)
  have hc : circuitModule .sha1 "main" Project.alarm.graph ∈ modules :=
    hmodules ▸ circuitModule_mem_of_reaches hi.reaches
  have hmem : instanceOf .sha1 "main" Project.alarm.graph.wires (.compound "memory" "latch") ∈
      (circuitModule .sha1 "main" Project.alarm.graph).instances :=
    List.mem_map_of_mem hi.block
  obtain ⟨-, hwritten⟩ := hinstances _ hc _ hmem
  exact ⟨_, modules, _, compileCircuit_alarm, hemit, hmem, rfl, hwritten _ _ _ hi hkind⟩

/-- A circuit with a code block without code, and with a use of an empty circuit. -/
def Project.shell : Project where
  graph := { blocks := [.code "c" {} "", .compound "g" "t"] }
  deps := [("t", .ofGraph {})]

/-- The checks accept it, and its text has an instance for each of these blocks, but no module that
either of them names. -/
theorem instances_of_shell :
    (checkProject .sha1 "main" .shell).isOk = true ∧
      ∃ text modules c, (compileCircuit .sha1 true "main" .shell).result = .ok text ∧
        (emit .sha1 "main" [] .shell).result = .ok modules ∧ text = render modules ∧
          c ∈ written modules ∧ c.instances.map (·.name) = ["c", "g"] ∧
            ∀ i ∈ c.instances, ∀ m ∈ written modules, m.name ≠ i.module := by
  have hok : (checkProject .sha1 "main" .shell).isOk = true := by decide
  refine ⟨hok, _, _, circuitModule .sha1 "main" Project.shell.graph,
    compileCircuit_strict_eq_ok_iff.2 ⟨hok, rfl⟩, result_emit_of_isOk hok, rfl, ?_, rfl, ?_⟩
  · decide +kernel
  · decide +kernel

/-! ## Modules of the same name -/

/-- The modules of an accepted project have distinct names exactly when no circuit has a code block
beside a dependency that is named like the type of code blocks. -/
theorem nodup_names_iff_of_isOk (hok : (checkProject s name p).isOk = true) (hkeys : p.Keyed)
    (htokens : s.Separates {t | t = codeType ∨ p.TypeName t}) :
    ((treeModules s name p).map (·.name)).Nodup ↔
      ∀ path q, p.Reaches path q → codeType ∈ q.deps.map Prod.fst →
        ∀ b ∈ q.graph.blocks, b.kind.isCode = false := by
  rw [nodup_names_iff htokens, nodup_modulePaths_iff hkeys]
  constructor
  · intro h path q hq
    exact (h path q hq).2
  · intro h path q hq
    exact ⟨(Check.wellFormed_of_isOk hok hq).code, h path q hq⟩

/-- In the text of an accepted project, no two modules share a name exactly when no circuit has a
code block beside a dependency that is named like the type of code blocks. This supposes that the
tokens of type names can be told apart, and that tables have one entry for each type name. -/
theorem nodup_names_iff_of_strict (htext : (compileCircuit s true name p).result = .ok text)
    (hkeys : p.Keyed) (htokens : s.Separates {t | t = codeType ∨ p.TypeName t}) :
    ∃ modules, (emit s name [] p).result = .ok modules ∧ text = render modules ∧
      ((modules.map (·.name)).Nodup ↔
        ∀ path q, p.Reaches path q → codeType ∈ q.deps.map Prod.fst →
          ∀ b ∈ q.graph.blocks, b.kind.isCode = false) := by
  obtain ⟨hok, rfl⟩ := compileCircuit_strict_eq_ok_iff.1 htext
  exact ⟨_, result_emit_of_isOk hok, rfl, nodup_names_iff_of_isOk hok hkeys htokens⟩

/-- The modules of a circuit, of the circuit that it uses, and of the code of that one. -/
theorem nodup_names_alarm :
    ∃ modules, (emit .sha1 "main" [] .alarm).result = .ok modules ∧
      (modules.map (·.name)).Nodup := by
  obtain ⟨modules, hemit, -, hnames⟩ :=
    nodup_names_iff_of_strict compileCircuit_alarm (by decide) (by decide +kernel)
  exact ⟨modules, hemit, hnames.2 (by decide)⟩

/-- A circuit with a code block, and a dependency that is named like the type of code blocks. -/
def Project.shadow : Project where
  graph := { blocks := [.code "c" ⟨["x"], ["y"]⟩ "assign y = x;"] }
  deps := [(codeType, .ofGraph {
    blocks := [.input "a", .output "q"]
    wires := [⟨⟨"a", "out"⟩, ⟨"q", "in"⟩⟩] })]

/-- The checks accept it, and two modules of its text have the same name. -/
theorem repeated_name_of_shadow :
    (checkProject .sha1 "main" .shadow).isOk = true ∧ Project.shadow.Keyed ∧
      Sanitizer.sha1.Separates {t | t = codeType ∨ Project.shadow.TypeName t} ∧
        ∃ text modules, (compileCircuit .sha1 true "main" .shadow).result = .ok text ∧
          (emit .sha1 "main" [] .shadow).result = .ok modules ∧ text = render modules ∧
            ¬((written modules).map (·.name)).Nodup := by
  have hok : (checkProject .sha1 "main" .shadow).isOk = true := by decide
  refine ⟨hok, by decide, by decide +kernel, _, _,
    compileCircuit_strict_eq_ok_iff.2 ⟨hok, rfl⟩, result_emit_of_isOk hok, rfl, ?_⟩
  decide +kernel

end BlockCircuit
