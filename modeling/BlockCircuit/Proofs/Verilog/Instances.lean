import BlockCircuit.Proofs.Check.Ends
import BlockCircuit.Proofs.Verilog.Written

/-!
# Instances and the modules they name

A block that is not a port becomes an instance, and emission adds a module for what the block stands
for: for code a module of its own, for a compound block the module of the circuit of its type.
Instance and module are built apart. The instance has the name of its module from the type of the
block, and the names of its ports from the ends of wires; the module has its name from the path that
leads to it, and its ports from the code block or from the blocks of its circuit. In an accepted
project the two fit together.

* `ModuleOf` — which module is added for a block;
* `exists_moduleOf` — in a well-formed circuit there is one for every instance;
* `ModuleOf.fits_iff` — wires may end at the ports that the module declares;
* `mem_bindings_iff` — the bindings of an instance are those that ends of wires make;
* `bindings_match_headers` — the instances of accepted projects name their modules and bind ports
  that these declare, outputs at sources of wires and inputs at targets;
* `ModuleOf.text_ne_empty_iff` — when the module of a block is written.
-/

namespace BlockCircuit

namespace Verilog

open Check (Side Fits WellFormed)

variable {s : Sanitizer} {top : String} {p q : Project} {path : List String}
  {deps : List (String × Project)} {kind : BlockKind} {m : Module} {b : Block} {side : Side}

/-- The instances in a module. -/
def Module.instances (m : Module) : List Instance :=
  match m.content with
  | .code _ => []
  | .circuit body => body.instances

/-! ## The module of a block -/

/-- The module that is added for what a block stands for, if the block is in the circuit at the end
of a path and that circuit has these dependencies. -/
inductive ModuleOf (s : Sanitizer) (top : String) (path : List String)
    (deps : List (String × Project)) : BlockKind → Module → Prop
  /-- Code stands in a module of its own. -/
  | code {ports : Ports} {text : String} :
      ModuleOf s top path deps (.code ports text)
        ⟨moduleName s top (path ++ [codeType]), ports, .code text⟩
  /-- A compound block stands for the circuit that its type means here. -/
  | compound {t : String} {dep : Project} : deps.lookup t = some dep →
      ModuleOf s top path deps (.compound t)
        (circuitModule s (moduleName s top (path ++ [t])) dep.graph)

/-- In a well-formed circuit, the module of every instance is in the list. -/
theorem exists_moduleOf (s : Sanitizer) (top : String) (hq : p.Reaches path q)
    (hwf : WellFormed s q) (hb : b ∈ q.graph.instanceBlocks) :
    ∃ m ∈ treeModules s top p, ModuleOf s top path q.deps b.kind m := by
  obtain ⟨hblock, hport⟩ := Graph.mem_instanceBlocks_iff.1 hb
  obtain ⟨id, kind⟩ := b
  cases kind with
  | input pin | output pin => cases hport
  | code ports text =>
    refine ⟨_, mem_treeModules_iff.2 ⟨path, q, hq, ?_⟩, .code⟩
    rw [moduleName_concat]
    exact mem_graphModules_iff.2 (.inl ⟨id, ports, text, hblock, rfl⟩)
  | compound t =>
    have htype := hwf.types _ hblock t rfl
    obtain ⟨dep, hdep⟩ := Option.isSome_iff_exists.1 (Project.lookup_isSome_iff.2 htype)
    have hreaches := hq.concat (Project.mem_of_lookup hdep)
    exact ⟨_, circuitModule_mem_of_reaches hreaches, .compound hdep⟩

/-- The instance of a block names the module of the block. -/
theorem ModuleOf.module_instanceOf (h : ModuleOf s top path deps b.kind m) (wires : List Wire) :
    (instanceOf s (moduleName s top path) wires b).module = m.name := by
  obtain ⟨id, kind⟩ := b
  cases h with
  | code => exact (moduleName_concat codeType).symm
  | @compound t dep hdep => exact (moduleName_concat t).symm

/-- Wires may end at the ports that the module of a block declares. -/
theorem ModuleOf.fits_iff (h : ModuleOf s top path deps kind m) {port : String} :
    Fits s deps side port kind ↔ s.ident port ∈ side.ports m.ports := by
  cases h with
  | code => exact Check.fits_code_iff
  | compound hdep => exact Check.fits_compound_iff hdep

/-! ## Bindings -/

/-- A binding is the one that the end of a wire on this side makes at the instance of a block. -/
def Binding.ComesFrom (s : Sanitizer) (g : Graph) (id : String) (side : Side) (b : Binding) :
    Prop :=
  ∃ w, g.wires[b.net]? = some w ∧ (w.endAt side).block = id ∧
    b.port = s.ident (w.endAt side).port

theorem mem_endBindings_iff {id : String} {w : Wire} {net : Nat} {b : Binding} :
    b ∈ endBindings s id w net ↔
      ∃ side, (w.endAt side).block = id ∧ b = ⟨s.ident (w.endAt side).port, net⟩ := by
  rw [endBindings, List.mem_append]
  constructor
  · rintro (h | h)
    · split at h
      · rename_i hid
        exact ⟨.source, hid, List.mem_singleton.1 h⟩
      · cases h
    · split at h
      · rename_i hid
        exact ⟨.target, hid, List.mem_singleton.1 h⟩
      · cases h
  · rintro ⟨side, hid, rfl⟩
    cases side with
    | source =>
      have hsource : w.source.block = id := hid
      rw [if_pos hsource]
      exact .inl List.mem_cons_self
    | target =>
      have htarget : w.target.block = id := hid
      rw [if_pos htarget]
      exact .inr List.mem_cons_self

/-- The bindings of an instance are those that ends of wires make. -/
theorem mem_bindings_iff {g : Graph} {id : String} {b : Binding} :
    b ∈ bindings s g.wires id ↔ ∃ side, b.ComesFrom s g id side := by
  rw [bindings, List.mem_flatMap]
  constructor
  · rintro ⟨⟨w, net⟩, hentry, hb⟩
    obtain ⟨side, hid, rfl⟩ := mem_endBindings_iff.1 hb
    exact ⟨side, w, List.mk_mem_zipIdx_iff_getElem?.1 hentry, hid, rfl⟩
  · rintro ⟨side, w, hw, hid, hport⟩
    refine ⟨(w, b.net), List.mk_mem_zipIdx_iff_getElem?.2 hw, ?_⟩
    exact mem_endBindings_iff.2 ⟨side, hid, by rw [← hport]⟩

/-- In a well-formed circuit, an end of a wire at a block fits the block. -/
theorem fits_endAt (hwf : WellFormed s q) {w : Wire} (hw : w ∈ q.graph.wires)
    (hb : b ∈ q.graph.blocks) (hid : (w.endAt side).block = b.id) :
    Fits s q.deps side (w.endAt side).port b.kind := by
  have hend : Check.EndFits s q (w.endAt side) side := by
    cases side with
    | source => exact hwf.sources w hw
    | target => exact hwf.targets w hw
  obtain ⟨c, hc, hcid, hfits⟩ := hend
  rwa [Check.eq_of_id_eq hwf.ids hc hb (hcid.trans hid)] at hfits

/-- In every circuit of an accepted project, the instance of a block names the module that is added
for the block. Its bindings are those that ends of wires make, and their ports are declared by that
module: as outputs where wires begin, and as inputs where they end. -/
theorem bindings_match_headers (hok : (checkProject s top p).isOk = true)
    (hq : p.Reaches path q) {place : Nat} (hb : q.graph.instanceBlocks[place]? = some b) :
    let circuit := circuitModule s (moduleName s top path) q.graph
    ∃ modules, (emit s top [] p).result = .ok modules ∧ circuit ∈ modules ∧
      ∃ i m, circuit.instances[place]? = some i ∧ m ∈ modules ∧
        ModuleOf s top path q.deps b.kind m ∧ i.module = m.name ∧
          (∀ binding, binding ∈ i.bindings ↔ ∃ side, binding.ComesFrom s q.graph b.id side) ∧
            ∀ (side : Side) (binding : Binding), binding.ComesFrom s q.graph b.id side →
              binding.port ∈ side.ports m.ports := by
  intro circuit
  have hwf := Check.wellFormed_of_isOk hok hq
  have hmem : b ∈ q.graph.instanceBlocks := List.mem_of_getElem? hb
  obtain ⟨m, hm, hmodule⟩ := exists_moduleOf s top hq hwf hmem
  have hcircuit : circuit ∈ treeModules s top p := circuitModule_mem_of_reaches hq
  have hi : circuit.instances[place]? =
      some (instanceOf s (moduleName s top path) q.graph.wires b) := by
    show (q.graph.instanceBlocks.map _)[place]? = _
    rw [List.getElem?_map, hb, Option.map_some]
  refine ⟨_, result_emit_of_isOk hok, hcircuit, _, m, hi, hm, hmodule,
    hmodule.module_instanceOf _, fun binding => mem_bindings_iff, ?_⟩
  rintro side binding ⟨w, hw, hid, hport⟩
  have hblock := (Graph.mem_instanceBlocks_iff.1 hmem).1
  rw [hport]
  exact hmodule.fits_iff.1 (fits_endAt hwf (List.mem_of_getElem? hw) hblock hid)

/-- A compound block with one wire that leads to it and one that comes from it. -/
theorem bindings_of_memory :
    ∃ modules, (emit .sha1 "main" [] .alarm).result = .ok modules ∧
      ∃ i m, (circuitModule .sha1 "main" Project.alarm.graph).instances[0]? = some i ∧
        m ∈ modules ∧ i.module = m.name ∧ ⟨"set", 1⟩ ∈ i.bindings ∧ "set" ∈ m.ports.inputs ∧
          ⟨"held", 2⟩ ∈ i.bindings ∧ "held" ∈ m.ports.outputs := by
  have hok : (checkProject .sha1 "main" .alarm).isOk = true := by decide
  have hb : Project.alarm.graph.instanceBlocks[0]? = some (.compound "memory" "latch") := rfl
  obtain ⟨modules, hemit, -, i, m, hi, hm, -, hname, hbindings, hports⟩ :=
    bindings_match_headers hok (.here _) hb
  have hset : Binding.ComesFrom .sha1 Project.alarm.graph "memory" .target ⟨"set", 1⟩ :=
    ⟨_, rfl, rfl, rfl⟩
  have hheld : Binding.ComesFrom .sha1 Project.alarm.graph "memory" .source ⟨"held", 2⟩ :=
    ⟨_, rfl, rfl, rfl⟩
  exact ⟨modules, hemit, i, m, hi, hm, hname, (hbindings _).2 ⟨_, hset⟩, hports _ _ hset,
    (hbindings _).2 ⟨_, hheld⟩, hports _ _ hheld⟩

/-! ## Modules that are written -/

/-- Nothing is written for what a block stands for: its code is empty, or the circuit of its type
has neither a wire nor an instance. -/
inductive Hollow (deps : List (String × Project)) : BlockKind → Prop
  | code {ports : Ports} : Hollow deps (.code ports "")
  | compound {t : String} {dep : Project} : deps.lookup t = some dep → dep.graph.wires = [] →
      dep.graph.instanceBlocks = [] → Hollow deps (.compound t)

theorem ModuleOf.name_ne_empty (htop : top ≠ "") (h : ModuleOf s top path deps kind m) :
    m.name ≠ "" := by
  cases h with
  | code | compound => exact moduleName_ne_empty htop _

theorem ModuleOf.text_content_eq_empty_iff (h : ModuleOf s top path deps kind m) :
    m.content.text = "" ↔ Hollow deps kind := by
  cases h with
  | @code ports text =>
    constructor
    · intro htext
      have hempty : text = "" := htext
      exact hempty ▸ .code
    · intro hhollow
      cases hhollow
      rfl
  | @compound t dep hdep =>
    refine text_bodyOf_eq_empty_iff.trans ⟨?_, ?_⟩
    · rintro ⟨hwires, hinstances⟩
      exact .compound hdep hwires hinstances
    · intro hhollow
      cases hhollow with
      | compound hlookup hwires hinstances =>
        cases hdep.symm.trans hlookup
        exact ⟨hwires, hinstances⟩

/-- The module of a block is written exactly when there is something to write. -/
theorem ModuleOf.text_ne_empty_iff (htop : top ≠ "") (h : ModuleOf s top path deps kind m) :
    m.text ≠ "" ↔ ¬Hollow deps kind := by
  rw [Module.text_ne_empty_iff, and_iff_right (h.name_ne_empty htop), ne_eq,
    h.text_content_eq_empty_iff]

end Verilog

end BlockCircuit
