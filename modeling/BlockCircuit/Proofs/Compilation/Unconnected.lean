import BlockCircuit.Proofs.Compilation.Cycles
import BlockCircuit.Proofs.Verilog.Instances
import BlockCircuit.Proofs.Verilog.Postorder
import Mathlib.Data.List.Enum
import Mathlib.Data.List.Forall2

/-!
# Blocks without connections

The checks warn about a block that no wire touches, and emission reports an event about an instance
that it has written without bindings. These are found apart: the checks ask whether some wire has an
end with the id of the block, and emission looks at the list of bindings, to which each wire adds up
to two. Neither needs circuits that are well formed. Ids may be used twice, wires may end nowhere,
and types may have no definition.

* `Diagnostic.TellsUnconnected` — a warning with the circuit and the id that it is about;
* `isEmpty_bindings` — an instance has no binding exactly when no wire touches its block;
* `placements` — the instances of a tree with their blocks, in the order in which they are written;
* `instances_treeModules` — these are the instances in the modules of the tree;
* `unconnected_events_of_acyclic`, `warnings_visit_eq_map` — events and warnings are about those of
  them that have no binding;
* `unconnected_events_match_warnings` — what follows for a compilation that succeeds.
-/

namespace BlockCircuit

/-- The circuit and the id of the block that an event is about, if it is about an instance without
connections. -/
def Event.unconnected? : Event → Option (String × String)
  | .unconnectedInstance circuit id => some (circuit, id)
  | _ => none

/-- A finding is the warning that a block has no connections. The place of the block is its circuit
and its id. -/
structure Diagnostic.TellsUnconnected (d : Diagnostic) (place : String × String) : Prop where
  level : d.level = .warning
  code : d.code = some .unconnectedBlock
  circuit : d.circuit = some place.1
  message : d.message = "block `" ++ place.2 ++ "` has no connections"

/-- A warning is about one place only. -/
theorem Diagnostic.TellsUnconnected.unique {d : Diagnostic} {place other : String × String}
    (h : d.TellsUnconnected place) (h' : d.TellsUnconnected other) : place = other := by
  have hcircuit : place.1 = other.1 := Option.some.inj (h.circuit.symm.trans h'.circuit)
  have hmessage := h.message.symm.trans h'.message
  rw [String.append_left_inj, String.append_right_inj] at hmessage
  exact Prod.ext hcircuit hmessage

theorem Check.tellsUnconnected_unconnectedWarning (circuit : String) (b : Block) :
    (unconnectedWarning circuit b).TellsUnconnected (circuit, b.id) :=
  ⟨rfl, rfl, rfl, rfl⟩

namespace Verilog

variable {s : Sanitizer} {name : String} {ancestors : List String} {p : Project}

/-! ## One circuit -/

theorem endBindings_eq_nil_iff {id : String} {w : Wire} {net : Nat} :
    endBindings s id w net = [] ↔ w.touches id = false := by
  simp [endBindings, Wire.touches]

/-- An instance has no binding exactly when no wire touches its block. -/
theorem isEmpty_bindings (g : Graph) (id : String) :
    (bindings s g.wires id).isEmpty = !g.isConnected id := by
  rw [Bool.eq_iff_iff, List.isEmpty_iff, Bool.not_eq_true', bindings, List.flatMap_eq_nil_iff,
    Graph.isConnected, List.any_eq_false, List.forall_mem_zipIdx, List.forall_mem_iff_getElem]
  simp only [endBindings_eq_nil_iff, Bool.not_eq_true]

/-- The blocks about which a circuit reports that their instances have no connections are those that
no wire touches. -/
theorem unconnected_graphEvents (name : String) (g : Graph) :
    (graphEvents s name g).filterMap Event.unconnected? =
      (g.instanceBlocks.filter fun b => !g.isConnected b.id).map fun b => (name, b.id) := by
  have hcode : (g.blocks.filterMap (codeEvent? s name)).filterMap Event.unconnected? = [] := by
    rw [List.filterMap_eq_nil_iff]
    intro event hevent
    obtain ⟨⟨id, kind⟩, -, hb⟩ := List.mem_filterMap.1 hevent
    cases kind with
    | code ports text =>
      cases hb
      rfl
    | input pin | output pin | compound t => cases hb
  have hbody : (bodyEvents s name g).filterMap Event.unconnected? =
      (g.instanceBlocks.filter fun b => !g.isConnected b.id).map fun b => (name, b.id) := by
    rw [bodyEvents, List.filterMap_filterMap]
    induction g.instanceBlocks with
    | nil => rfl
    | cons b blocks ih =>
      rw [List.filterMap_cons, ih, List.filter_cons, unconnectedEvent?, isEmpty_bindings]
      cases g.isConnected b.id <;> rfl
  rw [graphEvents, List.filterMap_append, hcode, List.nil_append]
  exact hbody

/-! ## The whole tree -/

/-- A block that has become an instance in the module of its circuit. -/
structure Placement where
  circuit : String
  block : Block
  written : Instance

/-- The blocks of a circuit that become instances of its module, in block order. -/
def graphPlacements (s : Sanitizer) (circuit : String) (g : Graph) : List Placement :=
  g.instanceBlocks.map fun b => ⟨circuit, b, instanceOf s circuit g.wires b⟩

/-- The blocks of a tree that become instances, circuit by circuit in the order in which circuits
are written. -/
def placements (s : Sanitizer) (name : String) (p : Project) : List Placement :=
  (namedCircuits s name p).flatMap fun c => graphPlacements s c.1 c.2.graph

/-- The instances in the modules of a tree, each with the name of the module it is in. -/
theorem instances_treeModules (name : String) (p : Project) :
    ((treeModules s name p).flatMap fun m => m.instances.map fun i => (m.name, i)) =
      (placements s name p).map fun i => (i.circuit, i.written) := by
  rw [treeModules_eq_flatMap, List.flatMap_assoc, placements, List.map_flatMap]
  refine List.flatMap_congr ?_
  rintro ⟨circuit, q⟩ -
  -- Modules of code have no instances.
  have hcode : ((q.graph.blocks.filterMap (codeModule? s circuit)).flatMap fun m =>
      m.instances.map fun i => (m.name, i)) = [] := by
    rw [List.flatMap_eq_nil_iff]
    intro m hm
    obtain ⟨⟨id, kind⟩, -, hb⟩ := List.mem_filterMap.1 hm
    cases kind with
    | code ports text =>
      cases hb
      rfl
    | input pin | output pin | compound t => cases hb
  rw [graphModules, List.flatMap_append, hcode, List.nil_append, List.flatMap_singleton,
    graphPlacements, List.map_map]
  exact List.map_map

/-- The instances without bindings, circuit by circuit. -/
theorem filter_placements (s : Sanitizer) (name : String) (p : Project) :
    ((placements s name p).filter fun i => i.written.bindings.isEmpty) =
      (namedCircuits s name p).flatMap fun c =>
        (c.2.graph.instanceBlocks.filter fun b => !c.2.graph.isConnected b.id).map fun b =>
          ⟨c.1, b, instanceOf s c.1 c.2.graph.wires b⟩ := by
  rw [placements, List.filter_flatMap]
  refine List.flatMap_congr ?_
  rintro ⟨circuit, q⟩ -
  rw [graphPlacements, List.filter_map]
  refine congrArg (List.map _) (List.filter_congr fun b _ => ?_)
  exact isEmpty_bindings q.graph b.id

/-- Without a cycle, the events of emission about missing connections are about the instances
without bindings. -/
theorem unconnected_events_of_acyclic (h : p.Acyclic ancestors) :
    (emit s name ancestors p).events.filterMap Event.unconnected? =
      ((placements s name p).filter fun i => i.written.bindings.isEmpty).map fun i =>
        (i.circuit, i.block.id) := by
  rw [emit_of_acyclic h, List.filterMap_flatMap, filter_placements, List.map_flatMap]
  simp only [unconnected_graphEvents, List.map_map]
  rfl

end Verilog

/-- Without a cycle, the checks warn about the instances without bindings. -/
theorem Check.warnings_visit_eq_map {s : Sanitizer} {name : String} {ancestors : List String}
    {p : Project} (h : p.Acyclic ancestors) :
    (visit s name ancestors p).warnings =
      ((Verilog.placements s name p).filter fun i => i.written.bindings.isEmpty).map fun i =>
        unconnectedWarning i.circuit i.block := by
  rw [warnings_visit_of_acyclic h, Verilog.filter_placements, List.map_flatMap]
  simp only [graphReport, List.map_map]
  rfl

open Verilog

variable {s : Sanitizer} {name text : String} {p : Project}

/-- Without checks, compilation reports what emission reports. -/
theorem events_compileCircuit_lenient (hname : name ≠ "") :
    (compileCircuit s false name p).events = (emit s name [] p).events := by
  rw [compileCircuit, precheck, if_neg Bool.false_ne_true, if_neg hname, pure_bind, emitCircuit]
  cases hemit : (emit s name [] p).result with
  | ok modules => rw [Logged.events_bind_ok hemit, Logged.events_pure, List.append_nil]
  | error e => rw [Logged.events_bind_error hemit]

/-- In a compilation without checks that succeeds, the events about instances without connections
match the warnings of the checks about blocks without connections: they have the same circuits and
ids, in the same order and as often. They are about the instances that are written without
bindings. -/
theorem unconnected_events_match_warnings
    (htext : (compileCircuit s false name p).result = .ok text) :
    let reported := (compileCircuit s false name p).events.filterMap Event.unconnected?
    let warned := (checkProject s name p).warnings.filter (·.code = some .unconnectedBlock)
    List.Forall₂ Diagnostic.TellsUnconnected warned reported ∧
      ∃ modules, (emit s name [] p).result = .ok modules ∧ text = render modules ∧
        (modules.flatMap fun m => m.instances.map fun i => (m.name, i)) =
            (placements s name p).map (fun i => (i.circuit, i.written)) ∧
          reported = ((placements s name p).filter fun i => i.written.bindings.isEmpty).map
            fun i => (i.circuit, i.block.id) := by
  intro reported warned
  obtain ⟨hname, hacyclic, hrender⟩ := compileCircuit_lenient_eq_ok_iff.1 htext
  have hreported : reported = ((placements s name p).filter fun i =>
      i.written.bindings.isEmpty).map fun i => (i.circuit, i.block.id) := by
    show List.filterMap _ _ = _
    rw [events_compileCircuit_lenient hname, unconnected_events_of_acyclic hacyclic]
  have hwarned : warned = ((placements s name p).filter fun i =>
      i.written.bindings.isEmpty).map fun i => Check.unconnectedWarning i.circuit i.block := by
    have hall : warned = (checkProject s name p).warnings :=
      List.filter_eq_self.2 fun w hw => decide_eq_true (Check.code_of_mem_warnings hw)
    rw [hall, Check.warnings_checkProject, Check.warnings_visit_eq_map hacyclic]
  refine ⟨?_, treeModules s name p, ?_, hrender.symm, instances_treeModules name p, hreported⟩
  · rw [hwarned, hreported, List.forall₂_map_left_iff, List.forall₂_map_right_iff,
      List.forall₂_same]
    intro i _
    exact Check.tellsUnconnected_unconnectedWarning i.circuit i.block
  · rw [emit_of_acyclic hacyclic]

/-- Two blocks of the outer circuit have one id, and one of them a type without a definition. The
wire ends nowhere. Below there is a block of code that no wire touches. -/
def Project.attic : Project where
  graph := {
    blocks := [.compound "box" "chest", .input "key", .compound "box" "nowhere"]
    wires := [⟨⟨"key", "out"⟩, ⟨"ghost", "in"⟩⟩] }
  deps := [("chest", .ofGraph { blocks := [.code "lamp" ⟨["a"], []⟩ "// dark"] })]

/-- It compiles, with one event for the code and then one for each of the two blocks. -/
theorem unconnected_events_match_warnings_attic :
    let compiled := compileCircuit .sha1 false "main" .attic
    let reported := compiled.events.filterMap Event.unconnected?
    (∃ text, compiled.result = .ok text) ∧
      reported = [("main_vbe3ee1", "lamp"), ("main", "box"), ("main", "box")] ∧
        List.Forall₂ Diagnostic.TellsUnconnected
          ((checkProject .sha1 "main" .attic).warnings.filter (·.code = some .unconnectedBlock))
          reported := by
  intro compiled reported
  have htext : compiled.result = .ok (render (treeModules .sha1 "main" .attic)) := rfl
  obtain ⟨hmatch, -⟩ := unconnected_events_match_warnings htext
  exact ⟨⟨_, htext⟩, by decide +kernel, hmatch⟩

end BlockCircuit
