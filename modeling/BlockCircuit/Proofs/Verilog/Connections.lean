import BlockCircuit.Proofs.Verilog.DeclaredNames
import BlockCircuit.Proofs.Verilog.NetUse

/-!
# Ports that are connected twice

The ends of wires are where ports are connected: an end at an instance binds a port of it, and an
end at an output of the circuit assigns that output. The checks look at each end by itself. So two
wires can lead to one port, or begin at one port of an instance, and then that port is connected
twice.

* `Graph.driving`, `Graph.exposing` — the ends at inputs and outputs of the circuit itself;
* `nodup_bindings_iff` — an instance binds each port once exactly when no two ends meet at a port;
* `nodup_lefts_iff` — when each output of a circuit is assigned at most once;
* `connectedOnce_iff_of_strict` — in an accepted project, no port is connected twice in the module
  of a circuit exactly when its ends are apart; `repeated_connections_of_knot` shows a circuit in
  which they are not.
-/

namespace BlockCircuit

/-! ## Ends of wires -/

namespace Graph

variable {g : Graph} {e f : WireEnd}

/-- The ids of the input blocks. -/
def inputIds (g : Graph) : List String :=
  g.blocks.filterMap fun b =>
    match b.kind with
    | .input _ => some b.id
    | _ => none

/-- The ids of the output blocks. -/
def outputIds (g : Graph) : List String :=
  g.blocks.filterMap fun b =>
    match b.kind with
    | .output _ => some b.id
    | _ => none

/-- The ends at which an input of the circuit drives a net. -/
def driving (g : Graph) : List WireEnd :=
  g.ends.filter fun e => e.side = .source ∧ e.place.block ∈ g.inputIds

/-- The ends at which a net drives an output of the circuit. -/
def exposing (g : Graph) : List WireEnd :=
  g.ends.filter fun e => e.side = .target ∧ e.place.block ∈ g.outputIds

theorem nodup_ends (g : Graph) : g.ends.Nodup := by
  rw [ends, List.nodup_flatMap]
  constructor
  · rintro ⟨w, net⟩ -
    simp
  · refine (List.pairwise_map.1 (Verilog.nodup_places g.wires)).imp fun {entry other} hnet => ?_
    intro e he hother
    have h₁ : e.net = entry.2 := by
      rcases List.mem_cons.1 he with rfl | he
      · rfl
      · rw [List.mem_singleton.1 he]
    have h₂ : e.net = other.2 := by
      rcases List.mem_cons.1 hother with rfl | hother
      · rfl
      · rw [List.mem_singleton.1 hother]
    exact hnet (h₁.symm.trans h₂)

theorem mem_inputIds_iff {id : String} :
    id ∈ g.inputIds ↔ ∃ pin, ⟨id, .input pin⟩ ∈ g.blocks := by
  rw [inputIds, List.mem_filterMap]
  constructor
  · rintro ⟨⟨id, kind⟩, hb, hid⟩
    cases kind <;> cases hid
    exact ⟨_, hb⟩
  · rintro ⟨pin, hb⟩
    exact ⟨_, hb, rfl⟩

theorem mem_outputIds_iff {id : String} :
    id ∈ g.outputIds ↔ ∃ pin, ⟨id, .output pin⟩ ∈ g.blocks := by
  rw [outputIds, List.mem_filterMap]
  constructor
  · rintro ⟨⟨id, kind⟩, hb, hid⟩
    cases kind <;> cases hid
    exact ⟨_, hb⟩
  · rintro ⟨pin, hb⟩
    exact ⟨_, hb, rfl⟩

theorem mem_driving_iff :
    e ∈ g.driving ↔ e ∈ g.ends ∧ e.side = .source ∧ e.place.block ∈ g.inputIds := by
  simp [driving]

theorem mem_exposing_iff :
    e ∈ g.exposing ↔ e ∈ g.ends ∧ e.side = .target ∧ e.place.block ∈ g.outputIds := by
  simp [exposing]

end Graph

namespace Verilog

variable {s : Sanitizer} {g : Graph} {name text : String} {p : Project}

/-! ## Bindings of one instance -/

/-- The bindings of an instance, end by end. -/
theorem bindings_eq_map_ends (g : Graph) (id : String) :
    bindings s g.wires id =
      (g.ends.filter fun e => e.place.block = id).map fun e => ⟨s.ident e.place.port, e.net⟩ := by
  rw [bindings, Graph.ends, List.filter_flatMap, List.map_flatMap]
  congr 1
  funext entry
  obtain ⟨w, net⟩ := entry
  by_cases hsource : w.source.block = id <;> by_cases htarget : w.target.block = id <;>
    simp [endBindings, hsource, htarget]

/-- The instance of a block binds each port at most once exactly when no two ends of wires meet at a
port of the block. -/
theorem nodup_bindings_iff {id : String} :
    ((bindings s g.wires id).map (·.port)).Nodup ↔
      ∀ e ∈ g.ends, ∀ f ∈ g.ends, e.place.block = id → f.place.block = id →
        s.ident e.place.port = s.ident f.place.port → e = f := by
  rw [bindings_eq_map_ends, List.map_map,
    List.nodup_map_iff_inj_on ((Graph.nodup_ends g).filter _)]
  constructor
  · intro h e he f hf heid hfid hport
    refine h e ?_ f ?_ hport
    · exact List.mem_filter.2 ⟨he, decide_eq_true heid⟩
    · exact List.mem_filter.2 ⟨hf, decide_eq_true hfid⟩
  · intro h e he f hf hport
    obtain ⟨he, heid⟩ := List.mem_filter.1 he
    obtain ⟨hf, hfid⟩ := List.mem_filter.1 hf
    exact h e he f hf (of_decide_eq_true heid) (of_decide_eq_true hfid) hport

/-! ## Assignments of one circuit -/

/-- The name on the left of an assignment. -/
def Assignment.left : Assignment → String
  | drive net _ => netName net
  | expose port _ => port

/-- An input is assigned to the nets of wires from it, and the net of a wire to the output that the
wire leads to. -/
theorem assignment?_eq_some_iff {w : Wire} {net : Nat} {b : Block} {a : Assignment} :
    assignment? s w net b = some a ↔
      ((∃ pin, b.kind = .input pin) ∧ w.source.block = b.id ∧ a = .drive net (s.ident b.id)) ∨
        (∃ pin, b.kind = .output pin) ∧ w.target.block = b.id ∧ a = .expose (s.ident b.id) net := by
  obtain ⟨id, kind⟩ := b
  cases kind <;> simp [assignment?, eq_comm]

/-- The assignments of a circuit are made at the ends of wires at its inputs and outputs. -/
theorem mem_assignments_iff {a : Assignment} :
    a ∈ (bodyOf s name g).assignments ↔
      (∃ e ∈ g.driving, a = .drive e.net (s.ident e.place.block)) ∨
        ∃ e ∈ g.exposing, a = .expose (s.ident e.place.block) e.net := by
  rw [bodyOf, List.mem_flatMap]
  constructor
  · rintro ⟨⟨w, net⟩, hentry, ha⟩
    have hw : g.wires[net]? = some w := List.mk_mem_zipIdx_iff_getElem?.1 hentry
    obtain ⟨⟨id, kind⟩, hb, hassign⟩ := List.mem_filterMap.1 ha
    rcases assignment?_eq_some_iff.1 hassign with ⟨⟨pin, rfl⟩, rfl, rfl⟩ | ⟨⟨pin, rfl⟩, rfl, rfl⟩
    · have hends : ⟨net, .source, w.source⟩ ∈ g.ends := Graph.mem_ends_iff.2 ⟨w, hw, rfl⟩
      have hid : w.source.block ∈ g.inputIds := Graph.mem_inputIds_iff.2 ⟨pin, hb⟩
      exact .inl ⟨_, Graph.mem_driving_iff.2 ⟨hends, rfl, hid⟩, rfl⟩
    · have hends : ⟨net, .target, w.target⟩ ∈ g.ends := Graph.mem_ends_iff.2 ⟨w, hw, rfl⟩
      have hid : w.target.block ∈ g.outputIds := Graph.mem_outputIds_iff.2 ⟨pin, hb⟩
      exact .inr ⟨_, Graph.mem_exposing_iff.2 ⟨hends, rfl, hid⟩, rfl⟩
  · rintro (⟨⟨net, side, place⟩, he, rfl⟩ | ⟨⟨net, side, place⟩, he, rfl⟩)
    · obtain ⟨hends, rfl, hid⟩ := Graph.mem_driving_iff.1 he
      obtain ⟨w, hw, rfl⟩ := Graph.mem_ends_iff.1 hends
      obtain ⟨pin, hb⟩ := Graph.mem_inputIds_iff.1 hid
      refine ⟨(w, net), List.mk_mem_zipIdx_iff_getElem?.2 hw, List.mem_filterMap.2 ⟨_, hb, ?_⟩⟩
      exact assignment?_eq_some_iff.2 (.inl ⟨⟨pin, rfl⟩, rfl, rfl⟩)
    · obtain ⟨hends, rfl, hid⟩ := Graph.mem_exposing_iff.1 he
      obtain ⟨w, hw, rfl⟩ := Graph.mem_ends_iff.1 hends
      obtain ⟨pin, hb⟩ := Graph.mem_outputIds_iff.1 hid
      refine ⟨(w, net), List.mk_mem_zipIdx_iff_getElem?.2 hw, List.mem_filterMap.2 ⟨_, hb, ?_⟩⟩
      exact assignment?_eq_some_iff.2 (.inr ⟨⟨pin, rfl⟩, rfl, rfl⟩)

/-- With distinct ids, two blocks make different assignments for a wire. -/
theorem nodup_assignments (name : String) (hids : (g.blocks.map (·.id)).Nodup) :
    (bodyOf s name g).assignments.Nodup := by
  rw [bodyOf, List.nodup_flatMap]
  constructor
  · rintro ⟨w, net⟩ -
    have hblocks : g.blocks.Pairwise fun b c => b.id ≠ c.id := List.pairwise_map.1 hids
    refine List.Pairwise.filterMap _ ?_ hblocks
    rintro b c hid a ha a' ha' rfl
    rcases assignment?_eq_some_iff.1 ha with ⟨-, hb, rfl⟩ | ⟨-, hb, rfl⟩ <;>
      rcases assignment?_eq_some_iff.1 ha' with ⟨-, hc, heq⟩ | ⟨-, hc, heq⟩
    · exact hid (hb.symm.trans hc)
    · cases heq
    · cases heq
    · exact hid (hb.symm.trans hc)
  · refine (List.pairwise_map.1 (nodup_places g.wires)).imp fun {entry other} hnet => ?_
    intro a ha hother
    exact hnet ((net_of_mem_assignments ha).symm.trans (net_of_mem_assignments hother))

/-- An end at an output of the circuit is at a port of its module. -/
theorem ident_mem_outputs {e : WireEnd} (he : e ∈ g.exposing) :
    s.ident e.place.block ∈ (g.ports s).outputs := by
  obtain ⟨-, -, hid⟩ := Graph.mem_exposing_iff.1 he
  obtain ⟨pin, hb⟩ := Graph.mem_outputIds_iff.1 hid
  exact Check.mem_outputs_iff.2 ⟨_, pin, hb, rfl⟩

/-- With distinct ids, each output of a circuit is assigned at most once exactly when no two wires
lead to outputs of the same name, and no wire leads to an output that is called like a net which an
input drives. -/
theorem nodup_lefts_iff (name : String) (hids : (g.blocks.map (·.id)).Nodup) :
    (((bodyOf s name g).assignments.map (·.left)).filter (· ∈ (g.ports s).outputs)).Nodup ↔
      (∀ e ∈ g.exposing, ∀ f ∈ g.exposing, s.ident e.place.block = s.ident f.place.block → e = f) ∧
        ∀ e ∈ g.exposing, ∀ f ∈ g.driving, e.place.block ≠ netName f.net := by
  rw [List.filter_map, List.nodup_map_iff_inj_on ((nodup_assignments name hids).filter _)]
  constructor
  · intro h
    have hleft : ∀ e ∈ g.exposing, ∀ a ∈ (bodyOf s name g).assignments,
        s.ident e.place.block = a.left → .expose (s.ident e.place.block) e.net = a := by
      intro e he a ha hname
      have hout : s.ident e.place.block ∈ (g.ports s).outputs := ident_mem_outputs he
      have hleft : a.left ∈ (g.ports s).outputs := hname ▸ hout
      refine h _ (List.mem_filter.2 ⟨mem_assignments_iff.2 (.inr ⟨e, he, rfl⟩), ?_⟩) a
        (List.mem_filter.2 ⟨ha, decide_eq_true hleft⟩) hname
      exact decide_eq_true hout
    constructor
    · intro e he f hf hname
      have ha := hleft e he _ (mem_assignments_iff.2 (.inr ⟨f, hf, rfl⟩)) hname
      injection ha with _ hnet
      obtain ⟨hends, hside, -⟩ := Graph.mem_exposing_iff.1 he
      obtain ⟨hends', hside', -⟩ := Graph.mem_exposing_iff.1 hf
      exact Graph.eq_of_mem_ends hends hends' hnet (hside.trans hside'.symm)
    · intro e he f hf hid
      have hname : s.ident e.place.block = netName f.net := ident_eq_netName_iff.2 hid
      have ha := hleft e he _ (mem_assignments_iff.2 (.inl ⟨f, hf, rfl⟩)) hname
      cases ha
  · rintro ⟨houtputs, hnets⟩ a ha a' ha' hname
    rcases mem_assignments_iff.1 (List.mem_filter.1 ha).1 with ⟨e, he, rfl⟩ | ⟨e, he, rfl⟩ <;>
      rcases mem_assignments_iff.1 (List.mem_filter.1 ha').1 with ⟨f, hf, rfl⟩ | ⟨f, hf, rfl⟩
    · obtain ⟨hends, hside, -⟩ := Graph.mem_driving_iff.1 he
      obtain ⟨hends', hside', -⟩ := Graph.mem_driving_iff.1 hf
      rw [Graph.eq_of_mem_ends hends hends' (netName_injective hname) (hside.trans hside'.symm)]
    · exact absurd (ident_eq_netName_iff.1 hname.symm) (hnets f hf e he)
    · exact absurd (ident_eq_netName_iff.1 hname) (hnets e he f hf)
    · rw [houtputs e he f hf hname]

/-! ## Modules of circuits -/

/-- The assignments in a module. -/
def Module.assignments (m : Module) : List Assignment :=
  match m.content with
  | .code _ => []
  | .circuit body => body.assignments

/-- No port is connected twice in a module. -/
structure Module.ConnectedOnce (m : Module) : Prop where
  /-- Every instance binds each port at most once. -/
  bindings : ∀ i ∈ m.instances, (i.bindings.map (·.port)).Nodup
  /-- Every output is on the left of one assignment at most. -/
  outputs : ((m.assignments.map (·.left)).filter (· ∈ m.ports.outputs)).Nodup

/-- The ends of the wires of a circuit connect different ports. -/
structure EndsApart (s : Sanitizer) (g : Graph) : Prop where
  /-- No two ends meet at a port of an instance. -/
  instances : ∀ b ∈ g.instanceBlocks, ∀ e ∈ g.ends, ∀ f ∈ g.ends, e.place.block = b.id →
    f.place.block = b.id → s.ident e.place.port = s.ident f.place.port → e = f
  /-- No two wires lead to outputs of the same name. -/
  outputs : ∀ e ∈ g.exposing, ∀ f ∈ g.exposing,
    s.ident e.place.block = s.ident f.place.block → e = f
  /-- No wire leads to an output that is called like a net which an input drives. -/
  nets : ∀ e ∈ g.exposing, ∀ f ∈ g.driving, e.place.block ≠ netName f.net

instance (s : Sanitizer) (g : Graph) : Decidable (EndsApart s g) :=
  decidable_of_iff
    ((∀ b ∈ g.instanceBlocks, ∀ e ∈ g.ends, ∀ f ∈ g.ends, e.place.block = b.id →
        f.place.block = b.id → s.ident e.place.port = s.ident f.place.port → e = f) ∧
      (∀ e ∈ g.exposing, ∀ f ∈ g.exposing,
        s.ident e.place.block = s.ident f.place.block → e = f) ∧
      ∀ e ∈ g.exposing, ∀ f ∈ g.driving, e.place.block ≠ netName f.net)
    ⟨fun h => ⟨h.1, h.2.1, h.2.2⟩, fun h => ⟨h.instances, h.outputs, h.nets⟩⟩

/-- With distinct ids, no port is connected twice in the module of a circuit exactly when the ends
of its wires are apart. -/
theorem connectedOnce_iff (name : String) (hids : (g.blocks.map (·.id)).Nodup) :
    (circuitModule s name g).ConnectedOnce ↔ EndsApart s g := by
  have hbindings : (∀ i ∈ (circuitModule s name g).instances, (i.bindings.map (·.port)).Nodup) ↔
      ∀ b ∈ g.instanceBlocks, ((bindings s g.wires b.id).map (·.port)).Nodup :=
    List.forall_mem_map
  have hlefts := nodup_lefts_iff (s := s) name hids
  constructor
  · intro h
    obtain ⟨houtputs, hnets⟩ := hlefts.1 h.outputs
    exact ⟨fun b hb => nodup_bindings_iff.1 (hbindings.1 h.bindings b hb), houtputs, hnets⟩
  · intro h
    exact ⟨hbindings.2 fun b hb => nodup_bindings_iff.2 (h.instances b hb),
      hlefts.2 ⟨h.outputs, h.nets⟩⟩

/-! ## Accepted projects -/

/-- In the text of an accepted project, no port is connected twice in the module of a circuit
exactly when the ends of the wires of the circuit are apart. -/
theorem connectedOnce_iff_of_strict
    (htext : (compileCircuit s true name p).result = .ok text) :
    ∃ modules, (emit s name [] p).result = .ok modules ∧ text = render modules ∧
      ∀ path q, p.Reaches path q →
        ∃ m ∈ modules, m = circuitModule s (moduleName s name path) q.graph ∧
          (m.ConnectedOnce ↔ EndsApart s q.graph) := by
  obtain ⟨hok, rfl⟩ := compileCircuit_strict_eq_ok_iff.1 htext
  refine ⟨_, result_emit_of_isOk hok, rfl, fun path q hq => ?_⟩
  exact ⟨_, circuitModule_mem_of_reaches hq, rfl,
    connectedOnce_iff _ (Check.wellFormed_of_isOk hok hq).ids⟩

/-- The outer circuit connects no port twice. The inner one has two wires from one port of its code
block. -/
theorem connectedOnce_alarm :
    ∃ modules, (emit .sha1 "main" [] .alarm).result = .ok modules ∧
      (∃ m ∈ modules, m.name = "main" ∧ m.ConnectedOnce) ∧
        ∃ m ∈ modules, m.name = moduleName .sha1 "main" ["latch"] ∧ ¬m.ConnectedOnce := by
  obtain ⟨modules, hemit, -, hmodules⟩ := connectedOnce_iff_of_strict compileCircuit_alarm
  obtain ⟨outer, houter, rfl, hiff⟩ := hmodules _ _ (.here _)
  obtain ⟨inner, hinner, rfl, hiff'⟩ := hmodules _ _ Project.reaches_latch
  have hapart : EndsApart .sha1 Project.alarm.graph := by decide +kernel
  have hmeet : ¬EndsApart .sha1 Project.latch.graph := by decide +kernel
  exact ⟨modules, hemit, ⟨_, houter, rfl, hiff.2 hapart⟩, _, hinner, rfl, mt hiff'.1 hmeet⟩

end Verilog

/-- A circuit with two wires to one port of an instance, and with two wires to one output. -/
def Project.knot : Project := .ofGraph {
  blocks := [.input "a", .code "c" ⟨["x"], ["y"]⟩ "assign y = x;", .output "q"]
  wires := [⟨⟨"a", "out"⟩, ⟨"c", "x"⟩⟩, ⟨⟨"a", "out"⟩, ⟨"c", "x"⟩⟩, ⟨⟨"c", "y"⟩, ⟨"q", "in"⟩⟩,
    ⟨⟨"a", "out"⟩, ⟨"q", "in"⟩⟩] }

namespace Verilog

/-- The checks accept it, its instance binds a port twice, and its output is assigned twice. -/
theorem repeated_connections_of_knot :
    (checkProject .sha1 "main" .knot).isOk = true ∧
      ∃ text modules, (compileCircuit .sha1 true "main" .knot).result = .ok text ∧
        (emit .sha1 "main" [] .knot).result = .ok modules ∧ text = render modules ∧
          ∃ m ∈ written modules,
            (∃ i ∈ m.instances, i.bindings = [⟨"x", 0⟩, ⟨"x", 1⟩, ⟨"y", 2⟩]) ∧
              m.ports.outputs = ["q"] ∧ .expose "q" 2 ∈ m.assignments ∧
                .expose "q" 3 ∈ m.assignments ∧ ¬m.ConnectedOnce := by
  have hok : (checkProject .sha1 "main" .knot).isOk = true := by decide
  have hmeet : ¬EndsApart .sha1 Project.knot.graph := by decide +kernel
  have hids : (Project.knot.graph.blocks.map (·.id)).Nodup := by decide
  refine ⟨hok, _, _, compileCircuit_strict_eq_ok_iff.2 ⟨hok, rfl⟩, result_emit_of_isOk hok, rfl,
    circuitModule .sha1 "main" Project.knot.graph, by decide +kernel,
    ⟨_, List.mem_cons_self, by decide⟩, by decide, by decide, by decide,
    mt (connectedOnce_iff _ hids).1 hmeet⟩

end Verilog

end BlockCircuit
