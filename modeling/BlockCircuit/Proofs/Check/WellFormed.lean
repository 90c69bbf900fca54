import BlockCircuit.Check
import BlockCircuit.Proofs.Project.Tree
import Mathlib.Data.List.Nodup

/-!
# What the checks accept

`WellFormed` says, without the checker, when the graph of a circuit makes sense together with its
dependencies: ids are distinct, there is at most one code block, types are defined, and every wire
leads from something that gives a signal to something that takes one (`Fits`).

* `errors_graphReport_eq_nil_iff` — a circuit is reported without error exactly when it is well
  formed;
* `errors_visit_eq_nil_iff` — the same for a whole tree, where no path may repeat a type name;
* `isOk_checkProject_iff` — the checks accept a project exactly when it has a name for its outermost
  module, no type is used inside its own definition, and every circuit of the tree is well formed.
-/

namespace BlockCircuit.Check

variable {s : Sanitizer} {deps : List (String × Project)} {g : Graph}

/-! ## Well-formed circuits -/

/-- A block of this kind has a port of the given name at which wires may have the given end. A wire
comes from an input of its own circuit, or from an output of what an instance stands for; it leads
to an output of its own circuit, or to an input of what an instance stands for. -/
inductive Fits (s : Sanitizer) (deps : List (String × Project)) :
    Side → String → BlockKind → Prop
  | input {port : String} {pin : Option Pin} : Fits s deps .source port (.input pin)
  | output {port : String} {pin : Option Pin} : Fits s deps .target port (.output pin)
  | codeOutput {port text : String} {ports : Ports} :
      s.ident port ∈ ports.outputs → Fits s deps .source port (.code ports text)
  | codeInput {port text : String} {ports : Ports} :
      s.ident port ∈ ports.inputs → Fits s deps .target port (.code ports text)
  | compoundOutput {port t id : String} {dep : Project} {pin : Option Pin} :
      deps.lookup t = some dep → ⟨id, .output pin⟩ ∈ dep.graph.blocks → s.ident id = s.ident port →
      Fits s deps .source port (.compound t)
  | compoundInput {port t id : String} {dep : Project} {pin : Option Pin} :
      deps.lookup t = some dep → ⟨id, .input pin⟩ ∈ dep.graph.blocks → s.ident id = s.ident port →
      Fits s deps .target port (.compound t)

/-- An end of a wire is at a block that has a fitting port. -/
def EndFits (s : Sanitizer) (p : Project) (e : Endpoint) (side : Side) : Prop :=
  ∃ b ∈ p.graph.blocks, b.id = e.block ∧ Fits s p.deps side e.port b.kind

/-- A circuit that makes sense together with its dependencies. -/
structure WellFormed (s : Sanitizer) (p : Project) : Prop where
  /-- No two blocks share an id. -/
  ids : (p.graph.blocks.map (·.id)).Nodup
  /-- There is at most one code block. -/
  code : p.graph.blocks.countP (·.kind.isCode) ≤ 1
  /-- The types of compound blocks are defined. -/
  types : ∀ b ∈ p.graph.blocks, ∀ t, b.kind = .compound t → t ∈ p.deps.map Prod.fst
  /-- Wires come from something. -/
  sources : ∀ w ∈ p.graph.wires, EndFits s p w.source .source
  /-- Wires lead to something. -/
  targets : ∀ w ∈ p.graph.wires, EndFits s p w.target .target

/-! ## One circuit -/

theorem repeated_eq_nil_iff {seen xs : List String} :
    repeated seen xs = [] ↔ xs.Nodup ∧ ∀ x ∈ xs, x ∉ seen := by
  induction xs generalizing seen with
  | nil => simp [repeated]
  | cons x xs ih =>
    rw [repeated]
    by_cases hx : x ∈ seen
    · rw [if_pos hx]
      refine ⟨fun h => absurd h (List.cons_ne_nil x _), fun h => ?_⟩
      exact absurd hx (h.2 x List.mem_cons_self)
    · rw [if_neg hx, ih, List.nodup_cons]
      constructor
      · rintro ⟨hnd, hseen⟩
        refine ⟨⟨fun hmem => hseen x hmem List.mem_cons_self, hnd⟩, ?_⟩
        intro y hy
        rcases List.mem_cons.1 hy with rfl | hy
        · exact hx
        · exact fun hmem => hseen y hy (List.mem_cons_of_mem x hmem)
      · rintro ⟨⟨hxs, hnd⟩, hseen⟩
        refine ⟨hnd, fun y hy hmem => ?_⟩
        rcases List.mem_cons.1 hmem with rfl | hmem
        · exact hxs hy
        · exact hseen y (List.mem_cons_of_mem x hy) hmem

/-- No id is reported exactly when all are distinct. -/
theorem repeated_nil_eq_nil_iff {xs : List String} : repeated [] xs = [] ↔ xs.Nodup := by
  rw [repeated_eq_nil_iff]
  exact and_iff_left fun _ _ => List.not_mem_nil

theorem typeError?_eq_none_iff {circuit : String} {b : Block} :
    typeError? circuit deps b = none ↔ ∀ t, b.kind = .compound t → t ∈ deps.map Prod.fst := by
  rw [typeError?]
  split
  · rename_i t hkind
    simp only [hkind, BlockKind.compound.injEq, forall_eq']
    rw [← Project.lookup_isSome_iff]
    split <;> simp_all
  · rename_i hkind
    exact iff_of_true rfl fun t ht => absurd ht (hkind t)

theorem codeErrors_eq_nil_iff {circuit : String} :
    codeErrors s circuit g = [] ↔ g.blocks.countP (·.kind.isCode) ≤ 1 := by
  rw [codeErrors, ← List.countP_eq_length_filter]
  split
  · rename_i h
    exact iff_of_false (List.cons_ne_nil _ _) (Nat.not_le.2 h)
  · rename_i h
    exact iff_of_true rfl (Nat.le_of_not_lt h)

/-! ## Ends of wires -/

/-- The outputs of a circuit are the identifiers of its output blocks. -/
theorem mem_outputs_iff {port : String} :
    port ∈ (g.ports s).outputs ↔ ∃ id pin, ⟨id, .output pin⟩ ∈ g.blocks ∧ s.ident id = port := by
  simp only [Graph.ports, List.mem_filterMap]
  constructor
  · rintro ⟨⟨id, kind⟩, hb, hport⟩
    cases kind <;> simp only [Block.outputPort?, Option.some.injEq, reduceCtorEq] at hport
    exact ⟨id, _, hb, hport⟩
  · rintro ⟨id, pin, hb, hport⟩
    exact ⟨_, hb, congrArg some hport⟩

/-- The inputs of a circuit are the identifiers of its input blocks. -/
theorem mem_inputs_iff {port : String} :
    port ∈ (g.ports s).inputs ↔ ∃ id pin, ⟨id, .input pin⟩ ∈ g.blocks ∧ s.ident id = port := by
  simp only [Graph.ports, List.mem_filterMap]
  constructor
  · rintro ⟨⟨id, kind⟩, hb, hport⟩
    cases kind <;> simp only [Block.inputPort?, Option.some.injEq, reduceCtorEq] at hport
    exact ⟨id, _, hb, hport⟩
  · rintro ⟨id, pin, hb, hport⟩
    exact ⟨_, hb, congrArg some hport⟩

theorem fits_code_iff {ports : Ports} {text port : String} {side : Side} :
    Fits s deps side port (.code ports text) ↔ s.ident port ∈ side.ports ports := by
  cases side with
  | source => exact ⟨fun h => by cases h with | codeOutput h => exact h, .codeOutput⟩
  | target => exact ⟨fun h => by cases h with | codeInput h => exact h, .codeInput⟩

/-- From outside, wires end at the ports of the module of a circuit. -/
theorem fits_compound_iff {t port : String} {dep : Project} {side : Side}
    (hdep : deps.lookup t = some dep) :
    Fits s deps side port (.compound t) ↔ s.ident port ∈ side.ports (dep.graph.ports s) := by
  cases side with
  | source =>
    rw [Side.ports, mem_outputs_iff]
    constructor
    · intro h
      cases h with
      | compoundOutput hlookup hb hport =>
        cases hdep.symm.trans hlookup
        exact ⟨_, _, hb, hport⟩
    · rintro ⟨id, pin, hb, hport⟩
      exact .compoundOutput hdep hb hport
  | target =>
    rw [Side.ports, mem_inputs_iff]
    constructor
    · intro h
      cases h with
      | compoundInput hlookup hb hport =>
        cases hdep.symm.trans hlookup
        exact ⟨_, _, hb, hport⟩
    · rintro ⟨id, pin, hb, hport⟩
      exact .compoundInput hdep hb hport

/-- At a block with port lists, the identifier of a port is looked for in the list for the side. -/
theorem portProblem?_of_ports {b : Block} {port : String} {side : Side} {ports : Ports}
    (hports : portsOf? s deps b.kind = some ports) :
    portProblem? s deps b port side =
      if s.ident port ∈ side.ports ports then none else some (.undeclaredPort port b.id side) := by
  obtain ⟨id, kind⟩ := b
  cases kind with
  | input pin | output pin => cases hports
  | code own text | compound t => simp only [portProblem?, hports]

/-- So an end there is no problem exactly when its port is listed. -/
theorem portProblem?_eq_none_iff_of_ports {b : Block} {port : String} {side : Side} {ports : Ports}
    (hports : portsOf? s deps b.kind = some ports) :
    portProblem? s deps b port side = none ↔ s.ident port ∈ side.ports ports := by
  rw [portProblem?_of_ports hports]
  split
  · rename_i h
    exact iff_of_true rfl h
  · rename_i h
    exact iff_of_false (Option.some_ne_none _) h

/-- With a defined type, a block is no problem exactly when it has a fitting port. -/
theorem portProblem?_eq_none_iff {b : Block} {port : String} {side : Side}
    (htype : ∀ t, b.kind = .compound t → t ∈ deps.map Prod.fst) :
    portProblem? s deps b port side = none ↔ Fits s deps side port b.kind := by
  obtain ⟨id, kind⟩ := b
  cases kind with
  | input pin =>
    cases side with
    | source => exact iff_of_true rfl .input
    | target => exact iff_of_false (Option.some_ne_none _) (fun h => nomatch h)
  | output pin =>
    cases side with
    | source => exact iff_of_false (Option.some_ne_none _) (fun h => nomatch h)
    | target => exact iff_of_true rfl .output
  | code ports text =>
    rw [portProblem?_eq_none_iff_of_ports (b := ⟨id, .code ports text⟩) rfl, fits_code_iff]
  | compound t =>
    obtain ⟨dep, hdep⟩ := Option.isSome_iff_exists.1 (Project.lookup_isSome_iff.2 (htype t rfl))
    have hports : portsOf? s deps (.compound t) = some (dep.graph.ports s) := by
      rw [portsOf?, hdep]
      rfl
    rw [portProblem?_eq_none_iff_of_ports (b := ⟨id, .compound t⟩) hports, fits_compound_iff hdep]

/-- With distinct ids, a block is known by its id. -/
theorem eq_of_id_eq (hids : (g.blocks.map (·.id)).Nodup) {b c : Block} (hb : b ∈ g.blocks)
    (hc : c ∈ g.blocks) (hid : b.id = c.id) : b = c :=
  List.inj_on_of_nodup_map hids hb hc hid

/-- With distinct ids, looking up an id finds the block that has it. -/
theorem block?_eq_some_iff {b : Block} {id : String} (hids : (g.blocks.map (·.id)).Nodup) :
    g.block? id = some b ↔ b ∈ g.blocks ∧ b.id = id := by
  rw [Graph.block?]
  constructor
  · intro h
    exact ⟨List.mem_of_find?_eq_some h, by simpa using List.find?_some h⟩
  · rintro ⟨hb, rfl⟩
    obtain ⟨c, hc⟩ : ∃ c, g.blocks.find? (fun c => c.id == b.id) = some c :=
      Option.isSome_iff_exists.1 (List.find?_isSome.2 ⟨b, hb, beq_self_eq_true b.id⟩)
    have hid : c.id = b.id := by simpa using List.find?_some hc
    rw [hc, eq_of_id_eq hids (List.mem_of_find?_eq_some hc) hb hid]

/-- In a circuit with distinct ids and defined types, an end is no problem exactly when it is at a
block that has a fitting port. -/
theorem endProblem?_eq_none_iff {p : Project} {e : Endpoint} {side : Side}
    (hids : (p.graph.blocks.map (·.id)).Nodup)
    (htypes : ∀ b ∈ p.graph.blocks, ∀ t, b.kind = .compound t → t ∈ p.deps.map Prod.fst) :
    endProblem? s p.deps p.graph e side = none ↔ EndFits s p e side := by
  rw [endProblem?]
  cases hblock : p.graph.block? e.block with
  | none =>
    refine iff_of_false (Option.some_ne_none _) ?_
    rintro ⟨b, hb, hid, -⟩
    cases hblock.symm.trans ((block?_eq_some_iff hids).2 ⟨hb, hid⟩)
  | some b =>
    obtain ⟨hb, hid⟩ := (block?_eq_some_iff hids).1 hblock
    show portProblem? s p.deps b e.port side = none ↔ _
    rw [portProblem?_eq_none_iff (htypes b hb)]
    constructor
    · intro h
      exact ⟨b, hb, hid, h⟩
    · rintro ⟨c, hc, hcid, h⟩
      rwa [eq_of_id_eq hids hb hc (hid.trans hcid.symm)]

theorem wireErrors_eq_nil_iff {circuit : String} {w : Wire} {number : Nat} :
    wireErrors s circuit deps g w number = [] ↔
      endProblem? s deps g w.source .source = none ∧
        endProblem? s deps g w.target .target = none := by
  simp [wireErrors]

theorem errors_wires_eq_nil_iff {circuit : String} {ws : List Wire} :
    (ws.zipIdx.flatMap fun (wire, number) => wireErrors s circuit deps g wire number) = [] ↔
      ∀ w ∈ ws, endProblem? s deps g w.source .source = none ∧
        endProblem? s deps g w.target .target = none := by
  simp only [List.flatMap_eq_nil_iff, wireErrors_eq_nil_iff]
  constructor
  · intro h w hw
    obtain ⟨number, hnumber⟩ := List.mem_iff_getElem?.1 hw
    exact h (w, number) (List.mk_mem_zipIdx_iff_getElem?.2 hnumber)
  · intro h entry hentry
    exact h entry.1 (List.fst_mem_of_mem_zipIdx hentry)

/-- A circuit is reported without error exactly when it is well formed. -/
theorem errors_graphReport_eq_nil_iff {circuit : String} {p : Project} :
    (graphReport s circuit p.deps p.graph).errors = [] ↔ WellFormed s p := by
  simp only [graphReport, List.append_eq_nil_iff, List.map_eq_nil_iff, repeated_nil_eq_nil_iff,
    List.filterMap_eq_nil_iff, typeError?_eq_none_iff, codeErrors_eq_nil_iff,
    errors_wires_eq_nil_iff]
  constructor
  · rintro ⟨⟨⟨hids, htypes⟩, hcode⟩, hwires⟩
    refine ⟨hids, hcode, htypes, fun w hw => ?_, fun w hw => ?_⟩
    · exact (endProblem?_eq_none_iff hids htypes).1 (hwires w hw).1
    · exact (endProblem?_eq_none_iff hids htypes).1 (hwires w hw).2
  · intro h
    refine ⟨⟨⟨h.ids, h.types⟩, h.code⟩, fun w hw => ⟨?_, ?_⟩⟩
    · exact (endProblem?_eq_none_iff h.ids h.types).2 (h.sources w hw)
    · exact (endProblem?_eq_none_iff h.ids h.types).2 (h.targets w hw)

/-! ## The whole tree -/

/-- The findings about one dependency: it is refused, or it is visited. -/
def visitEntry (s : Sanitizer) (name : String) (ancestors : List String) (typeName : String)
    (dep : Project) : CheckReport :=
  if typeName ∈ ancestors then .ofError (.cyclicDependency (Project.cycle ancestors typeName))
  else visit s (s.childName name typeName) (ancestors ++ [typeName]) dep

/-- What a report says of one kind about a tree is what is said about each dependency, one after
another, and then about the circuit itself. -/
theorem part_visit {α : Type} {part : CheckReport → List α} (hnil : part {} = [])
    (happend : ∀ r t, part (r ++ t) = part r ++ part t) (name : String) (ancestors : List String)
    (p : Project) :
    part (visit s name ancestors p) =
      (p.deps.flatMap fun entry => part (visitEntry s name ancestors entry.1 entry.2)) ++
        part (graphReport s name p.deps p.graph) := by
  obtain ⟨g, deps⟩ := p
  have hdeps (rest : List (String × Project)) : part (visitDeps s name ancestors rest) =
      rest.flatMap fun entry => part (visitEntry s name ancestors entry.1 entry.2) := by
    induction rest with
    | nil => exact hnil
    | cons entry rest ih =>
      obtain ⟨t, dep⟩ := entry
      rw [visitDeps, happend, ih, List.flatMap_cons]
      rfl
  rw [visit, happend, hdeps]

theorem errors_visit (name : String) (ancestors : List String) (p : Project) :
    (visit s name ancestors p).errors =
      (p.deps.flatMap fun entry => (visitEntry s name ancestors entry.1 entry.2).errors) ++
        (graphReport s name p.deps p.graph).errors :=
  part_visit rfl (fun _ _ => rfl) name ancestors p

theorem warnings_visit (name : String) (ancestors : List String) (p : Project) :
    (visit s name ancestors p).warnings =
      (p.deps.flatMap fun entry => (visitEntry s name ancestors entry.1 entry.2).warnings) ++
        (graphReport s name p.deps p.graph).warnings :=
  part_visit rfl (fun _ _ => rfl) name ancestors p

/-- A tree is visited without error exactly when no path from the outermost project repeats a type
name and every circuit is well formed. -/
theorem errors_visit_eq_nil_iff {p : Project} {name : String} {ancestors : List String}
    (hnd : ancestors.Nodup) :
    (visit s name ancestors p).errors = [] ↔
      ∀ path q, p.Reaches path q → (ancestors ++ path).Nodup ∧ WellFormed s q := by
  -- Below a dependency the ancestors are one longer, and stay distinct where the visit goes on.
  induction p using Project.induction_deps generalizing name ancestors with
  | step p ih =>
    rw [errors_visit, List.append_eq_nil_iff, errors_graphReport_eq_nil_iff,
      List.flatMap_eq_nil_iff, Project.forall_reaches_iff, List.append_nil,
      and_iff_right hnd, and_comm, and_congr_right_iff]
    intro _
    have hentry : ∀ t dep, (t, dep) ∈ p.deps →
        ((visitEntry s name ancestors t dep).errors = [] ↔
          ∀ path q, dep.Reaches path q → (ancestors ++ t :: path).Nodup ∧ WellFormed s q) := by
      intro t dep hdep
      rw [visitEntry]
      split
      · rename_i ht
        refine iff_of_false (List.cons_ne_nil _ _) fun h => ?_
        exact List.disjoint_of_nodup_append (h [] dep (.here dep)).1 ht List.mem_cons_self
      · rename_i ht
        have hnd' : (ancestors ++ [t]).Nodup :=
          hnd.append (List.nodup_singleton t) (List.disjoint_singleton.2 ht)
        simp only [ih t dep hdep hnd', List.append_assoc, List.singleton_append]
    constructor
    · intro h t dep hdep
      exact (hentry t dep hdep).1 (h (t, dep) hdep)
    · rintro h ⟨t, dep⟩ hdep
      exact (hentry t dep hdep).2 (h t dep hdep)

/-! ## Accepted projects -/

theorem errors_checkProject (name : String) (p : Project) :
    (checkProject s name p).errors =
      (if name = "" then [emptyNameError] else []) ++ (visit s name [] p).errors := by
  rw [checkProject, CheckReport.errors_append]
  split <;> rfl

theorem warnings_checkProject (name : String) (p : Project) :
    (checkProject s name p).warnings = (visit s name [] p).warnings := by
  rw [checkProject, CheckReport.warnings_append]
  split <;> rfl

theorem isOk_iff_errors {r : CheckReport} : r.isOk = true ↔ r.errors = [] := by
  rw [CheckReport.isOk, List.isEmpty_iff]

/-- The checks accept a project exactly when it has a name for its outermost module, no path of the
tree repeats a type name, and every circuit of the tree is well formed. -/
theorem isOk_checkProject_iff (s : Sanitizer) (name : String) (p : Project) :
    (checkProject s name p).isOk = true ↔
      name ≠ "" ∧ (∀ path q, p.Reaches path q → path.Nodup) ∧
        ∀ path q, p.Reaches path q → WellFormed s q := by
  have hname : (if name = "" then [emptyNameError] else []) = [] ↔ name ≠ "" := by
    split
    · rename_i h
      exact iff_of_false (List.cons_ne_nil _ _) (not_not_intro h)
    · rename_i h
      exact iff_of_true rfl h
  rw [isOk_iff_errors, errors_checkProject, List.append_eq_nil_iff, hname,
    errors_visit_eq_nil_iff List.nodup_nil]
  simp only [List.nil_append, forall_and]

section
variable {name : String} {p q : Project} {path : List String}
  (hok : (checkProject s name p).isOk = true)
include hok

theorem errors_visit_of_isOk : (visit s name [] p).errors = [] := by
  rw [isOk_iff_errors, errors_checkProject] at hok
  exact (List.append_eq_nil_iff.1 hok).2

/-- An accepted project has a name for its outermost module. -/
theorem name_ne_empty_of_isOk : name ≠ "" := by
  rintro rfl
  rw [isOk_iff_errors, errors_checkProject] at hok
  exact List.cons_ne_nil _ _ hok

/-- Every circuit of an accepted project is well formed. -/
theorem wellFormed_of_isOk (hq : p.Reaches path q) : WellFormed s q :=
  ((errors_visit_eq_nil_iff List.nodup_nil).1 (errors_visit_of_isOk hok) path q hq).2

end

end BlockCircuit.Check
