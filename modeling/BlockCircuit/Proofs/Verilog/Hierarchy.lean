import BlockCircuit.Proofs.Verilog.ModulePaths
import BlockCircuit.Proofs.Verilog.Written

/-!
# The hierarchy of instances

A project is a tree in which a type name means something else in every circuit; its modules are one
flat list in which a name means the same everywhere. Both describe a tree of instances:

* `expand` replaces every block by what its type means in its own circuit;
* `elaborate` replaces every instance by the one module of the list that has its name.

The main statement is `elaborate_written_modules`: for an accepted project these are the same tree,
and every name that is looked for on the way is the name of exactly one module.
-/

namespace BlockCircuit

/-- A tree of instances. -/
inductive Design where
  /-- Text that was written by hand, behind some ports. -/
  | code (ports : Ports) (text : String)
  /-- A circuit, with its ports and its instances. Each instance has a name, the ports that are
  bound together with their nets, and what the instance stands for. -/
  | circuit (ports : Ports) (parts : List (String × List (String × Nat) × Design))

/-! ## Expansion of a project -/

/-- The ports of a block at which wires end, each with the number of its wire: by increasing number,
and for one wire the source before the target. -/
def Graph.connections (s : Sanitizer) (g : Graph) (id : String) : List (String × Nat) :=
  g.wires.zipIdx.flatMap fun (w, number) =>
    ([w.source, w.target].filter (·.block = id)).map fun e => (s.ident e.port, number)

/-- What a block stands for, given what type names stand for. -/
def BlockKind.design? (meaning : String → Option Design) : BlockKind → Option Design
  | .code ports text => some (.code ports text)
  | .compound t => meaning t
  | .input _ | .output _ => none

/-- The instance of a block, given what type names stand for. -/
def Graph.part? (s : Sanitizer) (g : Graph) (meaning : String → Option Design) (b : Block) :
    Option (String × List (String × Nat) × Design) :=
  (b.kind.design? meaning).map fun design => (s.ident b.id, g.connections s b.id, design)

namespace Project

mutual

/-- The tree of instances of a project. There is none when a type name has no meaning. -/
def expand (s : Sanitizer) : Project → Option Design
  | ⟨g, deps⟩ =>
      (g.instanceBlocks.mapM (g.part? s (expandDep s deps))).map (.circuit (g.ports s))
termination_by structural p => p

/-- The tree of instances of the dependency that a type name means. -/
def expandDep (s : Sanitizer) : List (String × Project) → String → Option Design
  | [], _ => none
  | (u, dep) :: deps, t => if t = u then expand s dep else expandDep s deps t
termination_by structural deps => deps

end

theorem expandDep_eq_bind (s : Sanitizer) (deps : List (String × Project)) (t : String) :
    expandDep s deps t = (deps.lookup t).bind (expand s) := by
  induction deps with
  | nil => rw [expandDep]; rfl
  | cons entry deps ih =>
    obtain ⟨u, dep⟩ := entry
    rw [expandDep, lookup_cons_eq, ih]
    split <;> rfl

end Project

namespace Verilog

/-! ## Elaboration of a list of modules -/

/-- The module with a name, when there is exactly one. -/
def moduleNamed? (modules : List Module) (name : String) : Option Module :=
  match modules.filter (·.name = name) with
  | [m] => some m
  | _ => none

/-- The instance that a statement makes, given what module names stand for. -/
def Instance.part? (meaning : String → Option Design) (i : Instance) :
    Option (String × List (String × Nat) × Design) :=
  (meaning i.module).map fun design => (i.name, i.bindings.map fun b => (b.port, b.net), design)

/-- What a module stands for, given what module names stand for. -/
def Module.design? (meaning : String → Option Design) (m : Module) : Option Design :=
  match m.content with
  | .code text => some (.code m.ports text)
  | .circuit body => (body.instances.mapM (Instance.part? meaning)).map (.circuit m.ports)

/-- What the module with a name stands for, if that is no deeper than `depth`. -/
def elaborateWithin (modules : List Module) : Nat → String → Option Design
  | 0, _ => none
  | depth + 1, name =>
      (moduleNamed? modules name).bind (Module.design? (elaborateWithin modules depth))

/-- What the module with a name stands for. A tree of instances of different modules is no deeper
than there are modules. -/
def elaborate (modules : List Module) (name : String) : Option Design :=
  elaborateWithin modules modules.length name

variable {s : Sanitizer} {name : String} {p : Project} {modules : List Module}

theorem moduleNamed?_eq_some {m : Module} (hnd : (modules.map (·.name)).Nodup)
    (hm : m ∈ modules) : moduleNamed? modules m.name = some m := by
  have hfilter : modules.filter (·.name = m.name) = [m] := by
    induction modules with
    | nil => exact absurd hm List.not_mem_nil
    | cons c modules ih =>
      rw [List.map_cons, List.nodup_cons] at hnd
      rcases List.mem_cons.1 hm with rfl | hm
      · rw [List.filter_cons, if_pos (decide_eq_true rfl), List.filter_eq_nil_iff.2]
        intro c hc hname
        exact hnd.1 (of_decide_eq_true hname ▸ List.mem_map_of_mem hc)
      · rw [List.filter_cons_of_neg, ih hnd.2 hm]
        intro hname
        exact hnd.1 (of_decide_eq_true hname ▸ List.mem_map_of_mem hm)
  rw [moduleNamed?, hfilter]

/-- Lists of parts that agree everywhere are equal when one of them exists. -/
theorem mapM_eq_some_of_forall {α β : Type} {l : List α} {f g : α → Option β}
    (h : ∀ a ∈ l, ∃ b, f a = some b ∧ g a = some b) :
    ∃ bs, l.mapM f = some bs ∧ l.mapM g = some bs := by
  induction l with
  | nil => exact ⟨[], rfl, rfl⟩
  | cons a l ih =>
    obtain ⟨b, hf, hg⟩ := h a List.mem_cons_self
    obtain ⟨bs, hfs, hgs⟩ := ih fun c hc => h c (List.mem_cons_of_mem a hc)
    exact ⟨b :: bs, by simp [hf, hfs], by simp [hg, hgs]⟩

/-! ## The modules of a tree -/

theorem codeModule_mem_treeModules {id text : String} {ports : Ports}
    (hb : ⟨id, .code ports text⟩ ∈ p.graph.blocks) :
    ⟨s.childName name codeType, ports, .code text⟩ ∈ treeModules s name p := by
  refine mem_treeModules_iff.2 ⟨[], p, .here p, ?_⟩
  exact mem_graphModules_iff.2 (.inl ⟨id, ports, text, hb, rfl⟩)

/-- The modules of a dependency are among those of the tree. -/
theorem treeModules_sublist (s : Sanitizer) (name : String) {t : String} {dep : Project}
    (hdep : (t, dep) ∈ p.deps) :
    (treeModules s (s.childName name t) dep).Sublist
      (p.deps.flatMap fun entry => treeModules s (s.childName name entry.1) entry.2) := by
  have hmem := List.mem_map_of_mem (f := fun entry : String × Project =>
    treeModules s (s.childName name entry.1) entry.2) hdep
  exact List.sublist_flatten_of_mem hmem

theorem treeModules_subset (s : Sanitizer) (name : String) {t : String} {dep : Project}
    (hdep : (t, dep) ∈ p.deps) :
    treeModules s (s.childName name t) dep ⊆ treeModules s name p := by
  intro m hm
  rw [treeModules_eq]
  exact List.mem_append_left _ ((treeModules_sublist s name hdep).subset hm)

theorem length_treeModules_lt (s : Sanitizer) (name : String) {t : String} {dep : Project}
    (hdep : (t, dep) ∈ p.deps) :
    (treeModules s (s.childName name t) dep).length < (treeModules s name p).length := by
  have hle := (treeModules_sublist s name hdep).length_le
  rw [treeModules_eq name p, graphModules, List.length_append, List.length_append,
    List.length_singleton]
  omega

/-- Beside the module of a code block there is the one of its circuit. -/
theorem one_lt_length_treeModules (s : Sanitizer) (name : String) {id text : String} {ports : Ports}
    (hb : ⟨id, .code ports text⟩ ∈ p.graph.blocks) : 1 < (treeModules s name p).length := by
  have hmem : ⟨s.childName name codeType, ports, .code text⟩ ∈
      p.graph.blocks.filterMap (codeModule? s name) :=
    List.mem_filterMap.2 ⟨_, hb, rfl⟩
  have hpos := List.length_pos_of_mem hmem
  rw [treeModules_eq, graphModules, List.length_append, List.length_append, List.length_singleton]
  omega

/-! ## Both trees of instances -/

/-- The bindings of an instance are the connections of its block. -/
theorem map_bindings_eq (g : Graph) (id : String) :
    ((bindings s g.wires id).map fun b => (b.port, b.net)) = g.connections s id := by
  rw [bindings, Graph.connections, List.map_flatMap]
  refine List.flatMap_congr ?_
  rintro ⟨w, number⟩ _
  by_cases hsource : w.source.block = id <;> by_cases htarget : w.target.block = id <;>
    simp [endBindings, hsource, htarget]

/-- The instance of a block is expanded and elaborated alike, if its type and the name of its module
mean the same. -/
theorem part?_instanceOf {g : Graph} {b : Block} {meaning named : String → Option Design}
    {design : Design} (hblock : b.kind.design? meaning = some design)
    (hmodule : named (s.childName name b.typeName) = some design) :
    ∃ part, (instanceOf s name g.wires b).part? named = some part ∧
      g.part? s meaning b = some part := by
  refine ⟨(s.ident b.id, g.connections s b.id, design), ?_, ?_⟩
  · rw [Instance.part?, instanceOf, hmodule, Option.map_some, map_bindings_eq]
  · rw [Graph.part?, hblock, Option.map_some]

theorem expand_eq (s : Sanitizer) (p : Project) :
    p.expand s = (p.graph.instanceBlocks.mapM
      (p.graph.part? s fun t => (p.deps.lookup t).bind (Project.expand s))).map
        (.circuit (p.graph.ports s)) := by
  obtain ⟨graph, deps⟩ := p
  rw [Project.expand, funext (Project.expandDep_eq_bind s deps)]

theorem elaborateWithin_succ {m : Module} (depth : Nat) (hm : moduleNamed? modules name = some m) :
    elaborateWithin modules (depth + 1) name = m.design? (elaborateWithin modules depth) := by
  rw [elaborateWithin, hm, Option.bind_some]

theorem design?_circuitModule (named : String → Option Design) (g : Graph) :
    (circuitModule s name g).design? named =
      (g.instanceBlocks.mapM fun b => (instanceOf s name g.wires b).part? named).map
        (.circuit (g.ports s)) := by
  show ((bodyOf s name g).instances.mapM (Instance.part? named)).map _ = _
  rw [bodyOf, List.mapM_map]
  rfl

/-- The module of a code block is elaborated to the code. -/
theorem elaborateWithin_code (hnd : (modules.map (·.name)).Nodup) {depth : Nat}
    (hsub : treeModules s name p ⊆ modules) (hdepth : (treeModules s name p).length ≤ depth + 1)
    {id text : String} {ports : Ports} (hb : ⟨id, .code ports text⟩ ∈ p.graph.blocks) :
    elaborateWithin modules depth (s.childName name codeType) = some (.code ports text) := by
  have hlt := one_lt_length_treeModules s name hb
  obtain ⟨depth, rfl⟩ : ∃ below, depth = below + 1 := ⟨depth - 1, by omega⟩
  have hcode := moduleNamed?_eq_some hnd (hsub (codeModule_mem_treeModules hb))
  exact elaborateWithin_succ depth hcode

/-- Where the modules of a tree are among others with different names, the outermost circuit is
elaborated to the expansion of the tree. -/
theorem elaborateWithin_eq_expand (hnd : (modules.map (·.name)).Nodup) {depth : Nat}
    (hwf : ∀ path q, p.Reaches path q → Check.WellFormed s q)
    (hsub : treeModules s name p ⊆ modules) (hdepth : (treeModules s name p).length ≤ depth) :
    ∃ design, elaborateWithin modules depth name = some design ∧ p.expand s = some design := by
  -- Each dependency has its modules in the list too, and fewer of them, so the depth suffices.
  induction p using Project.induction_deps generalizing name depth with
  | step p ih =>
    have hself : circuitModule s name p.graph ∈ treeModules s name p :=
      circuitModule_mem_of_reaches (.here p)
    obtain ⟨depth, rfl⟩ : ∃ below, depth = below + 1 := by
      have hpos := List.length_pos_of_mem hself
      exact ⟨depth - 1, by omega⟩
    have hparts : ∀ b ∈ p.graph.instanceBlocks, ∃ part,
        (instanceOf s name p.graph.wires b).part? (elaborateWithin modules depth) = some part ∧
          p.graph.part? s (fun t => (p.deps.lookup t).bind (Project.expand s)) b = some part := by
      rintro ⟨id, kind⟩ hinstance
      obtain ⟨hb, hport⟩ := Graph.mem_instanceBlocks_iff.1 hinstance
      cases kind with
      | input pin | output pin => cases hport
      | code ports text =>
        exact part?_instanceOf rfl (elaborateWithin_code hnd hsub hdepth hb)
      | compound t =>
        have htype := (hwf [] p (.here p)).types _ hb t rfl
        obtain ⟨dep, hlookup⟩ := Option.isSome_iff_exists.1 (Project.lookup_isSome_iff.2 htype)
        have hdep := Project.mem_of_lookup hlookup
        have hsubDep := List.Subset.trans (treeModules_subset s name hdep) hsub
        have hlt := length_treeModules_lt s name hdep
        have hdepthDep : (treeModules s (s.childName name t) dep).length ≤ depth := by omega
        obtain ⟨design, helaborate, hexpand⟩ := ih t dep hdep
          (fun path q hq => hwf (t :: path) q (.through hdep hq)) hsubDep hdepthDep
        refine part?_instanceOf ?_ helaborate
        show (p.deps.lookup t).bind (Project.expand s) = some design
        rw [hlookup, Option.bind_some, hexpand]
    obtain ⟨parts, helaborate, hexpand⟩ := mapM_eq_some_of_forall hparts
    have hcircuit : moduleNamed? modules name = some (circuitModule s name p.graph) :=
      moduleNamed?_eq_some hnd (hsub hself)
    refine ⟨.circuit (p.graph.ports s) parts, ?_, ?_⟩
    · rw [elaborateWithin_succ depth hcircuit, design?_circuitModule, helaborate, Option.map_some]
    · rw [expand_eq, hexpand, Option.map_some]

/-- Modules with distinct names make the tree of instances of their project, if the checks accept it
and every module has a text. -/
theorem elaborate_treeModules (hok : (checkProject s name p).isOk = true)
    (hnd : ((treeModules s name p).map (·.name)).Nodup)
    (hbody : ∀ path q, p.Reaches path q → q.graph.wires ≠ [] ∨ q.graph.instanceBlocks ≠ [])
    (hcode : ∀ path q, p.Reaches path q → "" ∉ q.graph.codeTexts) :
    ∃ design, elaborate (written (treeModules s name p)) name = some design ∧
      p.expand s = some design := by
  have hwf (path : List String) (q : Project) (hq : p.Reaches path q) : Check.WellFormed s q :=
    Check.wellFormed_of_isOk hok hq
  obtain ⟨design, helaborate, hexpand⟩ :=
    elaborateWithin_eq_expand hnd hwf (List.Subset.refl _) (Nat.le_refl _)
  refine ⟨design, ?_, hexpand⟩
  rw [written_treeModules (Check.name_ne_empty_of_isOk hok) hbody hcode, elaborate, helaborate]

/-- The modules that are written for an accepted project make the tree of instances of the project,
if the tokens of its type names can be told apart, no circuit is trivial and no code is empty. That
tables have one entry for each type name holds of all projects that are loaded from documents. -/
theorem elaborate_written_modules (hok : (checkProject s name p).isOk = true) (hkeys : p.Keyed)
    (hcodeType : ¬p.TypeName codeType) (htokens : s.Separates {t | t = codeType ∨ p.TypeName t})
    (hbody : ∀ path q, p.Reaches path q → q.graph.wires ≠ [] ∨ q.graph.instanceBlocks ≠ [])
    (hcode : ∀ path q, p.Reaches path q → "" ∉ q.graph.codeTexts) :
    ∃ modules design, (emit s name [] p).result = .ok modules ∧
      elaborate (written modules) name = some design ∧ p.expand s = some design := by
  have hwf (path : List String) (q : Project) (hq : p.Reaches path q) : Check.WellFormed s q :=
    Check.wellFormed_of_isOk hok hq
  have hemit : (emit s name [] p).result = .ok (treeModules s name p) := by
    rw [result_emit, Check.errors_visit_of_isOk hok, List.filter_nil, firstErrorOr_nil]
  have hnd : ((treeModules s name p).map (·.name)).Nodup :=
    nodup_names_treeModules hkeys hcodeType (fun path q hq => (hwf path q hq).code) htokens
  obtain ⟨design, helaborate, hexpand⟩ := elaborate_treeModules hok hnd hbody hcode
  exact ⟨treeModules s name p, design, hemit, helaborate, hexpand⟩

/-- The modules of a circuit that uses another one. -/
theorem elaborate_alarm :
    ∃ modules design, (emit .sha1 "main" [] .alarm).result = .ok modules ∧
      elaborate (written modules) "main" = some design ∧
        Project.alarm.expand .sha1 = some design := by
  have htokens : Sanitizer.sha1.Separates {t | t = codeType ∨ Project.alarm.TypeName t} := by
    simp only [← Project.mem_typeNames_iff, ← List.mem_cons]
    decide +kernel
  exact elaborate_written_modules (by decide) (by decide) (by decide) htokens (by decide)
    (by decide)

end Verilog

end BlockCircuit
