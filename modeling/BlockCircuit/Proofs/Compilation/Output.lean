import BlockCircuit.Proofs.Compilation.Accepted
import BlockCircuit.Proofs.Compilation.Cycles
import BlockCircuit.Proofs.Json.Yields
import BlockCircuit.Proofs.Verilog.Postorder

/-!
# The whole output

A project is written by emitting its modules and then joining their texts. The text can also be put
together while the tree is walked, with a line break after everything that is not last. Meanwhile an
event announces each module, among events about other things.

* `emitText` — the text, appended piece by piece on the way through the tree;
* `emitText_eq_map_render` — this is the text of the modules, with the same events and errors;
* `Announces` — what the event of a module says;
* `announces_emit` — the modules are announced one by one, in order;
* `compileCircuit_output` — the text of a compilation, the events, and the names of the modules.
-/

namespace BlockCircuit

/-! ## Computations that report events -/

namespace Logged

variable {α β : Type} {x : Logged α}

/-- A sequence depends on what comes second only at the results of what comes first. -/
theorem bind_congr_of_ok {f g : α → Logged β} (h : ∀ a, x.result = .ok a → f a = g a) :
    x >>= f = x >>= g := by
  show Logged.bind x f = Logged.bind x g
  unfold Logged.bind
  cases hx : x.result with
  | ok a => simp only [h a hx]
  | error e => rfl

/-- If a sequence succeeds, both parts do, and it reports what they report. -/
theorem exists_of_bind_eq_ok {f : α → Logged β} {b : β} (h : (x >>= f).result = .ok b) :
    ∃ a, x.result = .ok a ∧ (f a).result = .ok b ∧ (x >>= f).events = x.events ++ (f a).events := by
  rw [result_bind] at h
  obtain ⟨a, hx, hf⟩ := bind_eq_ok_iff.1 h
  exact ⟨a, hx, hf, events_bind_ok hx f⟩

end Logged

/-- Whether an event announces a module. -/
def Event.isAnnouncement : Event → Bool
  | .emittingCode _ _ | .emittingCircuit _ _ _ => true
  | _ => false

namespace Verilog

variable {s : Sanitizer} {m : Module} {modules : List Module} {name : String}
  {ancestors : List String} {p : Project} {g : Graph}

/-! ## Text that is appended -/

/-- The texts of some modules, with a line break after each of them. -/
def closedText (modules : List Module) : String :=
  String.join (modules.map fun m => m.text ++ "\n")

mutual

/-- Writes a project whose circuit becomes the module `name`: the dependencies, the modules of code
blocks, and the module of the circuit, which is last. -/
def emitText (s : Sanitizer) (name : String) (ancestors : List String) : Project → Logged String
  | ⟨g, deps⟩ => do
      let below ← emitDepTexts s name ancestors deps
      Logged.report (graphEvents s name g)
      return below ++ closedText (g.blocks.filterMap (codeModule? s name)) ++
        (circuitModule s name g).text
termination_by structural p => p

/-- Writes the dependencies of the circuit that becomes the module `name`, with a line break after
each of them. -/
def emitDepTexts (s : Sanitizer) (name : String) (ancestors : List String) :
    List (String × Project) → Logged String
  | [] => return ""
  | (typeName, dep) :: deps => do
      if typeName ∈ ancestors then
        Logged.stop (.cyclicDependency (Project.cycle ancestors typeName))
      else
        let first ← emitText s (s.childName name typeName) (ancestors ++ [typeName]) dep
        let rest ← emitDepTexts s name ancestors deps
        return first ++ "\n" ++ rest
termination_by structural deps => deps

end

theorem closedText_append (modules more : List Module) :
    closedText (modules ++ more) = closedText modules ++ closedText more := by
  simp [closedText]

theorem render_concat (modules : List Module) (m : Module) :
    render (modules ++ [m]) = closedText modules ++ m.text := by
  induction modules with
  | nil => simp [render, closedText]
  | cons c modules ih =>
    obtain ⟨d, rest, hrest⟩ : ∃ d rest, modules ++ [m] = d :: rest :=
      List.exists_cons_of_ne_nil (List.append_ne_nil_of_right_ne_nil _ (List.cons_ne_nil m []))
    have hclosed : closedText (c :: modules) = c.text ++ "\n" ++ closedText modules := by
      simp [closedText]
    rw [List.cons_append, hrest, render_cons_cons, ← hrest, ih, hclosed]
    simp only [String.append_assoc]

/-- The texts of some modules, closed by a line break each, are their joined text and one more line
break. -/
theorem closedText_eq_render (hne : modules ≠ []) :
    closedText modules = render modules ++ "\n" := by
  rcases List.eq_nil_or_concat modules with rfl | ⟨front, m, rfl⟩
  · exact absurd rfl hne
  · rw [List.concat_eq_append, closedText_append, render_concat, String.append_assoc]
    simp [closedText]

theorem treeModules_ne_nil (name : String) (p : Project) : treeModules s name p ≠ [] := by
  rw [treeModules_eq, graphModules, ← List.append_assoc]
  exact List.append_ne_nil_of_right_ne_nil _ (List.cons_ne_nil _ _)

theorem eq_treeModules_of_emit (h : (emit s name ancestors p).result = .ok modules) :
    modules = treeModules s name p := by
  rw [result_emit, firstErrorOr_eq_ok_iff] at h
  exact h.2.symm

/-- Appending the text on the way is the same as emitting all modules and joining their texts: the
text, the events and the errors are the same. -/
theorem emitText_eq_map_render (name : String) (ancestors : List String) (p : Project) :
    emitText s name ancestors p = render <$> emit s name ancestors p := by
  -- What the dependencies of one circuit add is closed by a line break, if there is any of it.
  refine @Project.induction
    (fun p => ∀ name ancestors, emitText s name ancestors p = render <$> emit s name ancestors p)
    (fun deps => ∀ name ancestors,
      emitDepTexts s name ancestors deps = closedText <$> emitDeps s name ancestors deps)
    ?mk ?nil ?cons p name ancestors
  case mk =>
    intro g deps ih name ancestors
    have hrender (below : List Module) : render (below ++ graphModules s name g) =
        closedText below ++ closedText (g.blocks.filterMap (codeModule? s name)) ++
          (circuitModule s name g).text := by
      rw [graphModules, ← List.append_assoc, render_concat, closedText_append]
    rw [emitText, emit, ih, map_bind, bind_map_left]
    simp only [map_bind, map_pure, hrender]
  case nil =>
    intro name ancestors
    rw [emitDepTexts, emitDeps, map_pure]
    rfl
  case cons =>
    intro t dep deps ihdep ihdeps name ancestors
    rw [emitDepTexts, emitDeps]
    split
    · rfl
    · rw [ihdep, ihdeps, map_bind, bind_map_left]
      refine Logged.bind_congr_of_ok fun first hfirst => ?_
      have hne : first ≠ [] := by
        rw [eq_treeModules_of_emit hfirst]
        exact treeModules_ne_nil _ _
      rw [bind_map_left, map_bind]
      simp only [map_pure, closedText_append, closedText_eq_render hne]

/-! ## Events that announce modules -/

/-- An event announces a module: it names the module, and the code block that it stands for or the
size of the graph that it stands for. -/
inductive Announces (s : Sanitizer) : Event → Module → Prop
  | code {name id text : String} {ports : Ports} :
      Announces s (.emittingCode name id) ⟨name, ports, .code text⟩
  | circuit {name : String} {g : Graph} :
      Announces s (.emittingCircuit name g.blocks.length g.wires.length) (circuitModule s name g)

theorem announces_codeModules (name : String) (blocks : List Block) :
    List.Forall₂ (Announces s) ((blocks.filterMap (codeEvent? s name)).filter Event.isAnnouncement)
      (blocks.filterMap (codeModule? s name)) := by
  induction blocks with
  | nil => exact .nil
  | cons b blocks ih =>
    obtain ⟨id, kind⟩ := b
    cases kind with
    | code ports text => exact .cons .code ih
    | input pin | output pin | compound t => exact ih

/-- The events of one circuit announce its modules. -/
theorem announces_graphModules (name : String) (g : Graph) :
    List.Forall₂ (Announces s) ((graphEvents s name g).filter Event.isAnnouncement)
      (graphModules s name g) := by
  have hbody : (bodyEvents s name g).filter Event.isAnnouncement = [] := by
    rw [List.filter_eq_nil_iff]
    intro event hevent
    obtain ⟨b, -, hb⟩ := List.mem_filterMap.1 hevent
    rw [unconnectedEvent?] at hb
    split at hb
    · cases hb
      exact Bool.false_ne_true
    · cases hb
  have hcircuit : (Event.emittingCircuit name g.blocks.length g.wires.length ::
      bodyEvents s name g).filter Event.isAnnouncement =
        [.emittingCircuit name g.blocks.length g.wires.length] := by
    rw [List.filter_cons_of_pos rfl, hbody]
  rw [graphEvents, List.filter_append, hcircuit, graphModules]
  exact List.rel_append (announces_codeModules name g.blocks) (.cons .circuit .nil)

/-- Where emission succeeds, its events announce the modules one by one. -/
theorem announces_emit (h : (emit s name [] p).result = .ok modules) :
    List.Forall₂ (Announces s) ((emit s name [] p).events.filter Event.isAnnouncement) modules := by
  rw [eq_treeModules_of_emit h, emit_of_acyclic (acyclic_of_emit h), treeModules_eq_flatMap,
    List.filter_flatMap]
  -- Both lists go through the circuits in the order in which they are written.
  induction namedCircuits s name p with
  | nil => exact .nil
  | cons c circuits ih => exact List.rel_append (announces_graphModules c.1 c.2.graph) ih

/-- A module is that of the circuit at the end of a path, or that of a code block in the circuit
before the last step. -/
inductive StandsFor (s : Sanitizer) (p : Project) : List String → Module → Prop
  | circuit {path : List String} {q : Project} {name : String} :
      p.Reaches path q → StandsFor s p path (circuitModule s name q.graph)
  | code {path : List String} {q : Project} {name id text : String} {ports : Ports} :
      p.Reaches path q → ⟨id, .code ports text⟩ ∈ q.graph.blocks →
      StandsFor s p (path ++ [codeType]) ⟨name, ports, .code text⟩

/-- Every module of a tree is named after the path to what it stands for. -/
theorem exists_standsFor (hm : m ∈ treeModules s name p) :
    ∃ path, StandsFor s p path m ∧ m.name = moduleName s name path := by
  obtain ⟨path, q, hq, hm⟩ := mem_treeModules_iff.1 hm
  rcases List.mem_append.1 hm with hcode | hcircuit
  · obtain ⟨⟨id, kind⟩, hb, hmodule⟩ := List.mem_filterMap.1 hcode
    cases kind with
    | code ports text =>
      cases hmodule
      exact ⟨path ++ [codeType], .code hq hb, (moduleName_concat codeType).symm⟩
    | input pin | output pin | compound t => cases hmodule
  · rw [List.mem_singleton.1 hcircuit]
    exact ⟨path, .circuit hq, rfl⟩

end Verilog

/-! ## Compilations -/

open Verilog

variable {s : Sanitizer} {strict : Bool} {name text : String} {p : Project}

/-- What comes before emission announces no module. -/
theorem filter_events_precheck :
    (precheck s strict name p).events.filter Event.isAnnouncement = [] := by
  cases strict with
  | false =>
    rw [precheck, if_neg Bool.false_ne_true]
    split <;> rfl
  | true =>
    have hchecks : (Logged.ofExcept (checkProject s name p).toExcept >>= fun _ => pure ()).events =
        [] := by
      cases hexcept : (checkProject s name p).toExcept with
      | ok warnings => rfl
      | error e => rfl
    have hevents : (precheck s true name p).events =
        (checkProject s name p).warnings.map Event.checkWarning := by
      rw [precheck, if_pos rfl, Logged.events_bind_ok rfl]
      exact (congrArg _ hchecks).trans (List.append_nil _)
    rw [hevents]
    simp [Event.isAnnouncement]

/-- The text of a compilation is that of the modules of the tree, one line break apart, modules
without text included: the modules of the dependencies first, each named below the circuit that uses
it, then those of the code blocks, and then that of the circuit. It can be appended on the way
through the tree. The modules are announced in this order, and each is named after the path to what
it stands for. -/
theorem compileCircuit_output (htext : (compileCircuit s strict name p).result = .ok text) :
    text = "\n".intercalate
        ((treeModules s name p).map fun m => moduleText m.name m.ports m.content.text) ∧
      (emitText s name [] p).result = .ok text ∧
      List.Forall₂ (Announces s)
        ((compileCircuit s strict name p).events.filter Event.isAnnouncement)
        (treeModules s name p) ∧
      ∀ m ∈ treeModules s name p, ∃ path, StandsFor s p path m ∧
        m.name = name ++ String.join (path.map fun t => "_" ++ s.sanitize t true) := by
  rw [compileCircuit] at htext ⊢
  obtain ⟨-, -, hresult, hevents⟩ := Logged.exists_of_bind_eq_ok htext
  obtain ⟨modules, hemit, hrender, hemitEvents⟩ := Logged.exists_of_bind_eq_ok hresult
  cases hrender
  have hmodules : modules = treeModules s name p := eq_treeModules_of_emit hemit
  refine ⟨hmodules ▸ rfl, ?_, ?_, ?_⟩
  · rw [emitText_eq_map_render, map_eq_pure_bind, Logged.result_bind, hemit]
    rfl
  · rw [hevents, List.filter_append, filter_events_precheck, List.nil_append]
    have hevents : (emitCircuit s name p).events = (emit s name [] p).events := by
      rw [emitCircuit, hemitEvents, Logged.events_pure, List.append_nil]
    rw [hevents, ← hmodules]
    exact announces_emit hemit
  · intro m hm
    obtain ⟨path, hstands, hname⟩ := exists_standsFor hm
    exact ⟨path, hstands, hname.trans (moduleName_eq_append_join path)⟩

/-- Three modules: that of the code in the inner circuit, that of the inner circuit, and that of the
outer circuit. -/
theorem compileCircuit_output_alarm :
    (treeModules .sha1 "main" .alarm).map (·.name) =
        ["main_vf67bb5_vf83e2f", "main_vf67bb5", "main"] ∧
      ∃ text, (compileCircuit .sha1 false "main" .alarm).result = .ok text ∧
        (emitText .sha1 "main" [] .alarm).result = .ok text ∧
          List.Forall₂ (Announces .sha1)
            ((compileCircuit .sha1 false "main" .alarm).events.filter Event.isAnnouncement)
            (treeModules .sha1 "main" .alarm) := by
  have hchecks : (checkProject .sha1 "main" .alarm).errors = [] := by decide
  have htext : (compileCircuit .sha1 false "main" .alarm).result =
      .ok (render (treeModules .sha1 "main" .alarm)) := by
    rw [result_compileCircuit_lenient, hchecks]
    rfl
  obtain ⟨-, happended, hannounced, -⟩ := compileCircuit_output htext
  exact ⟨by decide +kernel, _, htext, happended, hannounced⟩

end BlockCircuit
