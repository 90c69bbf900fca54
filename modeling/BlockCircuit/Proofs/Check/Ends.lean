import BlockCircuit.Proofs.Check.WellFormed
import BlockCircuit.Proofs.Project.ModuleName

/-!
# What the checks say about ends of wires

Every wire has two ends, and the checks look at each of them by itself, in every circuit that they
visit. A circuit below a type that is used inside its own definition is not visited. An end at a
block with ports is refused when the identifier of its port is not in the list of the ports. For a
compound block this list has the identifiers of the ports of its circuit; for code it has the ports
as they are written. So a port with a hyphen that code declares is not found.

* `Graph.ends` — the ends of the wires of a circuit;
* `visitedCircuits` — the circuits that the checks visit, in order;
* `danglingErrors_eq` — the errors about ends of wires, circuit by circuit and end by end;
* `Declares`, `Overlooked` — a block declares a port of just this name, and the checks miss it;
* `endError?_of_declares` — whether an end at a declared port is refused;
* `declared_ports_are_found` — in all visited circuits, declared ports are found but for those that
  are overlooked; `declared_port_of_plug` is one of those.
-/

namespace BlockCircuit

open Check (Side)

/-! ## Ends of wires -/

/-- The end of a wire on one side. -/
def Wire.endAt (w : Wire) : Check.Side → Endpoint
  | .source => w.source
  | .target => w.target

/-- An end of a wire: the number of the wire, the side, and the port that is there. -/
structure WireEnd where
  net : Nat
  side : Side
  place : Endpoint
deriving DecidableEq, Repr

namespace Graph

variable {g : Graph} {e f : WireEnd}

/-- The ends of all wires: the source of each wire, then its target. -/
def ends (g : Graph) : List WireEnd :=
  g.wires.zipIdx.flatMap fun (w, net) => [⟨net, .source, w.source⟩, ⟨net, .target, w.target⟩]

theorem mem_ends_iff {net : Nat} {side : Side} {place : Endpoint} :
    ⟨net, side, place⟩ ∈ g.ends ↔ ∃ w, g.wires[net]? = some w ∧ w.endAt side = place := by
  rw [ends, List.mem_flatMap]
  constructor
  · rintro ⟨⟨w, number⟩, hentry, he⟩
    have hw : g.wires[number]? = some w := List.mk_mem_zipIdx_iff_getElem?.1 hentry
    rcases List.mem_cons.1 he with he | he
    · cases he
      exact ⟨w, hw, rfl⟩
    · cases List.mem_singleton.1 he
      exact ⟨w, hw, rfl⟩
  · rintro ⟨w, hw, rfl⟩
    refine ⟨(w, net), List.mk_mem_zipIdx_iff_getElem?.2 hw, ?_⟩
    cases side <;> simp [Wire.endAt]

/-- An end is known by its wire and its side. -/
theorem eq_of_mem_ends (he : e ∈ g.ends) (hf : f ∈ g.ends) (hnet : e.net = f.net)
    (hside : e.side = f.side) : e = f := by
  obtain ⟨net, side, place⟩ := e
  obtain ⟨number, other, place'⟩ := f
  cases hnet
  cases hside
  obtain ⟨w, hw, rfl⟩ := mem_ends_iff.1 he
  obtain ⟨v, hv, rfl⟩ := mem_ends_iff.1 hf
  cases hw.symm.trans hv
  rfl

end Graph

/-- Whether an error is about an end of a wire. -/
def CompileError.isDanglingWire : CompileError → Bool
  | .danglingWire _ _ _ => true
  | _ => false

namespace Check

variable {s : Sanitizer} {name circuit : String} {ancestors : List String} {p q : Project}
  {deps : List (String × Project)} {e : WireEnd} {b : Block} {side : Side} {port : String}

/-! ## Visited circuits -/

mutual

/-- The circuits of a project that the checks visit, each with the name of its module: those below
the dependencies, and then the circuit of the project. -/
def visitedCircuits (s : Sanitizer) (name : String) (ancestors : List String) :
    Project → List (String × Project)
  | ⟨g, deps⟩ => visitedDeps s name ancestors deps ++ [(name, ⟨g, deps⟩)]
termination_by structural p => p

/-- The visited circuits below the dependencies of the circuit that becomes the module `name`. -/
def visitedDeps (s : Sanitizer) (name : String) (ancestors : List String) :
    List (String × Project) → List (String × Project)
  | [] => []
  | (typeName, dep) :: deps =>
      (if typeName ∈ ancestors then []
       else visitedCircuits s (s.childName name typeName) (ancestors ++ [typeName]) dep)
        ++ visitedDeps s name ancestors deps
termination_by structural deps => deps

end

/-- The visited circuits of one dependency. -/
def visitedBelow (s : Sanitizer) (name : String) (ancestors : List String)
    (entry : String × Project) : List (String × Project) :=
  if entry.1 ∈ ancestors then []
  else visitedCircuits s (s.childName name entry.1) (ancestors ++ [entry.1]) entry.2

theorem visitedDeps_eq_flatMap (name : String) (ancestors : List String)
    (deps : List (String × Project)) :
    visitedDeps s name ancestors deps = deps.flatMap (visitedBelow s name ancestors) := by
  induction deps with
  | nil => rw [visitedDeps]; rfl
  | cons entry deps ih =>
    obtain ⟨t, dep⟩ := entry
    rw [visitedDeps, ih, List.flatMap_cons]
    rfl

theorem visitedCircuits_eq (name : String) (ancestors : List String) (p : Project) :
    visitedCircuits s name ancestors p =
      p.deps.flatMap (visitedBelow s name ancestors) ++ [(name, p)] := by
  obtain ⟨g, deps⟩ := p
  rw [visitedCircuits, visitedDeps_eq_flatMap]

/-- The checks visit the circuits at the end of paths that do not repeat a type name. -/
theorem mem_visitedCircuits_iff (hnd : ancestors.Nodup) :
    (circuit, q) ∈ visitedCircuits s name ancestors p ↔
      ∃ path, p.Reaches path q ∧ (ancestors ++ path).Nodup ∧ circuit = moduleName s name path := by
  induction p using Project.induction_deps generalizing name ancestors with
  | step p ih =>
    rw [visitedCircuits_eq, List.mem_append, List.mem_flatMap, List.mem_singleton]
    constructor
    · rintro (⟨⟨t, dep⟩, hdep, hmem⟩ | hself)
      · by_cases ht : t ∈ ancestors
        · rw [visitedBelow, if_pos ht] at hmem
          exact absurd hmem List.not_mem_nil
        · rw [visitedBelow, if_neg ht] at hmem
          have hnd' : (ancestors ++ [t]).Nodup :=
            hnd.append (List.nodup_singleton t) (List.disjoint_singleton.2 ht)
          obtain ⟨path, hq, hpath, hcircuit⟩ := (ih t dep hdep hnd').1 hmem
          refine ⟨t :: path, .through hdep hq, ?_, hcircuit⟩
          rwa [List.append_assoc] at hpath
      · cases hself
        exact ⟨[], .here _, by rwa [List.append_nil], rfl⟩
    · rintro ⟨path, hq, hpath, rfl⟩
      cases hq with
      | here => exact .inr rfl
      | @through _ dep _ t rest hdep hq =>
        have hnd' : (ancestors ++ [t] ++ rest).Nodup := by rwa [List.append_assoc]
        have ht : t ∉ ancestors := by
          intro ht
          exact List.disjoint_of_nodup_append hpath ht List.mem_cons_self
        refine .inl ⟨(t, dep), hdep, ?_⟩
        rw [visitedBelow, if_neg ht]
        exact (ih t dep hdep (List.Nodup.of_append_left hnd')).2 ⟨rest, hq, hnd', rfl⟩

/-- What a report says of a kind that is never said about a cycle is said about one visited circuit
after another. -/
theorem part_visit_eq_flatMap {α : Type} {part : CheckReport → List α} (hnil : part {} = [])
    (happend : ∀ r t, part (r ++ t) = part r ++ part t)
    (hcycle : ∀ chain, part (.ofError (.cyclicDependency chain)) = []) :
    part (visit s name ancestors p) = (visitedCircuits s name ancestors p).flatMap fun c =>
      part (graphReport s c.1 c.2.deps c.2.graph) := by
  induction p using Project.induction_deps generalizing name ancestors with
  | step p ih =>
    rw [part_visit hnil happend, visitedCircuits_eq, List.flatMap_append, List.flatMap_assoc,
      List.flatMap_singleton]
    refine congrArg (· ++ _) (List.flatMap_congr ?_)
    rintro ⟨t, dep⟩ hdep
    by_cases ht : t ∈ ancestors
    · rw [visitEntry, if_pos ht, visitedBelow, if_pos ht, hcycle, List.flatMap_nil]
    · rw [visitEntry, if_neg ht, visitedBelow, if_neg ht, ih t dep hdep]

/-! ## Errors about ends -/

/-- The error about an end of a wire in the circuit of a project. -/
def endError? (s : Sanitizer) (circuit : String) (p : Project) (e : WireEnd) :
    Option CompileError :=
  (endProblem? s p.deps p.graph e.place e.side).map fun problem =>
    .danglingWire circuit e.net problem.text

/-- The errors about the wires of a circuit, end by end. -/
theorem wireErrors_eq_filterMap_ends (s : Sanitizer) (circuit : String) (p : Project) :
    (p.graph.wires.zipIdx.flatMap fun (wire, number) =>
        wireErrors s circuit p.deps p.graph wire number) =
      p.graph.ends.filterMap (endError? s circuit p) := by
  rw [Graph.ends, List.filterMap_flatMap]
  rfl

/-- In one circuit, only the errors about wires are about ends. -/
theorem danglingErrors_graphReport (s : Sanitizer) (circuit : String) (p : Project) :
    (graphReport s circuit p.deps p.graph).errors.filter CompileError.isDanglingWire =
      p.graph.ends.filterMap (endError? s circuit p) := by
  have hids : ((repeated [] (p.graph.blocks.map (·.id))).map (.duplicateBlockId circuit)).filter
      CompileError.isDanglingWire = [] := by
    simp [List.filter_eq_nil_iff, CompileError.isDanglingWire]
  have htypes : (p.graph.blocks.filterMap (typeError? circuit p.deps)).filter
      CompileError.isDanglingWire = [] := by
    apply List.filter_eq_nil_iff.2
    intro e he
    obtain ⟨b, -, herror⟩ := List.mem_filterMap.1 he
    rw [typeError?] at herror
    split at herror
    · split at herror <;> cases herror
      exact Bool.false_ne_true
    · cases herror
  have hcode : (codeErrors s circuit p.graph).filter CompileError.isDanglingWire = [] := by
    rw [codeErrors]
    split <;> rfl
  have hwires : (p.graph.ends.filterMap (endError? s circuit p)).filter
      CompileError.isDanglingWire = p.graph.ends.filterMap (endError? s circuit p) := by
    apply List.filter_eq_self.2
    intro e he
    obtain ⟨place, -, herror⟩ := List.mem_filterMap.1 he
    obtain ⟨problem, -, rfl⟩ := Option.map_eq_some_iff.1 herror
    rfl
  rw [graphReport, wireErrors_eq_filterMap_ends, List.filter_append, List.filter_append,
    List.filter_append, hids, htypes, hcode, hwires]
  rfl

/-- The errors about ends of wires are those of one visited circuit after another, and in a circuit
those of one end after another. -/
theorem danglingErrors_eq (s : Sanitizer) (name : String) (p : Project) :
    (checkProject s name p).errors.filter CompileError.isDanglingWire =
      (visitedCircuits s name [] p).flatMap fun c =>
        c.2.graph.ends.filterMap (endError? s c.1 c.2) := by
  have hname : (if name = "" then [emptyNameError] else []).filter CompileError.isDanglingWire =
      [] := by
    split <;> rfl
  have hvisit : (visit s name [] p).errors.filter CompileError.isDanglingWire =
      (visitedCircuits s name [] p).flatMap fun c =>
        (graphReport s c.1 c.2.deps c.2.graph).errors.filter CompileError.isDanglingWire :=
    @part_visit_eq_flatMap s name [] p _ (fun r => r.errors.filter CompileError.isDanglingWire) rfl
      (fun _ _ => List.filter_append _ _) (fun _ => rfl)
  rw [errors_checkProject, List.filter_append, hname, List.nil_append, hvisit]
  simp only [danglingErrors_graphReport]

/-! ## Declared ports -/

/-- A block of this kind declares a port of just this name for the given end of a wire. For a compound
block these are the ids of the outputs and of the inputs of its circuit. -/
inductive Declares (deps : List (String × Project)) : Side → String → BlockKind → Prop
  | code {side : Side} {port text : String} {ports : Ports} :
      port ∈ side.ports ports → Declares deps side port (.code ports text)
  | compoundOutput {port t : String} {dep : Project} {pin : Option Pin} :
      deps.lookup t = some dep → ⟨port, .output pin⟩ ∈ dep.graph.blocks →
      Declares deps .source port (.compound t)
  | compoundInput {port t : String} {dep : Project} {pin : Option Pin} :
      deps.lookup t = some dep → ⟨port, .input pin⟩ ∈ dep.graph.blocks →
      Declares deps .target port (.compound t)

/-- A port that code declares is not found: it has a hyphen, so it is looked for by its token, and
the list has the ports as they are written. -/
inductive Overlooked (s : Sanitizer) (side : Side) (port : String) : BlockKind → Prop
  | code {text : String} {ports : Ports} : '-' ∈ port.toList → s.token port ∉ side.ports ports →
      Overlooked s side port (.code ports text)

/-- A dependency has its ports under their identifiers, so none of them is overlooked. -/
theorem not_overlooked_compound (t : String) : ¬Overlooked s side port (.compound t) := by
  intro h
  cases h

/-- The identifier of a port that code declares is listed, unless the port is overlooked. -/
theorem ident_mem_ports_iff {ports : Ports} {text : String} (hport : port ∈ side.ports ports) :
    s.ident port ∈ side.ports ports ↔ ¬Overlooked s side port (.code ports text) := by
  constructor
  · rintro hmem ⟨hhyphen, htoken⟩
    rw [Sanitizer.ident_of_mem hhyphen] at hmem
    exact htoken hmem
  · intro hfound
    by_cases hhyphen : '-' ∈ port.toList
    · rw [Sanitizer.ident_of_mem hhyphen]
      exact Decidable.not_not.1 fun htoken => hfound (.code hhyphen htoken)
    · rwa [Sanitizer.ident_of_notMem hhyphen]

/-- The port list of a block has the identifier of each port that the block declares, unless the port
is overlooked. -/
theorem exists_portsOf?_of_declares {kind : BlockKind} (h : Declares deps side port kind) :
    ∃ ports, portsOf? s deps kind = some ports ∧
      (s.ident port ∈ side.ports ports ↔ ¬Overlooked s side port kind) := by
  cases h with
  | code hport => exact ⟨_, rfl, ident_mem_ports_iff hport⟩
  | @compoundOutput _ t dep pin hdep hblock =>
    have hmem : s.ident port ∈ (dep.graph.ports s).outputs :=
      mem_outputs_iff.2 ⟨port, pin, hblock, rfl⟩
    exact ⟨dep.graph.ports s, by rw [portsOf?, hdep]; rfl,
      iff_of_true hmem (not_overlooked_compound t)⟩
  | @compoundInput _ t dep pin hdep hblock =>
    have hmem : s.ident port ∈ (dep.graph.ports s).inputs :=
      mem_inputs_iff.2 ⟨port, pin, hblock, rfl⟩
    exact ⟨dep.graph.ports s, by rw [portsOf?, hdep]; rfl,
      iff_of_true hmem (not_overlooked_compound t)⟩

/-- An end at a port that its block declares is refused exactly when the port is overlooked. Then it
is called undeclared. -/
theorem endError?_of_declares (hb : q.graph.block? e.place.block = some b)
    (h : Declares q.deps e.side e.place.port b.kind) :
    (¬Overlooked s e.side e.place.port b.kind → endError? s circuit q e = none) ∧
      (Overlooked s e.side e.place.port b.kind → endError? s circuit q e = some
        (.danglingWire circuit e.net (EndProblem.undeclaredPort e.place.port b.id e.side).text)) := by
  obtain ⟨ports, hports, hlisted⟩ := exists_portsOf?_of_declares (s := s) h
  have hproblem : endProblem? s q.deps q.graph e.place e.side =
      if s.ident e.place.port ∈ e.side.ports ports then none
      else some (.undeclaredPort e.place.port b.id e.side) := by
    rw [endProblem?, hb]
    exact portProblem?_of_ports hports
  constructor
  · intro hfound
    rw [endError?, hproblem, if_pos (hlisted.2 hfound)]
    rfl
  · intro hover
    rw [endError?, hproblem, if_neg fun hmem => hlisted.1 hmem hover]
    rfl

/-- The errors about ends of wires come from the visited circuits, end by end, and the visited
circuits are those at the end of paths that do not repeat a type name. If the block at an end, the
first one with its id, declares a port of just this name, then there is no error about the end,
except at code: there a port with a hyphen is called undeclared if its token is not declared. -/
theorem declared_ports_are_found (s : Sanitizer) (name : String) (p : Project) :
    (checkProject s name p).errors.filter CompileError.isDanglingWire =
        ((visitedCircuits s name [] p).flatMap fun c =>
          c.2.graph.ends.filterMap (endError? s c.1 c.2)) ∧
      (∀ circuit q, (circuit, q) ∈ visitedCircuits s name [] p ↔
        ∃ path, p.Reaches path q ∧ path.Nodup ∧ circuit = moduleName s name path) ∧
      ∀ circuit q, (circuit, q) ∈ visitedCircuits s name [] p → ∀ e ∈ q.graph.ends, ∀ b,
        q.graph.block? e.place.block = some b → Declares q.deps e.side e.place.port b.kind →
          (¬Overlooked s e.side e.place.port b.kind → endError? s circuit q e = none) ∧
            (Overlooked s e.side e.place.port b.kind → endError? s circuit q e = some
              (.danglingWire circuit e.net
                (EndProblem.undeclaredPort e.place.port b.id e.side).text)) :=
  ⟨danglingErrors_eq s name p, fun _ _ => mem_visitedCircuits_iff List.nodup_nil,
    fun _ _ _ _ _ _ hb h => endError?_of_declares hb h⟩

end Check

/-- A circuit with an input that has a hyphen. -/
def Project.socket : Project := .ofGraph {
  blocks := [.input "in-1", .output "q"]
  wires := [⟨⟨"in-1", "out"⟩, ⟨"q", "in"⟩⟩] }

/-- A wire to a port with a hyphen of a dependency, and then one to such a port of code. -/
def Project.plug : Project where
  graph := {
    blocks := [.input "a", .compound "u" "socket", .code "c" ⟨["x-1"], ["y"]⟩ "assign y = 1;",
      .output "o"]
    wires := [⟨⟨"a", "out"⟩, ⟨"u", "in-1"⟩⟩, ⟨⟨"u", "q"⟩, ⟨"c", "x-1"⟩⟩, ⟨⟨"c", "y"⟩, ⟨"o", "in"⟩⟩] }
  deps := [("socket", .socket)]

namespace Check

/-- The port of the dependency is found. -/
theorem declared_port_of_socket :
    endError? .sha1 "main" .plug ⟨0, .target, ⟨"u", "in-1"⟩⟩ = none := by
  obtain ⟨-, hvisited, hends⟩ := declared_ports_are_found .sha1 "main" .plug
  have hplug : ("main", Project.plug) ∈ visitedCircuits .sha1 "main" [] .plug :=
    (hvisited _ _).2 ⟨[], .here _, List.nodup_nil, rfl⟩
  have hdeclares : Declares Project.plug.deps .target "in-1" (.compound "socket") :=
    .compoundInput rfl List.mem_cons_self
  exact (hends _ _ hplug ⟨0, .target, ⟨"u", "in-1"⟩⟩ (by decide) _ rfl hdeclares).1
    (not_overlooked_compound "socket")

/-- The port of the code is declared, and the only error of the checks is that it is not. -/
theorem declared_port_of_plug :
    ("main", Project.plug) ∈ visitedCircuits .sha1 "main" [] .plug ∧
      ⟨1, .target, ⟨"c", "x-1"⟩⟩ ∈ Project.plug.graph.ends ∧
        Project.plug.graph.block? "c" = some (.code "c" ⟨["x-1"], ["y"]⟩ "assign y = 1;") ∧
          Declares Project.plug.deps .target "x-1" (.code ⟨["x-1"], ["y"]⟩ "assign y = 1;") ∧
            (checkProject .sha1 "main" .plug).errors = [.danglingWire "main" 1
              "port `x-1`, which block `c` does not declare as an input"] := by
  refine ⟨?_, by decide, by decide, .code List.mem_cons_self, by decide +kernel⟩
  exact (mem_visitedCircuits_iff List.nodup_nil).2 ⟨[], .here _, List.nodup_nil, rfl⟩

end Check

end BlockCircuit
