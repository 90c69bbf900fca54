import BlockCircuit.Proofs.Project.Cycles
import BlockCircuit.Proofs.Verilog.Modules

/-!
# The order in which circuits are written

Checks and emission both go through the dependencies of a circuit before they come to the circuit
itself. `namedCircuits` lists the circuits of a tree in this order, each with the name of its module.
In a tree where no type is used inside its own definition, everything that the walks report or write
is what they report or write for one circuit after another.

* `treeModules_eq_flatMap` — the modules of a tree, circuit by circuit;
* `emit_of_acyclic` — emission yields them, with the events of one circuit after another;
* `part_visit_of_acyclic` — so do the checks with their errors and with their warnings.
-/

namespace BlockCircuit

variable {s : Sanitizer} {name : String} {ancestors : List String} {p : Project}

namespace Verilog

mutual

/-- The circuits of a project in the order in which they are written, each with the name of its
module: those below the dependencies, and then the circuit of the project. -/
def namedCircuits (s : Sanitizer) (name : String) : Project → List (String × Project)
  | ⟨g, deps⟩ => namedDeps s name deps ++ [(name, ⟨g, deps⟩)]
termination_by structural p => p

/-- The circuits below the dependencies of the circuit that becomes the module `name`. -/
def namedDeps (s : Sanitizer) (name : String) : List (String × Project) → List (String × Project)
  | [] => []
  | (typeName, dep) :: deps =>
      namedCircuits s (s.childName name typeName) dep ++ namedDeps s name deps
termination_by structural deps => deps

end

theorem namedDeps_eq_flatMap (name : String) (deps : List (String × Project)) :
    namedDeps s name deps =
      deps.flatMap fun entry => namedCircuits s (s.childName name entry.1) entry.2 := by
  induction deps with
  | nil => rw [namedDeps]; rfl
  | cons entry deps ih =>
    obtain ⟨t, dep⟩ := entry
    rw [namedDeps, ih, List.flatMap_cons]

theorem namedCircuits_eq (name : String) (p : Project) :
    namedCircuits s name p =
      (p.deps.flatMap fun entry => namedCircuits s (s.childName name entry.1) entry.2) ++
        [(name, p)] := by
  obtain ⟨g, deps⟩ := p
  rw [namedCircuits, namedDeps_eq_flatMap]

/-- What is put together from the parts below dependencies and an own part is put together from the
parts of all circuits. -/
theorem eq_flatMap_namedCircuits {α : Type} {whole : String → Project → List α}
    {part : String → Project → List α}
    (hwhole : ∀ name p, whole name p =
      (p.deps.flatMap fun entry => whole (s.childName name entry.1) entry.2) ++ part name p) :
    whole name p = (namedCircuits s name p).flatMap fun c => part c.1 c.2 := by
  induction p using Project.induction_deps generalizing name with
  | step p ih =>
    rw [hwhole, namedCircuits_eq, List.flatMap_append, List.flatMap_assoc]
    congr 1
    · refine List.flatMap_congr ?_
      rintro ⟨t, dep⟩ hdep
      exact ih t dep hdep
    · simp

/-- The modules of a tree are those of its circuits. -/
theorem treeModules_eq_flatMap (name : String) (p : Project) :
    treeModules s name p =
      (namedCircuits s name p).flatMap fun c => graphModules s c.1 c.2.graph :=
  eq_flatMap_namedCircuits treeModules_eq

/-- Emission of a tree without a cycle yields all modules, and reports the events of one circuit
after another. -/
theorem emit_of_acyclic (h : p.Acyclic ancestors) :
    emit s name ancestors p =
      ⟨(namedCircuits s name p).flatMap fun c => graphEvents s c.1 c.2.graph,
        .ok (treeModules s name p)⟩ := by
  refine @Project.induction
    (fun p => ∀ name ancestors, p.Acyclic ancestors → emit s name ancestors p =
      ⟨(namedCircuits s name p).flatMap fun c => graphEvents s c.1 c.2.graph,
        .ok (treeModules s name p)⟩)
    (fun deps => ∀ name ancestors, (∀ t dep, (t, dep) ∈ deps → dep.Acyclic (ancestors ++ [t])) →
      emitDeps s name ancestors deps =
        ⟨(namedDeps s name deps).flatMap fun c => graphEvents s c.1 c.2.graph,
          .ok (depModules s name deps)⟩)
    ?project ?nil ?cons p name ancestors h
  case project =>
    intro g deps ih name ancestors h
    rw [emit, ih name ancestors (Project.acyclic_iff.1 h).2, namedCircuits, treeModules,
      List.flatMap_append, List.flatMap_singleton]
    exact congrArg (Logged.mk · _) (congrArg (_ ++ ·) (List.append_nil _))
  case nil =>
    intro name ancestors _
    rw [emitDeps, namedDeps, depModules]
    rfl
  case cons =>
    intro t dep deps ihdep ihdeps name ancestors h
    have hdep : dep.Acyclic (ancestors ++ [t]) := h t dep List.mem_cons_self
    rw [emitDeps, if_neg hdep.notMem, ihdep _ _ hdep, ihdeps name ancestors
      fun u other hother => h u other (List.mem_cons_of_mem _ hother), namedDeps, depModules,
      List.flatMap_append]
    exact congrArg (Logged.mk · _) (congrArg (_ ++ ·) (List.append_nil _))

end Verilog

namespace Check

/-- What the checks of a tree without a cycle say of one kind is what they say about one circuit after
another. -/
theorem part_visit_of_acyclic {α : Type} {part : CheckReport → List α} (hnil : part {} = [])
    (happend : ∀ r t, part (r ++ t) = part r ++ part t) (h : p.Acyclic ancestors) :
    part (visit s name ancestors p) = (Verilog.namedCircuits s name p).flatMap fun c =>
      part (graphReport s c.1 c.2.deps c.2.graph) := by
  induction p using Project.induction_deps generalizing name ancestors with
  | step p ih =>
    rw [part_visit hnil happend, Verilog.namedCircuits_eq, List.flatMap_append, List.flatMap_assoc,
      List.flatMap_singleton]
    refine congrArg (· ++ _) (List.flatMap_congr ?_)
    rintro ⟨t, dep⟩ hdep
    have hbelow : dep.Acyclic (ancestors ++ [t]) := h.below hdep
    rw [visitEntry, if_neg hbelow.notMem, ih t dep hdep hbelow]

theorem errors_visit_of_acyclic (h : p.Acyclic ancestors) :
    (visit s name ancestors p).errors = (Verilog.namedCircuits s name p).flatMap fun c =>
      (graphReport s c.1 c.2.deps c.2.graph).errors :=
  part_visit_of_acyclic rfl (fun _ _ => rfl) h

theorem warnings_visit_of_acyclic (h : p.Acyclic ancestors) :
    (visit s name ancestors p).warnings = (Verilog.namedCircuits s name p).flatMap fun c =>
      (graphReport s c.1 c.2.deps c.2.graph).warnings :=
  part_visit_of_acyclic rfl (fun _ _ => rfl) h

end Check

end BlockCircuit
