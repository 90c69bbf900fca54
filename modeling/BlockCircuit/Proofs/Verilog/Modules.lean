import BlockCircuit.Proofs.Check.Findings
import BlockCircuit.Verilog.Emission

/-!
# The modules of a tree, and when there are none

`treeModules` lists the modules of a project without looking for types that are used inside their
own definition. Emission does look for them, in the order in which the checks do, so it stops with
the first error of the checks that is of this kind, and otherwise yields that list.

* `firstErrorOr` — the outcome of work that stops at the first of some errors;
* `not_stopsEmission_of_mem_graphReport` — what is wrong inside one circuit never stops emission;
* `result_emit` — emission in terms of the findings of the checks.
-/

namespace BlockCircuit

/-- Whether an error stops the compilation of a project also when nothing is checked. -/
def CompileError.stopsEmission : CompileError → Bool
  | .malformedProject _ | .cyclicDependency _ => true
  | _ => false

/-- The outcome of work that stops at the first of some errors. -/
def firstErrorOr {α : Type} (errors : List CompileError) (a : α) : Except CompileError α :=
  match errors.head? with
  | some e => .error e
  | none => .ok a

section
variable {α β : Type} {errors more : List CompileError} {a : α}

@[simp] theorem firstErrorOr_nil : firstErrorOr [] a = .ok a := rfl

@[simp] theorem firstErrorOr_cons {e : CompileError} :
    firstErrorOr (e :: errors) a = .error e := rfl

theorem firstErrorOr_eq_error_iff {e : CompileError} :
    firstErrorOr errors a = .error e ↔ errors.head? = some e := by
  cases errors <;> simp

theorem firstErrorOr_eq_ok_iff {b : α} : firstErrorOr errors a = .ok b ↔ errors = [] ∧ a = b := by
  cases errors <;> simp

/-- Work in two parts stops at the first error of the first part, or else of the second. -/
theorem firstErrorOr_bind (f : α → Except CompileError β) {b : β}
    (hf : f a = firstErrorOr more b) :
    (firstErrorOr errors a >>= f) = firstErrorOr (errors ++ more) b := by
  cases errors with
  | nil => exact hf
  | cons e errors => rfl

theorem firstErrorOr_bind_ok (f : α → β) :
    (firstErrorOr errors a >>= fun x => .ok (f x)) = firstErrorOr errors (f a) := by
  cases errors <;> rfl

end

namespace Verilog

variable {s : Sanitizer}

/-! ## All modules of a tree -/

mutual

/-- The modules of a project whose circuit becomes the module `name`. -/
def treeModules (s : Sanitizer) (name : String) : Project → List Module
  | ⟨g, deps⟩ => depModules s name deps ++ graphModules s name g
termination_by structural p => p

/-- The modules of the dependencies of the circuit that becomes the module `name`. -/
def depModules (s : Sanitizer) (name : String) : List (String × Project) → List Module
  | [] => []
  | (typeName, dep) :: deps =>
      treeModules s (s.childName name typeName) dep ++ depModules s name deps
termination_by structural deps => deps

end

theorem depModules_eq_flatMap (name : String) (deps : List (String × Project)) :
    depModules s name deps =
      deps.flatMap fun entry => treeModules s (s.childName name entry.1) entry.2 := by
  induction deps with
  | nil => rw [depModules]; rfl
  | cons entry deps ih =>
    obtain ⟨t, dep⟩ := entry
    rw [depModules, ih, List.flatMap_cons]

/-- The modules of a tree are those of its dependencies, one after another, and then those of the
outermost circuit. -/
theorem treeModules_eq (name : String) (p : Project) :
    treeModules s name p =
      (p.deps.flatMap fun entry => treeModules s (s.childName name entry.1) entry.2) ++
        graphModules s name p.graph := by
  obtain ⟨graph, deps⟩ := p
  rw [treeModules, depModules_eq_flatMap]

/-! ## Emission and the findings of the checks -/

/-- What is wrong inside one circuit does not stop emission. -/
theorem not_stopsEmission_of_mem_graphReport {circuit : String} {deps : List (String × Project)}
    {g : Graph} {e : CompileError} (he : e ∈ (Check.graphReport s circuit deps g).errors) :
    e.stopsEmission = false := by
  cases Check.concernsGraph_of_mem he <;> rfl

theorem filter_errors_graphReport (circuit : String) (deps : List (String × Project)) (g : Graph) :
    (Check.graphReport s circuit deps g).errors.filter CompileError.stopsEmission = [] := by
  rw [List.filter_eq_nil_iff]
  intro e he
  rw [not_stopsEmission_of_mem_graphReport he]
  exact Bool.false_ne_true

/-- Emission stops with the first finding of the checks that stops emission, and otherwise yields
all modules of the tree. -/
theorem result_emit (name : String) (ancestors : List String) (p : Project) :
    (emit s name ancestors p).result =
      firstErrorOr ((Check.visit s name ancestors p).errors.filter CompileError.stopsEmission)
        (treeModules s name p) := by
  -- Both walks go through the dependencies in one order, with the same ancestors.
  refine @Project.induction
    (fun p => ∀ name ancestors, (emit s name ancestors p).result =
      firstErrorOr ((Check.visit s name ancestors p).errors.filter CompileError.stopsEmission)
        (treeModules s name p))
    (fun deps => ∀ name ancestors, (emitDeps s name ancestors deps).result =
      firstErrorOr ((Check.visitDeps s name ancestors deps).errors.filter
        CompileError.stopsEmission) (depModules s name deps))
    ?mk ?nil ?cons p name ancestors
  case mk =>
    intro graph deps ih name ancestors
    rw [emit, Check.visit, treeModules, Logged.result_bind, ih, CheckReport.errors_append,
      List.filter_append]
    refine firstErrorOr_bind _ ?_
    rw [filter_errors_graphReport]
    rfl
  case nil =>
    intro name ancestors
    rw [emitDeps, Check.visitDeps, depModules]
    rfl
  case cons =>
    intro t dep deps ihdep ihdeps name ancestors
    rw [emitDeps, Check.visitDeps, depModules, CheckReport.errors_append, List.filter_append]
    split
    · rfl
    · rw [Logged.result_bind, ihdep]
      refine firstErrorOr_bind _ ?_
      rw [Logged.result_bind, ihdeps]
      exact firstErrorOr_bind_ok _

/-- For an accepted project, emission yields all modules of the tree. -/
theorem result_emit_of_isOk {name : String} {p : Project}
    (hok : (checkProject s name p).isOk = true) :
    (emit s name [] p).result = .ok (treeModules s name p) := by
  rw [result_emit, Check.errors_visit_of_isOk hok, List.filter_nil, firstErrorOr_nil]

end Verilog

end BlockCircuit
