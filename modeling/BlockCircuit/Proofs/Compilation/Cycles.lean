import BlockCircuit.Proofs.Compilation.Failure
import BlockCircuit.Proofs.Project.Cycles

/-!
# Compilation and cycles

Without checks, the only reason why a project with a name does not compile is a type that is used
inside its own definition. The walk keeps the types above the current circuit, and stops at the first
one that comes again. A type that is used twice side by side is no such case.

* `cycleError?` — the error of a path that recurs;
* `head?_errors_visit` — the first error that stops emission is that of the first path that recurs;
* `isCycle_of_mem_errors_visit` — every cycle that is reported goes from a type back to itself;
* `filter_errors_visit_eq_nil_iff` — nothing stops emission exactly when no path repeats a type name;
* `compileCircuit_lenient_eq_ok_iff` — the text of a project that compiles without checks;
* `compileCircuit_finds_first_cycle` — when compilation without checks fails, and with what.
-/

namespace BlockCircuit

variable {s : Sanitizer} {name : String} {ancestors : List String} {p : Project}

namespace Check

open Project (Recurs IsCycle FirstRecurrence circuits depCircuits cycle)

/-! ## The first cycle -/

/-- The error of a path that recurs. -/
def cycleError? (path : List String) : Option CompileError :=
  path.getLast?.bind fun t =>
    if t ∈ path.dropLast then some (.cyclicDependency (cycle path.dropLast t)) else none

@[simp] theorem cycleError?_concat (above : List String) (t : String) :
    cycleError? (above ++ [t]) =
      if t ∈ above then some (.cyclicDependency (cycle above t)) else none := by
  simp [cycleError?]

theorem cycleError?_eq_some_iff {path : List String} {e : CompileError} :
    cycleError? path = some e ↔
      ∃ above t, path = above ++ [t] ∧ t ∈ above ∧ e = .cyclicDependency (cycle above t) := by
  rcases List.eq_nil_or_concat path with rfl | ⟨above, t, rfl⟩
  · simp [cycleError?]
  · rw [List.concat_eq_append, cycleError?_concat]
    constructor
    · intro h
      split at h
      · rename_i ht
        exact ⟨above, t, rfl, ht, (Option.some.inj h).symm⟩
      · cases h
    · rintro ⟨other, u, hpath, hu, rfl⟩
      obtain ⟨rfl, hut⟩ := List.append_inj' hpath rfl
      cases hut
      rw [if_pos hu]

theorem cycleError?_eq_none_iff {path : List String} : cycleError? path = none ↔ ¬Recurs path := by
  rw [← not_iff_not, not_not, ← ne_eq, Option.ne_none_iff_exists']
  simp only [cycleError?_eq_some_iff]
  constructor
  · rintro ⟨e, above, t, rfl, ht, -⟩
    exact ⟨above, t, rfl, ht⟩
  · rintro ⟨above, t, rfl, ht⟩
    exact ⟨_, above, t, rfl, ht, rfl⟩

/-- The first error that stops emission is that of the first path that recurs. -/
theorem head?_errors_visit (hnd : ancestors.Nodup) :
    ((visit s name ancestors p).errors.filter CompileError.stopsEmission).head? =
      p.circuits.findSome? fun c => cycleError? (ancestors ++ c.1) := by
  refine @Project.induction
    (fun p => ∀ name (ancestors : List String), ancestors.Nodup →
      ((visit s name ancestors p).errors.filter CompileError.stopsEmission).head? =
        p.circuits.findSome? fun c => cycleError? (ancestors ++ c.1))
    (fun deps => ∀ name (ancestors : List String), ancestors.Nodup →
      ((visitDeps s name ancestors deps).errors.filter CompileError.stopsEmission).head? =
        (depCircuits deps).findSome? fun c => cycleError? (ancestors ++ c.1))
    ?project ?nil ?cons p name ancestors hnd
  case project =>
    intro g deps ih name ancestors hnd
    have hhere : cycleError? (ancestors ++ []) = none := by
      rw [List.append_nil, cycleError?_eq_none_iff]
      exact Project.not_recurs_of_nodup hnd
    rw [visit, circuits, CheckReport.errors_append, List.filter_append,
      Verilog.filter_errors_graphReport, List.append_nil, ih name ancestors hnd,
      List.findSome?_cons, hhere]
  case nil =>
    intro name ancestors _
    rw [visitDeps, depCircuits]
    rfl
  case cons =>
    intro t dep deps ihdep ihdeps name ancestors hnd
    rw [visitDeps, depCircuits, CheckReport.errors_append, List.filter_append, List.head?_append,
      ihdeps name ancestors hnd, List.findSome?_append, List.findSome?_map]
    refine congrArg (Option.or · _) ?_
    -- Below the dependency, the paths go on from the ancestors and its own name.
    split
    · rename_i ht
      obtain ⟨g, below⟩ := dep
      have hhere : cycleError? (ancestors ++ [t]) =
          some (.cyclicDependency (cycle ancestors t)) := by
        rw [cycleError?_concat, if_pos ht]
      rw [circuits, List.findSome?_cons]
      simp only [Function.comp_apply, hhere]
      rfl
    · rename_i ht
      have hnd' : (ancestors ++ [t]).Nodup :=
        hnd.append (List.nodup_singleton t) (List.disjoint_singleton.2 ht)
      rw [ihdep _ _ hnd']
      simp only [Function.comp_def, List.append_assoc, List.singleton_append]

/-- Every cycle that is reported goes from a type back to itself, and through no type twice before. -/
theorem isCycle_of_mem_errors_visit (hnd : ancestors.Nodup) {chain : List String}
    (he : .cyclicDependency chain ∈ (visit s name ancestors p).errors) : ∃ t, IsCycle chain t := by
  induction p using Project.induction_deps generalizing name ancestors with
  | step p ih =>
    rw [errors_visit, List.mem_append, List.mem_flatMap] at he
    rcases he with ⟨⟨t, dep⟩, hdep, hentry⟩ | hgraph
    · rw [visitEntry] at hentry
      split at hentry
      · rename_i ht
        cases List.mem_singleton.1 hentry
        exact ⟨t, Project.isCycle_cycle hnd ht⟩
      · rename_i ht
        have hnd' : (ancestors ++ [t]).Nodup :=
          hnd.append (List.nodup_singleton t) (List.disjoint_singleton.2 ht)
        exact ih t dep hdep hnd' hentry
    · cases concernsGraph_of_mem hgraph

end Check

open Check Project

/-- Nothing stops emission exactly when no path from the outermost project repeats a type name. -/
theorem filter_errors_visit_eq_nil_iff :
    (visit s name [] p).errors.filter CompileError.stopsEmission = [] ↔
      ∀ path q, p.Reaches path q → path.Nodup := by
  rw [← List.head?_eq_none_iff, head?_errors_visit List.nodup_nil, List.findSome?_eq_none_iff,
    Project.forall_nodup_iff]
  simp only [List.nil_append, cycleError?_eq_none_iff]
  constructor
  · intro h path q hq
    exact h (path, q) (Project.mem_circuits_iff.2 hq)
  · intro h c hc
    exact h c.1 c.2 (Project.mem_circuits_iff.1 hc)

/-- Where emission succeeds there is no cycle. -/
theorem acyclic_of_emit {modules : List Verilog.Module}
    (h : (Verilog.emit s name [] p).result = .ok modules) : p.Acyclic [] := by
  rw [Verilog.result_emit, firstErrorOr_eq_ok_iff] at h
  exact filter_errors_visit_eq_nil_iff.1 h.1

/-- Without checks, compilation yields the text of all modules for the projects that have a name and
no cycle. -/
theorem compileCircuit_lenient_eq_ok_iff {text : String} :
    (compileCircuit s false name p).result = .ok text ↔
      name ≠ "" ∧ p.Acyclic [] ∧ Verilog.render (Verilog.treeModules s name p) = text := by
  have hname : (if name = "" then [emptyNameError] else []) = [] ↔ name ≠ "" := by
    by_cases h : name = "" <;> simp [h]
  rw [result_compileCircuit_lenient, firstErrorOr_eq_ok_iff, filter_errors_checkProject,
    List.append_eq_nil_iff, hname, filter_errors_visit_eq_nil_iff, and_assoc]
  rfl

/-- What stops emission is a cycle at the end of the first path that recurs. -/
theorem exists_firstRecurrence {e : CompileError}
    (he : ((visit s name [] p).errors.filter CompileError.stopsEmission).head? = some e) :
    ∃ above t chain, p.FirstRecurrence above t ∧ e = .cyclicDependency chain ∧ IsCycle chain t ∧
      chain <:+ above ++ [t] := by
  have hmem : e ∈ (visit s name [] p).errors := List.mem_of_mem_filter (List.mem_of_head? he)
  rw [head?_errors_visit List.nodup_nil, List.findSome?_eq_some_iff] at he
  obtain ⟨before, ⟨path, q⟩, after, hcircuits, herror, hbefore⟩ := he
  simp only [List.nil_append] at herror hbefore
  obtain ⟨above, t, rfl, ht, rfl⟩ := cycleError?_eq_some_iff.1 herror
  have hfirst : p.FirstRecurrence above t := by
    refine ⟨ht, before.map Prod.fst, after.map Prod.fst, ?_, ?_⟩
    · rw [hcircuits, List.map_append, List.map_cons]
    · intro path hpath
      obtain ⟨c, hc, rfl⟩ := List.mem_map.1 hpath
      exact cycleError?_eq_none_iff.1 (hbefore c hc)
  -- That the chain goes through no name twice holds of all cycles that are reported.
  obtain ⟨u, hcycle⟩ := isCycle_of_mem_errors_visit List.nodup_nil hmem
  have hlast : (cycle above t).getLast? = some t := List.getLast?_concat ..
  cases Option.some.inj (hcycle.last.symm.trans hlast)
  exact ⟨above, t, cycle above t, hfirst, rfl, hcycle, cycle_suffix above t⟩

/-- Without checks, a project with a name compiles exactly when no path of type names repeats one.
Otherwise the error is about the first path, in the order of the document, that ends with a name that
it has been through before: it lists the end of that path, from the first use of the name. -/
theorem compileCircuit_finds_first_cycle (hname : name ≠ "") :
    ((∃ text, (compileCircuit s false name p).result = .ok text) ↔
        ∀ path q, p.Reaches path q → path.Nodup) ∧
      ∀ e, (compileCircuit s false name p).result = .error e →
        ∃ above t chain, p.FirstRecurrence above t ∧ e = .cyclicDependency chain ∧
          IsCycle chain t ∧ chain <:+ above ++ [t] := by
  have hstopping : (checkProject s name p).errors.filter CompileError.stopsEmission =
      (visit s name [] p).errors.filter CompileError.stopsEmission := by
    rw [filter_errors_checkProject, if_neg hname, List.nil_append]
  rw [result_compileCircuit_lenient, hstopping]
  constructor
  · have hnil := @filter_errors_visit_eq_nil_iff s name p
    rw [← hnil]
    simp only [firstErrorOr_eq_ok_iff, exists_and_left, exists_eq', and_true]
  · intro e he
    exact exists_firstRecurrence (firstErrorOr_eq_error_iff.1 he)

/-- The type `a` is used again below `b` in its own definition. Before that, `b` is used elsewhere. -/
def Project.spiral : Project where
  deps := [("c", { deps := [("b", {})] }),
    ("a", { deps := [("b", { deps := [("d", {}), ("a", {})] })] })]

/-- It does not compile, and the error lists the way from `a` to `a`. -/
theorem compileCircuit_finds_cycle_of_spiral :
    "main" ≠ "" ∧ ¬(∀ path q, Project.spiral.Reaches path q → path.Nodup) ∧
      (compileCircuit .sha1 false "main" .spiral).result =
        .error (.cyclicDependency ["a", "b", "a"]) ∧
      ∃ above, Project.spiral.FirstRecurrence above "a" ∧ IsCycle ["a", "b", "a"] "a" ∧
        ["a", "b", "a"] <:+ above ++ ["a"] := by
  have hname : "main" ≠ "" := by decide
  have hresult : (compileCircuit .sha1 false "main" .spiral).result =
      .error (.cyclicDependency ["a", "b", "a"]) := rfl
  obtain ⟨hok, herror⟩ :=
    compileCircuit_finds_first_cycle (s := .sha1) (p := .spiral) hname
  obtain ⟨above, t, chain, hfirst, he, hcycle, hsuffix⟩ := herror _ hresult
  cases he
  cases Option.some.inj hcycle.head
  refine ⟨hname, fun hpaths => ?_, hresult, above, hfirst, hcycle, hsuffix⟩
  obtain ⟨text, htext⟩ := hok.2 hpaths
  cases hresult.symm.trans htext

end BlockCircuit
