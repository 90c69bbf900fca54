import BlockCircuit.Proofs.Compilation.Output
import BlockCircuit.Proofs.Compilation.Unconnected

/-!
# Dependencies by themselves

A dependency is checked and written below the circuit that uses it, with the types above it in hand
and with findings and text from before it. None of this matters as long as no type is used inside
its own definition: what is said about a dependency and what is written for it is what the
dependency gets when it is checked or compiled by itself, under the name that it has below the
circuit. So a project is put together from its dependencies and from its own graph, and a change of
one dependency stays where the dependency is.

* `visit_of_acyclic` — what the checks say of a tree without a cycle does not depend on what is above;
* `checkProject_by_dependencies` — the checks of a project, dependency by dependency, and what
  compilation with checks reports first;
* `Segments` — the texts of dependencies, each compiled by itself;
* `compileCircuit_insertDep` — how the text changes with one dependency.
-/

namespace BlockCircuit

open Check Verilog

variable {s : Sanitizer} {name text text' t : String} {ancestors : List String} {p dep : Project}
  {deps front back : List (String × Project)}

/-! ## Checks -/

attribute [ext] CheckReport

theorem CheckReport.isOk_iff_firstError? {r : CheckReport} :
    r.isOk = true ↔ r.firstError? = none := by
  rw [isOk_iff_errors, firstError?, List.head?_eq_none_iff]

/-- In a tree without a cycle, the types above have no part in what the checks say. -/
theorem Check.visit_of_acyclic (h : p.Acyclic ancestors) :
    visit s name ancestors p = visit s name [] p := by
  apply CheckReport.ext
  · rw [errors_visit_of_acyclic h, errors_visit_of_acyclic h.alone]
  · rw [warnings_visit_of_acyclic h, warnings_visit_of_acyclic h.alone]

/-- A dependency is checked as it would be by itself. -/
theorem Check.visitEntry_of_acyclic (h : dep.Acyclic [t]) :
    visitEntry s name [] t dep = checkProject s (s.childName name t) dep := by
  have hname : s.childName name t ≠ "" := s.childName_ne_empty name t
  rw [visitEntry, if_neg List.not_mem_nil, List.nil_append, visit_of_acyclic h]
  apply CheckReport.ext
  · rw [errors_checkProject, if_neg hname, List.nil_append]
  · rw [warnings_checkProject]

/-- What the checks say of one kind about the dependencies of a tree without a cycle is what they say
about each of them by itself. -/
theorem Check.flatMap_visitEntry_of_acyclic {α : Type} (part : CheckReport → List α) (name : String)
    (h : p.Acyclic []) :
    (p.deps.flatMap fun entry => part (visitEntry s name [] entry.1 entry.2)) =
      p.deps.flatMap fun entry => part (checkProject s (s.childName name entry.1) entry.2) := by
  apply List.flatMap_congr
  rintro ⟨t, dep⟩ hdep
  rw [visitEntry_of_acyclic (h.below hdep)]

/-- In a project without a cycle, the errors of the checks are that of a missing name, then those of
each dependency by itself under the name that it has below the circuit, and then those about the
graph of the outermost circuit. The warnings are put together in the same way. So compilation with
checks reports the first error of the first dependency that fails by itself, and an error about the
outermost circuit only if all dependencies pass. -/
theorem checkProject_by_dependencies (hpaths : ∀ path q, p.Reaches path q → path.Nodup) :
    let alone (entry : String × Project) := checkProject s (s.childName name entry.1) entry.2
    let own := graphReport s name p.deps p.graph
    (checkProject s name p).errors =
        (if name = "" then [emptyNameError] else []) ++
          (p.deps.flatMap fun entry => (alone entry).errors) ++ own.errors ∧
      (checkProject s name p).warnings =
        (p.deps.flatMap fun entry => (alone entry).warnings) ++ own.warnings ∧
      (∀ e ∈ own.errors, ConcernsGraph s name p.graph e) ∧
      (∀ w ∈ own.warnings, ∃ b ∈ p.graph.instanceBlocks, w.TellsUnconnected (name, b.id)) ∧
      (name ≠ "" → ∀ e, (compileCircuit s true name p).result = .error e ↔
        (∃ before entry after, p.deps = before ++ entry :: after ∧
            (∀ other ∈ before, (alone other).isOk = true) ∧ (alone entry).firstError? = some e) ∨
          (∀ entry ∈ p.deps, (alone entry).isOk = true) ∧ own.firstError? = some e) := by
  intro alone own
  have hacyclic : p.Acyclic [] := hpaths
  have herrors : (checkProject s name p).errors =
      (if name = "" then [emptyNameError] else []) ++
        (p.deps.flatMap fun entry => (alone entry).errors) ++ own.errors := by
    rw [errors_checkProject, errors_visit, flatMap_visitEntry_of_acyclic _ name hacyclic,
      List.append_assoc]
  refine ⟨herrors, ?_, fun e he => concernsGraph_of_mem he, ?_, ?_⟩
  · rw [warnings_checkProject, warnings_visit, flatMap_visitEntry_of_acyclic _ name hacyclic]
  · intro w hw
    obtain ⟨b, hb, rfl⟩ := List.mem_map.1 hw
    exact ⟨b, (List.mem_filter.1 hb).1, tellsUnconnected_unconnectedWarning name b⟩
  · intro hname e
    rw [result_compileCircuit_strict, firstErrorOr_eq_error_iff, herrors, if_neg hname,
      List.nil_append, List.head?_append, List.head?_flatMap, Option.or_eq_some_iff]
    simp only [CheckReport.isOk_iff_firstError?]
    refine or_congr ?_ (and_congr_left' ?_)
    · -- The first dependency with an error cuts the list of dependencies in two.
      rw [List.findSome?_eq_some_iff]
      constructor
      · rintro ⟨before, entry, after, hdeps, hentry, hbefore⟩
        exact ⟨before, entry, after, hdeps, hbefore, hentry⟩
      · rintro ⟨before, entry, after, hdeps, hbefore, hentry⟩
        exact ⟨before, entry, after, hdeps, hentry, hbefore⟩
    · rw [List.findSome?_eq_none_iff]
      rfl

/-- A block without a definition for its type, beside three dependencies: one that is fine, one with
a wire that ends nowhere, and one with an id that is used twice. -/
def Project.wreck : Project where
  graph := { blocks := [.compound "x" "nowhere"] }
  deps := [("latch", .latch), ("loose", .ofGraph { wires := [⟨⟨"u", "out"⟩, ⟨"v", "in"⟩⟩] }),
    ("twins", .ofGraph { blocks := [.input "a", .output "a"] })]

/-- The checks find four errors, and the first one is about the wire. -/
theorem checkProject_by_dependencies_wreck :
    (∀ path q, Project.wreck.Reaches path q → path.Nodup) ∧
      (checkProject .sha1 "main" .wreck).errors =
        [.danglingWire (Sanitizer.sha1.childName "main" "loose") 0 "unknown block `u`",
          .danglingWire (Sanitizer.sha1.childName "main" "loose") 0 "unknown block `v`",
          .duplicateBlockId (Sanitizer.sha1.childName "main" "twins") "a",
          .unresolvedType "main" "x" "nowhere"] ∧
        (compileCircuit .sha1 true "main" .wreck).result =
          .error (.danglingWire (Sanitizer.sha1.childName "main" "loose") 0 "unknown block `u`") := by
  have hpaths : ∀ path q, Project.wreck.Reaches path q → path.Nodup := by decide
  obtain ⟨herrors, -, -, -, hfirst⟩ := @checkProject_by_dependencies .sha1 "main" .wreck hpaths
  refine ⟨hpaths, herrors.trans rfl, (hfirst (by decide) _).2 (.inl ?_)⟩
  refine ⟨[("latch", .latch)], _, _, rfl, ?_, rfl⟩
  intro other hother
  rw [List.mem_singleton.1 hother]
  rfl

/-! ## Texts -/

/-- A text is made of the texts of some dependencies of the circuit `name`, one after another: each
is what compilation without checks yields for the dependency by itself, and a line break follows. -/
inductive Segments (s : Sanitizer) (name : String) : List (String × Project) → String → Prop
  | nil : Segments s name [] ""
  | cons {t : String} {dep : Project} {deps : List (String × Project)} {segment rest : String} :
      (compileCircuit s false (s.childName name t) dep).result = .ok segment →
      Segments s name deps rest → Segments s name ((t, dep) :: deps) (segment ++ "\n" ++ rest)

/-- A dependency without a cycle compiles by itself. -/
theorem compileCircuit_alone (h : dep.Acyclic ancestors) :
    (compileCircuit s false (s.childName name t) dep).result =
      .ok (render (treeModules s (s.childName name t) dep)) :=
  compileCircuit_lenient_eq_ok_iff.2 ⟨s.childName_ne_empty name t, h.alone, rfl⟩

/-- The text of a graph without dependencies is that of its own modules. -/
theorem compileCircuit_ofGraph (hname : name ≠ "") (g : Graph) :
    (compileCircuit s false name (.ofGraph g)).result = .ok (render (graphModules s name g)) := by
  have hacyclic : (Project.ofGraph g).Acyclic [] :=
    Project.acyclic_iff.2 ⟨List.nodup_nil, fun t dep hdep => absurd hdep List.not_mem_nil⟩
  exact compileCircuit_lenient_eq_ok_iff.2 ⟨hname, hacyclic, rfl⟩

namespace Verilog

/-- The text that dependencies add to that of the circuit which uses them. -/
def depText (s : Sanitizer) (name : String) (deps : List (String × Project)) : String :=
  closedText (depModules s name deps)

theorem depText_nil : depText s name [] = "" := rfl

theorem depText_append (front back : List (String × Project)) :
    depText s name (front ++ back) = depText s name front ++ depText s name back := by
  simp only [depText, depModules_eq_flatMap, List.flatMap_append, closedText_append]

theorem depText_cons (t : String) (dep : Project) (deps : List (String × Project)) :
    depText s name ((t, dep) :: deps) =
      render (treeModules s (s.childName name t) dep) ++ "\n" ++ depText s name deps := by
  rw [depText, depModules, closedText_append, closedText_eq_render (treeModules_ne_nil _ dep)]
  rfl

/-- The text of a tree is that of the dependencies and then that of the graph. -/
theorem render_treeModules (name : String) (p : Project) :
    render (treeModules s name p) = depText s name p.deps ++ render (graphModules s name p.graph) := by
  obtain ⟨g, deps⟩ := p
  rw [treeModules, graphModules, ← List.append_assoc, render_concat, render_concat,
    closedText_append, depText, String.append_assoc]

end Verilog

/-- Dependencies without a cycle add their texts. -/
theorem segments_of_acyclic (h : ∀ t dep, (t, dep) ∈ deps → dep.Acyclic []) :
    Segments s name deps (depText s name deps) := by
  induction deps with
  | nil => exact .nil
  | cons entry deps ih =>
    obtain ⟨t, dep⟩ := entry
    rw [depText_cons]
    apply Segments.cons
    · exact compileCircuit_alone (h t dep List.mem_cons_self)
    · exact ih fun u other hother => h u other (List.mem_cons_of_mem _ hother)

/-- Let a project compile without checks, and also with one dependency defined anew. Then the new
definition compiles by itself, and in the text it stands in the place of the old one, or after the
last dependency if its name is new. The texts of all other dependencies stay as they are, and so does
that of the graph, which is what the graph would have without dependencies. -/
theorem compileCircuit_insertDep (htext : (compileCircuit s false name p).result = .ok text)
    (htext' : (compileCircuit s false name (p.insertDep t dep)).result = .ok text') :
    ∃ segment own, (compileCircuit s false (s.childName name t) dep).result = .ok segment ∧
      (compileCircuit s false name (.ofGraph p.graph)).result = .ok own ∧
      ((t ∉ p.deps.map Prod.fst ∧ ∃ before, Segments s name p.deps before ∧
          text = before ++ own ∧ text' = before ++ (segment ++ "\n") ++ own) ∨
        ∃ front old back before oldSegment after,
          p.deps = front ++ (t, old) :: back ∧ t ∉ front.map Prod.fst ∧
            Segments s name front before ∧ Segments s name back after ∧
            (compileCircuit s false (s.childName name t) old).result = .ok oldSegment ∧
            text = before ++ (oldSegment ++ "\n") ++ after ++ own ∧
              text' = before ++ (segment ++ "\n") ++ after ++ own) := by
  obtain ⟨hname, hacyclic, rfl⟩ := compileCircuit_lenient_eq_ok_iff.1 htext
  obtain ⟨-, hacyclic', rfl⟩ := compileCircuit_lenient_eq_ok_iff.1 htext'
  have hold : ∀ u other, (u, other) ∈ p.deps → other.Acyclic [] :=
    fun u other hother => (hacyclic.below hother).alone
  have hinserted : (t, dep) ∈ insertEntry p.deps t dep :=
    Project.mem_of_lookup ((lookup_insertEntry p.deps t t dep).trans (if_pos rfl))
  have hgraph : (p.insertDep t dep).graph = p.graph := rfl
  refine ⟨_, _, compileCircuit_alone (hacyclic'.below hinserted),
    compileCircuit_ofGraph hname p.graph, ?_⟩
  by_cases hkey : t ∈ p.deps.map Prod.fst
  · right
    obtain ⟨front, old, back, hdeps, hfront, hinsert⟩ := exists_insertEntry_of_mem dep hkey
    have hnew : (p.insertDep t dep).deps = front ++ (t, dep) :: back := hinsert
    rw [hdeps] at hold
    have hfrontSegments : Segments s name front (depText s name front) :=
      segments_of_acyclic fun u other hother => hold u other (List.mem_append_left _ hother)
    have hbackSegments : Segments s name back (depText s name back) :=
      segments_of_acyclic fun u other hother =>
        hold u other (List.mem_append_right _ (List.mem_cons_of_mem _ hother))
    refine ⟨front, old, back, _, _, _, hdeps, hfront, hfrontSegments, hbackSegments,
      compileCircuit_alone (hold t old (by simp)), ?_, ?_⟩
    · rw [render_treeModules, hdeps, depText_append, depText_cons]
      simp only [String.append_assoc]
    · rw [render_treeModules, hnew, hgraph, depText_append, depText_cons]
      simp only [String.append_assoc]
  · left
    have hnew : (p.insertDep t dep).deps = p.deps ++ [(t, dep)] := insertEntry_of_notMem dep hkey
    refine ⟨hkey, _, segments_of_acyclic hold, render_treeModules name p, ?_⟩
    rw [render_treeModules, hnew, hgraph, depText_append, depText_cons, depText_nil,
      String.append_empty]

/-- A circuit without blocks that has three dependencies. -/
def Project.console : Project where
  deps := [("latch", .latch), ("panel", {}), ("siren", .alarm)]

/-- The second of them gets a definition with a dependency of its own. -/
theorem compileCircuit_insertDep_console :
    ∃ text text' before oldSegment segment after own,
      (compileCircuit .sha1 false "main" .console).result = .ok text ∧
        (compileCircuit .sha1 false "main" (Project.console.insertDep "panel" .alarm)).result =
          .ok text' ∧
        Segments .sha1 "main" [("latch", .latch)] before ∧
          Segments .sha1 "main" [("siren", .alarm)] after ∧
          (compileCircuit .sha1 false (Sanitizer.sha1.childName "main" "panel") .alarm).result =
            .ok segment ∧
          text = before ++ (oldSegment ++ "\n") ++ after ++ own ∧
            text' = before ++ (segment ++ "\n") ++ after ++ own := by
  have hacyclic : Project.console.Acyclic [] := by decide
  have hacyclic' : (Project.console.insertDep "panel" .alarm).Acyclic [] := by decide
  have htext : (compileCircuit .sha1 false "main" .console).result =
      .ok (render (treeModules .sha1 "main" .console)) :=
    compileCircuit_lenient_eq_ok_iff.2 ⟨by decide, hacyclic, rfl⟩
  have htext' : (compileCircuit .sha1 false "main" (Project.console.insertDep "panel" .alarm)).result =
      .ok (render (treeModules .sha1 "main" (Project.console.insertDep "panel" .alarm))) :=
    compileCircuit_lenient_eq_ok_iff.2 ⟨by decide, hacyclic', rfl⟩
  obtain ⟨segment, own, hsegment, -, hplaces⟩ := compileCircuit_insertDep htext htext'
  rcases hplaces with ⟨hkey, -⟩ | ⟨front, old, back, before, oldSegment, after, hdeps, hfront,
    hbefore, hafter, -, heq, heq'⟩
  · exact absurd hkey (by decide)
  · -- No other entry than the second has this name.
    obtain ⟨rfl, rfl⟩ : front = [("latch", .latch)] ∧ back = [("siren", .alarm)] := by
      rcases front with - | ⟨first, - | ⟨second, front⟩⟩
      · simp [Project.console] at hdeps
      · cases hdeps
        exact ⟨rfl, rfl⟩
      · obtain ⟨-, rfl, -⟩ : _ ∧ ("panel", {}) = second ∧ _ := by
          simpa [Project.console] using hdeps
        simp at hfront
    exact ⟨_, _, before, oldSegment, segment, after, own, htext, htext', hbefore, hafter,
      hsegment, heq, heq'⟩

end BlockCircuit
