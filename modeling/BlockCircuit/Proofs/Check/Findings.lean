import BlockCircuit.Proofs.Check.WellFormed

/-!
# The kinds of findings that the checks report

The checks report errors about the structure of a project. They do not look for pins and read no
file, so errors about these never come from them. Their warnings are all of one kind.

* `concernsGraph_of_mem` — the errors about one circuit are of four kinds, and name the circuit;
* `isStructural_of_mem_errors` — all errors of the checks are about the structure;
* `code_of_mem_warnings` — all warnings of the checks are about blocks without connections.
-/

namespace BlockCircuit

/-- Whether an error is about the structure of a project, and not about pins or files. -/
def CompileError.isStructural : CompileError → Bool
  | .missingPin _ | .unreadableFile _ _ => false
  | _ => true

namespace Check

variable {s : Sanitizer} {p : Project} {name : String} {e : CompileError}

theorem mem_of_mem_repeated {x : String} {seen xs : List String} (h : x ∈ repeated seen xs) :
    x ∈ xs := by
  induction xs generalizing seen with
  | nil => exact h
  | cons y xs ih =>
    rw [repeated] at h
    split at h
    · rcases List.mem_cons.1 h with rfl | h
      · exact List.mem_cons_self
      · exact List.mem_cons_of_mem y (ih h)
    · exact List.mem_cons_of_mem y (ih h)

/-- An error is about the graph of a circuit, and names the circuit: an id of the graph is used
twice, a block of the graph has a type without a definition, code blocks ask for the same module
below the circuit, or a wire of the graph ends where it cannot. -/
inductive ConcernsGraph (s : Sanitizer) (circuit : String) (g : Graph) : CompileError → Prop
  | duplicateBlockId {b : Block} : b ∈ g.blocks →
      ConcernsGraph s circuit g (.duplicateBlockId circuit b.id)
  | unresolvedType {b : Block} {t : String} : b ∈ g.blocks → b.kind = .compound t →
      ConcernsGraph s circuit g (.unresolvedType circuit b.id t)
  | duplicateModule : ConcernsGraph s circuit g (.duplicateModule (s.childName circuit codeType))
  | danglingWire {number : Nat} {what : String} : number < g.wires.length →
      ConcernsGraph s circuit g (.danglingWire circuit number what)

/-- What is wrong inside one circuit is about its graph. -/
theorem concernsGraph_of_mem {circuit : String} {deps : List (String × Project)} {g : Graph}
    (he : e ∈ (graphReport s circuit deps g).errors) : ConcernsGraph s circuit g e := by
  simp only [graphReport, List.mem_append] at he
  rcases he with ((hid | htype) | hcode) | hwire
  · obtain ⟨id, hrepeated, rfl⟩ := List.mem_map.1 hid
    obtain ⟨b, hb, rfl⟩ := List.mem_map.1 (mem_of_mem_repeated hrepeated)
    exact .duplicateBlockId hb
  · obtain ⟨b, hb, herror⟩ := List.mem_filterMap.1 htype
    rw [typeError?] at herror
    split at herror
    · rename_i t hkind
      split at herror
      · cases herror
      · cases herror
        exact .unresolvedType hb hkind
    · cases herror
  · rw [codeErrors] at hcode
    split at hcode
    · rw [List.mem_singleton.1 hcode]
      exact .duplicateModule
    · cases hcode
  · obtain ⟨⟨w, number⟩, hentry, hproblems⟩ := List.mem_flatMap.1 hwire
    obtain ⟨problem?, -, hproblem⟩ := List.mem_filterMap.1 hproblems
    obtain ⟨problem, -, rfl⟩ := Option.map_eq_some_iff.1 hproblem
    have hw : g.wires[number]? = some w := List.mk_mem_zipIdx_iff_getElem?.1 hentry
    exact .danglingWire (List.getElem?_eq_some_iff.1 hw).1

theorem isStructural_of_mem_visit {ancestors : List String}
    (he : e ∈ (visit s name ancestors p).errors) : e.isStructural = true := by
  induction p using Project.induction_deps generalizing name ancestors with
  | step p ih =>
    rw [errors_visit, List.mem_append, List.mem_flatMap] at he
    rcases he with ⟨⟨t, dep⟩, hdep, hentry⟩ | hgraph
    · rw [visitEntry] at hentry
      split at hentry
      · rw [List.mem_singleton.1 hentry]
        rfl
      · exact ih t dep hdep hentry
    · cases concernsGraph_of_mem hgraph <;> rfl

/-- The checks report errors about the structure of a project only. -/
theorem isStructural_of_mem_errors (he : e ∈ (checkProject s name p).errors) :
    e.isStructural = true := by
  rw [errors_checkProject, List.mem_append] at he
  rcases he with hname | hvisit
  · split at hname
    · rw [List.mem_singleton.1 hname]
      rfl
    · cases hname
  · exact isStructural_of_mem_visit hvisit

/-! ## Warnings -/

theorem code_of_mem_visit {ancestors : List String} {w : Diagnostic}
    (hw : w ∈ (visit s name ancestors p).warnings) : w.code = some .unconnectedBlock := by
  induction p using Project.induction_deps generalizing name ancestors with
  | step p ih =>
    rw [warnings_visit, List.mem_append, List.mem_flatMap] at hw
    rcases hw with ⟨⟨t, dep⟩, hdep, hentry⟩ | hgraph
    · rw [visitEntry] at hentry
      split at hentry
      · cases hentry
      · exact ih t dep hdep hentry
    · obtain ⟨b, -, rfl⟩ := List.mem_map.1 hgraph
      rfl

/-- The checks warn about blocks without connections only. -/
theorem code_of_mem_warnings {w : Diagnostic} (hw : w ∈ (checkProject s name p).warnings) :
    w.code = some .unconnectedBlock := by
  rw [warnings_checkProject] at hw
  exact code_of_mem_visit hw

end Check

end BlockCircuit
