import BlockCircuit.Project.Basic

/-!
# The circuits of a project tree

A path of type names leads from a project down to a circuit: at each step the next name is looked
for among the dependencies of the circuit that has been reached. `Reaches` says where a path leads.

* `forall_reaches_iff` — what holds of all circuits of a tree holds of the outermost one and of all
  circuits below each dependency;
* `induction_deps` — induction along the tree, in one step for each circuit;
* `circuits` — the list of all circuits, so that what holds of each of them can be decided;
* `Keyed` — every table of dependencies has one entry for a type name.
-/

namespace BlockCircuit.Project

variable {p q dep : Project} {t : String} {path : List String}

/-- From `p` the path leads to the circuit of `q`. -/
inductive Reaches : Project → List String → Project → Prop
  /-- The empty path stays where it is. -/
  | here (p : Project) : Reaches p [] p
  /-- A path goes on below one of the dependencies. -/
  | through {p dep q : Project} {t : String} {path : List String} :
      (t, dep) ∈ p.deps → Reaches dep path q → Reaches p (t :: path) q

/-- All circuits of a tree are the outermost one and those below its dependencies. -/
theorem forall_reaches_iff {holds : List String → Project → Prop} :
    (∀ path q, Reaches p path q → holds path q) ↔
      holds [] p ∧ ∀ t dep, (t, dep) ∈ p.deps →
        ∀ path q, Reaches dep path q → holds (t :: path) q := by
  constructor
  · intro h
    exact ⟨h [] p (.here p), fun t dep hdep path q hq => h (t :: path) q (.through hdep hq)⟩
  · rintro ⟨hp, hbelow⟩ path q hq
    cases hq with
    | here => exact hp
    | through hdep hq => exact hbelow _ _ hdep _ _ hq

/-- Induction along the tree: a property passes from all dependencies of a project to the project
itself. -/
theorem induction_deps {holds : Project → Prop}
    (step : ∀ p : Project, (∀ t dep, (t, dep) ∈ p.deps → holds dep) → holds p) (p : Project) :
    holds p := by
  refine @Project.induction holds (fun deps => ∀ t dep, (t, dep) ∈ deps → holds dep) ?_ ?_ ?_ p
  · intro graph deps hdeps
    exact step ⟨graph, deps⟩ hdeps
  · intro t dep hdep
    exact absurd hdep List.not_mem_nil
  · intro t p deps hp hdeps u dep hdep
    rcases List.mem_cons.1 hdep with hhead | htail
    · cases hhead
      exact hp
    · exact hdeps u dep htail

/-- A path goes on through a dependency of the circuit that it leads to. -/
theorem Reaches.concat (hq : Reaches p path q) (hdep : (t, dep) ∈ q.deps) :
    Reaches p (path ++ [t]) dep := by
  induction hq with
  | here => exact .through hdep (.here dep)
  | through hmem _ ih => exact .through hmem (ih hdep)

/-! ## The list of circuits -/

mutual

/-- The circuits of a tree, each with the path that leads to it. -/
def circuits : Project → List (List String × Project)
  | ⟨graph, deps⟩ => ([], ⟨graph, deps⟩) :: depCircuits deps
termination_by structural p => p

/-- The circuits below a list of dependencies. -/
def depCircuits : List (String × Project) → List (List String × Project)
  | [] => []
  | (t, dep) :: deps => (circuits dep).map (fun c => (t :: c.1, c.2)) ++ depCircuits deps
termination_by structural deps => deps

end

theorem mem_depCircuits_iff {deps : List (String × Project)} {c : List String × Project} :
    c ∈ depCircuits deps ↔
      ∃ t dep, (t, dep) ∈ deps ∧ ∃ path, (path, c.2) ∈ circuits dep ∧ c.1 = t :: path := by
  induction deps with
  | nil => simp [depCircuits]
  | cons entry deps ih =>
    obtain ⟨t, dep⟩ := entry
    rw [depCircuits, List.mem_append, ih, List.mem_map]
    constructor
    · rintro (⟨⟨path, q⟩, hmem, rfl⟩ | ⟨u, dep', hdep, hpath⟩)
      · exact ⟨t, dep, List.mem_cons_self, path, hmem, rfl⟩
      · exact ⟨u, dep', List.mem_cons_of_mem _ hdep, hpath⟩
    · rintro ⟨u, dep', hdep, path, hmem, hpath⟩
      rcases List.mem_cons.1 hdep with hhead | htail
      · cases hhead
        exact .inl ⟨(path, c.2), hmem, Prod.ext hpath.symm rfl⟩
      · exact .inr ⟨u, dep', htail, path, hmem, hpath⟩

/-- The list has the circuits that paths lead to. -/
theorem mem_circuits_iff : (path, q) ∈ p.circuits ↔ Reaches p path q := by
  induction p using induction_deps generalizing path with
  | step p ih =>
    have hcircuits : p.circuits = ([], p) :: depCircuits p.deps := by
      obtain ⟨graph, deps⟩ := p
      rw [circuits]
    rw [hcircuits, List.mem_cons, mem_depCircuits_iff]
    constructor
    · rintro (hhere | ⟨t, dep, hdep, rest, hmem, rfl⟩)
      · cases hhere
        exact .here _
      · exact .through hdep ((ih t dep hdep).1 hmem)
    · intro hq
      cases hq with
      | here => exact .inl rfl
      | @through _ dep _ t rest hdep hq =>
        exact .inr ⟨t, dep, hdep, rest, (ih t dep hdep).2 hq, rfl⟩

/-- What holds of all circuits of a tree can be decided from circuit to circuit. -/
instance {holds : List String → Project → Prop} [∀ path q, Decidable (holds path q)] :
    Decidable (∀ path q, Reaches p path q → holds path q) :=
  decidable_of_iff (∀ c ∈ p.circuits, holds c.1 c.2)
    ⟨fun h _ _ hq => h _ (mem_circuits_iff.2 hq), fun h c hc => h c.1 c.2 (mem_circuits_iff.1 hc)⟩

/-! ## Type names -/

/-- The names under which dependencies are found, anywhere in the tree. -/
def TypeName (p : Project) (t : String) : Prop :=
  ∃ path q, Reaches p path q ∧ t ∈ q.deps.map Prod.fst

/-- Every table of dependencies in the tree has one entry for a type name. -/
def Keyed (p : Project) : Prop :=
  ∀ path q, Reaches p path q → (q.deps.map Prod.fst).Nodup

instance : Decidable p.Keyed :=
  inferInstanceAs (Decidable (∀ path q, Reaches p path q → (q.deps.map Prod.fst).Nodup))

/-- The type names of a tree, from circuit to circuit. -/
def typeNames (p : Project) : List String :=
  p.circuits.flatMap fun c => c.2.deps.map Prod.fst

theorem mem_typeNames_iff : t ∈ p.typeNames ↔ p.TypeName t := by
  rw [typeNames, List.mem_flatMap, TypeName]
  constructor
  · rintro ⟨⟨path, q⟩, hc, ht⟩
    exact ⟨path, q, mem_circuits_iff.1 hc, ht⟩
  · rintro ⟨path, q, hq, ht⟩
    exact ⟨(path, q), mem_circuits_iff.2 hq, ht⟩

instance : Decidable (p.TypeName t) :=
  decidable_of_iff (t ∈ p.typeNames) mem_typeNames_iff

theorem TypeName.of_mem (hdep : (t, dep) ∈ p.deps) : p.TypeName t :=
  ⟨[], p, .here p, List.mem_map.2 ⟨(t, dep), hdep, rfl⟩⟩

theorem TypeName.below {u : String} (hdep : (t, dep) ∈ p.deps) (h : dep.TypeName u) :
    p.TypeName u := by
  obtain ⟨path, q, hq, hu⟩ := h
  exact ⟨t :: path, q, .through hdep hq, hu⟩

/-- Tables have one entry for a type name if this holds of the outermost one and below it. -/
theorem keyed_iff :
    p.Keyed ↔ (p.deps.map Prod.fst).Nodup ∧ ∀ t dep, (t, dep) ∈ p.deps → dep.Keyed :=
  forall_reaches_iff

theorem Keyed.below (h : p.Keyed) (hdep : (t, dep) ∈ p.deps) : dep.Keyed :=
  (keyed_iff.1 h).2 t dep hdep

/-- Defining a type name anew keeps one entry for each type name. -/
theorem Keyed.insertDep (hp : p.Keyed) (hdep : dep.Keyed) : (p.insertDep t dep).Keyed := by
  obtain ⟨hnodup, hdeps⟩ := keyed_iff.1 hp
  refine keyed_iff.2 ⟨nodup_keys_insertEntry t dep hnodup, ?_⟩
  intro u other hother
  rcases mem_of_mem_insertEntry hother with h | h
  · cases h
    exact hdep
  · exact hdeps u other h

/-- Looking up a type name finds an entry of the table. -/
theorem mem_of_lookup {deps : List (String × Project)} (h : deps.lookup t = some dep) :
    (t, dep) ∈ deps := by
  obtain ⟨before, after, rfl, -⟩ := List.lookup_eq_some_iff.1 h
  exact List.mem_append_right before List.mem_cons_self

theorem lookup_isSome_iff {deps : List (String × Project)} :
    (deps.lookup t).isSome ↔ t ∈ deps.map Prod.fst := by
  rw [List.lookup_isSome_iff, List.mem_map]
  constructor
  · rintro ⟨entry, hentry, ht⟩
    exact ⟨entry, hentry, (beq_iff_eq.1 ht).symm⟩
  · rintro ⟨entry, hentry, rfl⟩
    exact ⟨entry, hentry, beq_self_eq_true entry.1⟩

/-! ## A small tree -/

/-- A circuit in which a code block feeds itself. -/
def latch : Project := .ofGraph {
  blocks := [.input "set", .output "held", .code "cell" ⟨["a", "b"], ["q"]⟩ "assign q = a | b;"]
  wires := [⟨⟨"set", "out"⟩, ⟨"cell", "a"⟩⟩, ⟨⟨"cell", "q"⟩, ⟨"cell", "b"⟩⟩,
    ⟨⟨"cell", "q"⟩, ⟨"held", "in"⟩⟩] }

/-- A circuit that uses a latch, with one wire that goes straight through. -/
def alarm : Project where
  graph := {
    blocks := [.input "sensor", .output "light", .output "bell", .compound "memory" "latch"]
    wires := [⟨⟨"sensor", "out"⟩, ⟨"light", "in"⟩⟩, ⟨⟨"sensor", "out"⟩, ⟨"memory", "set"⟩⟩,
      ⟨⟨"memory", "held"⟩, ⟨"bell", "in"⟩⟩] }
  deps := [("latch", latch)]

theorem reaches_latch : alarm.Reaches ["latch"] latch :=
  .through List.mem_cons_self (.here latch)

end BlockCircuit.Project
