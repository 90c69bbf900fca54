import BlockCircuit.Proofs.Project.ModuleName
import BlockCircuit.Proofs.Verilog.Modules
import Mathlib.Data.List.Nodup

/-!
# The names of the modules of a tree

Every module of a tree is named after a path of type names: the module of a circuit after the path
to the circuit, and the module of a code block after that path and the type of code blocks.
`modulePaths` lists these paths in the order of the modules.

* `map_name_treeModules` — the names of the modules are the names of the paths;
* `nodup_modulePaths_iff` — no path occurs twice, unless a circuit has two code blocks, or a code
  block beside a dependency that is named like the type of code blocks;
* `nodup_names_iff` — then no name occurs twice either, if tokens can be told apart.
-/

namespace BlockCircuit.Verilog

variable {s : Sanitizer} {p q : Project} {name : String} {path : List String}

/-- The paths of the modules of code blocks, below the path of their circuit. -/
def codePaths (g : Graph) : List (List String) :=
  (g.blocks.filter (·.kind.isCode)).map fun _ => [codeType]

mutual

/-- The paths of the modules of a project, in order. -/
def modulePaths : Project → List (List String)
  | ⟨g, deps⟩ => depPaths deps ++ (codePaths g ++ [[]])
termination_by structural p => p

/-- The paths of the modules of dependencies, in order. -/
def depPaths : List (String × Project) → List (List String)
  | [] => []
  | (typeName, dep) :: deps => (modulePaths dep).map (typeName :: ·) ++ depPaths deps
termination_by structural deps => deps

end

theorem depPaths_eq_flatMap (deps : List (String × Project)) :
    depPaths deps = deps.flatMap fun entry => (modulePaths entry.2).map (entry.1 :: ·) := by
  induction deps with
  | nil => rw [depPaths]; rfl
  | cons entry deps ih =>
    obtain ⟨t, dep⟩ := entry
    rw [depPaths, ih, List.flatMap_cons]

theorem modulePaths_eq (p : Project) :
    modulePaths p =
      (p.deps.flatMap fun entry => (modulePaths entry.2).map (entry.1 :: ·)) ++
        (codePaths p.graph ++ [[]]) := by
  obtain ⟨graph, deps⟩ := p
  rw [modulePaths, depPaths_eq_flatMap]

/-! ## Names -/

theorem map_name_codeModules (blocks : List Block) :
    (blocks.filterMap (codeModule? s name)).map (·.name) =
      (blocks.filter (·.kind.isCode)).map fun _ => s.childName name codeType := by
  induction blocks with
  | nil => rfl
  | cons b blocks ih =>
    obtain ⟨id, kind⟩ := b
    cases kind with
    | code ports text => exact congrArg (s.childName name codeType :: ·) ih
    | input pin | output pin | compound t => exact ih

theorem map_name_graphModules (g : Graph) :
    (graphModules s name g).map (·.name) =
      (codePaths g ++ [[]]).map (moduleName s name) := by
  rw [graphModules, List.map_append, map_name_codeModules, codePaths, List.map_append,
    List.map_map]
  rfl

/-- The names of the modules of a tree are those of their paths. -/
theorem map_name_treeModules (name : String) (p : Project) :
    (treeModules s name p).map (·.name) = (modulePaths p).map (moduleName s name) := by
  induction p using Project.induction_deps generalizing name with
  | step p ih =>
    rw [treeModules_eq, modulePaths_eq, List.map_append, List.map_append, map_name_graphModules,
      List.map_flatMap, List.map_flatMap]
    congr 1
    refine List.flatMap_congr ?_
    rintro ⟨t, dep⟩ hdep
    rw [ih t dep hdep, List.map_map]
    rfl

/-! ## Paths -/

/-- The path of a module is made of type names and the type of code blocks. -/
theorem typeName_of_mem_modulePaths {t : String} (hpath : path ∈ modulePaths p) (ht : t ∈ path) :
    t = codeType ∨ p.TypeName t := by
  induction p using Project.induction_deps generalizing path with
  | step p ih =>
    rw [modulePaths_eq, List.mem_append, List.mem_append] at hpath
    rcases hpath with hdeps | hcode | hself
    · obtain ⟨⟨u, dep⟩, hdep, hmem⟩ := List.mem_flatMap.1 hdeps
      obtain ⟨rest, hrest, rfl⟩ := List.mem_map.1 hmem
      rcases List.mem_cons.1 ht with rfl | ht
      · exact .inr (.of_mem hdep)
      · exact (ih u dep hdep hrest ht).imp_right (.below hdep)
    · obtain ⟨b, -, rfl⟩ := List.mem_map.1 hcode
      exact .inl (List.mem_singleton.1 ht)
    · cases List.mem_singleton.1 hself
      exact absurd ht List.not_mem_nil

/-- The paths of the modules of one circuit are different if at most one block is code. -/
theorem nodup_graphPaths_iff {g : Graph} :
    (codePaths g ++ [[]]).Nodup ↔ g.blocks.countP (·.kind.isCode) ≤ 1 := by
  have hcode : (codePaths g).Nodup ↔ g.blocks.countP (·.kind.isCode) ≤ 1 := by
    rw [codePaths, List.map_const', List.nodup_replicate, List.countP_eq_length_filter]
  have hself : [] ∉ codePaths g := by
    intro hmem
    obtain ⟨b, -, hb⟩ := List.mem_map.1 hmem
    exact List.cons_ne_nil _ _ hb
  rw [List.nodup_append', hcode, List.disjoint_singleton]
  exact and_iff_left ⟨List.nodup_singleton _, hself⟩

theorem mem_codePaths_iff {g : Graph} :
    path ∈ codePaths g ↔ path = [codeType] ∧ ∃ b ∈ g.blocks, b.kind.isCode = true := by
  simp only [codePaths, List.mem_map, List.mem_filter]
  constructor
  · rintro ⟨b, hb, rfl⟩
    exact ⟨rfl, b, hb⟩
  · rintro ⟨rfl, b, hb⟩
    exact ⟨b, hb, rfl⟩

theorem nil_mem_modulePaths (p : Project) : [] ∈ modulePaths p := by
  rw [modulePaths_eq]
  exact List.mem_append_right _ (List.mem_append_right _ List.mem_cons_self)

/-- The module of a dependency has the path of a module of the circuit itself only if the type name
of the dependency is the one of code blocks and the circuit has one. -/
theorem disjoint_depPaths_graphPaths_iff (p : Project) :
    (p.deps.flatMap fun entry => (modulePaths entry.2).map (entry.1 :: ·)).Disjoint
        (codePaths p.graph ++ [[]]) ↔
      (codeType ∈ p.deps.map Prod.fst → ∀ b ∈ p.graph.blocks, b.kind.isCode = false) := by
  constructor
  · intro hdisjoint hkey b hb
    obtain ⟨entry, hentry, ht⟩ := List.mem_map.1 hkey
    rw [← Bool.not_eq_true]
    intro hcode
    have hdepPath : [codeType] ∈ (modulePaths entry.2).map (entry.1 :: ·) :=
      List.mem_map.2 ⟨[], nil_mem_modulePaths entry.2, congrArg (· :: []) ht⟩
    have hcodePath : [codeType] ∈ codePaths p.graph := mem_codePaths_iff.2 ⟨rfl, b, hb, hcode⟩
    exact hdisjoint (List.mem_flatMap.2 ⟨entry, hentry, hdepPath⟩)
      (List.mem_append_left _ hcodePath)
  · intro hcode path hdeps hgraph
    obtain ⟨⟨t, dep⟩, hdep, hmem⟩ := List.mem_flatMap.1 hdeps
    obtain ⟨rest, -, rfl⟩ := List.mem_map.1 hmem
    rcases List.mem_append.1 hgraph with hcodePath | hself
    · obtain ⟨hpath, b, hb, hkind⟩ := mem_codePaths_iff.1 hcodePath
      have hkey : codeType ∈ p.deps.map Prod.fst :=
        List.mem_map.2 ⟨(t, dep), hdep, (List.cons.inj hpath).1⟩
      exact Bool.false_ne_true ((hcode hkey b hb).symm.trans hkind)
    · exact List.cons_ne_nil _ _ (List.mem_singleton.1 hself)

/-- No path is that of two modules exactly when every circuit has at most one code block, and none
beside a dependency that is named like the type of code blocks. -/
theorem nodup_modulePaths_iff (hkeys : p.Keyed) :
    (modulePaths p).Nodup ↔
      ∀ path q, p.Reaches path q → q.graph.blocks.countP (·.kind.isCode) ≤ 1 ∧
        (codeType ∈ q.deps.map Prod.fst → ∀ b ∈ q.graph.blocks, b.kind.isCode = false) := by
  induction p using Project.induction_deps with
  | step p ih =>
    -- Paths that begin with different type names are different.
    have hpairwise : p.deps.Pairwise fun entry other =>
        ((modulePaths entry.2).map (entry.1 :: ·)).Disjoint
          ((modulePaths other.2).map (other.1 :: ·)) := by
      refine (List.pairwise_map.1 (hkeys [] p (.here p))).imp ?_
      rintro ⟨t, dep⟩ ⟨u, dep'⟩ htu path hpath hpath'
      obtain ⟨rest, -, rfl⟩ := List.mem_map.1 hpath
      obtain ⟨rest', -, hrest⟩ := List.mem_map.1 hpath'
      exact htu (List.cons.inj hrest).1.symm
    rw [modulePaths_eq, List.nodup_append', nodup_graphPaths_iff, List.nodup_flatMap,
      and_iff_left hpairwise, disjoint_depPaths_graphPaths_iff, Project.forall_reaches_iff,
      and_comm]
    refine and_congr_right fun _ => ?_
    constructor
    · intro h t dep hdep
      exact (ih t dep hdep (hkeys.below hdep)).1 (List.Nodup.of_map _ (h (t, dep) hdep))
    · rintro h ⟨t, dep⟩ hdep
      exact ((ih t dep hdep (hkeys.below hdep)).2 (h t dep hdep)).map List.cons_injective

instance (s : Sanitizer) (p : Project) :
    Decidable (s.Separates {t | t = codeType ∨ p.TypeName t}) :=
  decidable_of_iff (s.Separates {t | t ∈ codeType :: p.typeNames})
    (by simp only [List.mem_cons, Project.mem_typeNames_iff])

/-- If tokens can be told apart, no name is that of two modules exactly when no path is. -/
theorem nodup_names_iff (htokens : s.Separates {t | t = codeType ∨ p.TypeName t}) :
    ((treeModules s name p).map (·.name)).Nodup ↔ (modulePaths p).Nodup := by
  rw [map_name_treeModules]
  constructor
  · exact List.Nodup.of_map _
  · intro hnd
    refine hnd.map_on ?_
    intro path hpath path' hpath' h
    exact moduleName_injOn htokens (fun t ht => typeName_of_mem_modulePaths hpath ht)
      (fun t ht => typeName_of_mem_modulePaths hpath' ht) h

/-- No name is that of two modules, if tokens can be told apart and no dependency is named like the
type of code blocks. -/
theorem nodup_names_treeModules (hkeys : p.Keyed) (hcodeType : ¬p.TypeName codeType)
    (hcode : ∀ path q, p.Reaches path q → q.graph.blocks.countP (·.kind.isCode) ≤ 1)
    (htokens : s.Separates {t | t = codeType ∨ p.TypeName t}) :
    ((treeModules s name p).map (·.name)).Nodup := by
  rw [nodup_names_iff htokens, nodup_modulePaths_iff hkeys]
  intro path q hq
  exact ⟨hcode path q hq, fun hkey => absurd ⟨path, q, hq, hkey⟩ hcodeType⟩

end BlockCircuit.Verilog
