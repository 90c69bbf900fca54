import BlockCircuit.Proofs.Document.Meaning
import BlockCircuit.Proofs.Document.Surroundings
import Mathlib.Logic.Relation

/-!
# Dependencies of a document

The dependencies of a project are written inside it, and could be documents of their own. A project that
is loaded as a whole is what one gets by loading its document without them and then inserting them, each
loaded by itself, in the order in which they are written. Keys may be repeated, and dependencies may have
dependencies: the order of the modules and the search for cycles both look at the outcome.

* `SplitsDeps`, `IsDefinition` — how a document comes apart, and the documents inside of it;
* `storeRead_deps_iff`, `StoreRead.deps_eq` — the key of the dependencies, and all other keys;
* `SplitsDeps.standsFor`, `exists_splitsDeps` — one level: what a document that comes apart stands for,
  and that documents with dependencies do come apart;
* `projectDocument`, `standsFor_projectDocument` — documents that are put together;
* `Project.ofText_eq_foldl_insertDep` — all levels.
-/

namespace BlockCircuit

open Json (scanned)

/-- Inserting dependencies one after another changes the table only. -/
theorem Project.foldl_insertDep (p : Project) (deps : List (String × Project)) :
    deps.foldl (fun p dep => p.insertDep dep.1 dep.2) p =
      { p with deps := deps.foldl (fun table dep => insertEntry table dep.1 dep.2) p.deps } := by
  induction deps generalizing p with
  | nil => cases p; rfl
  | cons dep deps ih => rw [List.foldl_cons, ih, List.foldl_cons, Project.insertDep]

namespace Document

/-! ## Documents that come apart -/

/-- A document of a project comes apart into the document without its dependencies and the entries of
its dependencies, in textual order. -/
inductive SplitsDeps : (source bare : String) → (entries : List (String × String)) → Prop
  | object {source bare deps : String} {front back entries : List (String × String)} :
      ObjectText (front ++ ("deps", deps) :: back) source.toList →
        ObjectText entries deps.toList → ObjectText (front ++ back) bare.toList →
          SplitsDeps source bare entries
  | array {source bare graph deps : String} {entries : List (String × String)} :
      ArrayText [graph, deps] source.toList → ObjectText entries deps.toList →
        ArrayText [graph] bare.toList → SplitsDeps source bare entries

/-- One document is the definition of a dependency of another one. -/
def IsDefinition (outer inner : String) : Prop :=
  ∃ bare entries, SplitsDeps outer bare entries ∧ inner ∈ entries.map Prod.snd

/-! ## One level -/

variable {budget : Nat} {read : Reader} {text rest : List Char}

theorem storeRead_deps_iff {graph : Option Graph} {deps : Option (List (String × Project))}
    {slots : Slots RecordKind.project.fields} :
    StoreRead read "deps" RecordKind.project.fields (graph, deps, ()) text slots rest ↔
      deps = none ∧ ∃ table, scanned (read (.table (.record .project)) text) = some (table, rest) ∧
        slots = (graph, some table, ()) := by
  constructor
  · intro h
    cases h with
    | field hkey => exact absurd hkey (by decide)
    | later _ h =>
      cases h with
      | field _ hread => exact ⟨rfl, _, hread, rfl⟩
      | later hkey => exact absurd rfl hkey
  · rintro ⟨rfl, table, hread, rfl⟩
    have hgraph : (Field.required "graph" (.record .graph)).key ≠ "deps" := by decide
    exact .later hgraph (.field rfl hread)

/-- Other keys leave the dependencies alone, and do not look at them. -/
theorem StoreRead.deps_eq {key : String} (hkey : key ≠ "deps") {graph graph' : Option Graph}
    {deps deps' : Option (List (String × Project))}
    (h : StoreRead read key RecordKind.project.fields (graph, deps, ()) text (graph', deps', ()) rest) :
    deps' = deps ∧ ∀ other,
      StoreRead read key RecordKind.project.fields (graph, other, ()) text (graph', other, ()) rest := by
  cases h with
  | field hgraph hread => exact ⟨rfl, fun _ => .field hgraph hread⟩
  | later hgraph h =>
    cases h with
    | field hdeps => exact absurd hdeps.symm hkey
    | later hdeps h => exact ⟨rfl, fun _ => .later hgraph (.later hdeps h)⟩

/-- What the members of a project do to its slots. -/
abbrev ProjectChain (budget : Nat) (members : List (String × String))
    (slots slots' : Slots RecordKind.project.fields) : Prop :=
  Chain (StepAlone fun key => StoreRead (ofText budget) key RecordKind.project.fields) members slots
    slots'

/-- After the dependencies, all other members do what they do without them. -/
theorem projectChain_taken {members : List (String × String)} {graph graph' : Option Graph}
    {table : List (String × Project)} {deps' : Option (List (String × Project))}
    (h : ProjectChain budget members (graph, some table, ()) (graph', deps', ())) :
    deps' = some table ∧ ProjectChain budget members (graph, none, ()) (graph', none, ()) := by
  induction members generalizing graph with
  | nil =>
    cases h
    exact ⟨rfl, .nil⟩
  | cons member members ih =>
    cases h with
    | @cons _ _ _ middle _ hstep hrest =>
      obtain ⟨graph₁, deps₁, ⟨⟩⟩ := middle
      have hkey : member.1 ≠ "deps" := by
        intro hdeps
        rw [StepAlone, hdeps] at hstep
        cases (storeRead_deps_iff.1 hstep).1
      obtain ⟨rfl, hother⟩ := StoreRead.deps_eq hkey hstep
      obtain ⟨hdeps, hchain⟩ := ih hrest
      exact ⟨hdeps, .cons (hother none) hchain⟩

/-- The slots of a project without dependencies, and with them. -/
theorem projectChain_split {front back : List (String × String)} {deps : String}
    {slots : Slots RecordKind.project.fields}
    (h : ProjectChain budget (front ++ ("deps", deps) :: back) (Slots.empty _) slots) :
    ∃ graph table, slots = (graph, some table, ()) ∧
      scanned (ofText budget (.table (.record .project)) deps.toList) = some (table, []) ∧
        ProjectChain budget (front ++ back) (Slots.empty _) (graph, none, ()) := by
  obtain ⟨middle, hfront, hrest⟩ := chain_append_iff.1 h
  cases hrest with
  | cons hstep hback =>
    obtain ⟨graph, deps', ⟨⟩⟩ := middle
    obtain ⟨rfl, table, hread, rfl⟩ := storeRead_deps_iff.1 hstep
    obtain ⟨graph', deps', ⟨⟩⟩ := slots
    obtain ⟨rfl, hwithout⟩ := projectChain_taken hback
    exact ⟨graph', table, rfl, hread, chain_append_iff.2 ⟨_, hfront, hwithout⟩⟩

/-- Without that key the slot of the dependencies stays as it is. -/
theorem projectChain_deps_eq {members : List (String × String)} {graph graph' : Option Graph}
    {deps deps' : Option (List (String × Project))} (hkeys : ∀ member ∈ members, member.1 ≠ "deps")
    (h : ProjectChain budget members (graph, deps, ()) (graph', deps', ())) : deps' = deps := by
  induction members generalizing graph deps with
  | nil =>
    cases h
    rfl
  | cons member members ih =>
    rw [List.forall_mem_cons] at hkeys
    cases h with
    | @cons _ _ _ middle _ hstep hrest =>
      obtain ⟨graph₁, deps₁, ⟨⟩⟩ := middle
      rw [ih hkeys.2 hrest, (StoreRead.deps_eq hkeys.1 hstep).1]

/-- A table is read entry by entry. -/
theorem chain_entryRead_iff {item : Shape} {members : List (String × String)}
    {table final : List (String × item.Value)} :
    Chain (StepAlone (EntryRead budget item)) members table final ↔
      ∃ entries : List (String × item.Value), List.Forall₂ (fun member entry => member.1 = entry.1 ∧
        scanned (ofText budget item member.2.toList) = some (entry.2, [])) members entries ∧
          final = entries.foldl (fun table entry => insertEntry table entry.1 entry.2) table := by
  induction members generalizing table with
  | nil =>
    constructor
    · intro h
      cases h
      exact ⟨[], .nil, rfl⟩
    · rintro ⟨entries, hentries, rfl⟩
      cases hentries
      exact .nil
  | cons member members ih =>
    constructor
    · intro h
      cases h with
      | cons hstep hrest =>
        cases hstep with
        | @entry a _ hread =>
          obtain ⟨entries, hentries, rfl⟩ := ih.1 hrest
          exact ⟨(member.1, a) :: entries, .cons ⟨rfl, hread⟩ hentries, rfl⟩
    · rintro ⟨entries, hentries, rfl⟩
      cases hentries with
      | @cons _ entry _ entries hentry hentries =>
        obtain ⟨key, a⟩ := entry
        obtain ⟨rfl, hread⟩ := hentry
        exact .cons (.entry hread) (ih.2 ⟨entries, hentries, rfl⟩)

theorem complete_project_iff {graph : Option Graph} {deps : Option (List (String × Project))}
    {values : Filled RecordKind.project.fields} :
    complete RecordKind.project.fields (graph, deps, ()) = .ok values ↔
      ∃ g, graph = some g ∧ values = (g, deps.getD [], ()) := by
  cases graph with
  | none => exact iff_of_false (fun h => by cases h) (fun ⟨_, h, _⟩ => by cases h)
  | some g =>
    constructor
    · intro h
      cases deps <;> cases h <;> exact ⟨g, rfl, rfl⟩
    · rintro ⟨_, ⟨⟩, rfl⟩
      cases deps <;> rfl

/-- What the entries of a table stand for by themselves. -/
theorem ObjectText.forall₂_of_table {members : List (String × String)} {item : Shape}
    {table : List (String × item.Value)} (h : ObjectText members text)
    (hread : scanned (ofText (budget + 1) (.table item) text) = some (table, [])) :
    ∃ entries : List (String × item.Value), table = tableOf entries ∧
      List.Forall₂ (fun member entry => member.1 = entry.1 ∧
        StandsFor budget item member.2.toList entry.2) members entries := by
  have hchain := h.standsFor_table_iff.1 ⟨[], hread, rfl⟩
  obtain ⟨entries, hentries, rfl⟩ := chain_entryRead_iff.1 hchain
  refine ⟨entries, rfl, hentries.imp ?_⟩
  rintro member entry ⟨hkey, hvalue⟩
  exact ⟨hkey, [], hvalue, rfl⟩

/-- A project that comes apart is the project without its dependencies, with the table of those. -/
theorem SplitsDeps.standsFor {source bare : String} {entries : List (String × String)} {p : Project}
    (hsplits : SplitsDeps source bare entries)
    (h : StandsFor (budget + 2) (.record .project) source.toList p) :
    ∃ (g : Graph) (deps : List (String × Project)), p = ⟨g, tableOf deps⟩ ∧
      StandsFor (budget + 2) (.record .project) bare.toList (⟨g, []⟩ : Project) ∧
        List.Forall₂ (fun entry dep => entry.1 = dep.1 ∧
          StandsFor budget (.record .project) entry.2.toList dep.2) entries deps := by
  cases hsplits with
  | object hsource hdeps hbare =>
    obtain ⟨slots, values, hchain, hcomplete, hbuild⟩ := hsource.standsFor_record_iff.1 h
    obtain ⟨graph, table, rfl, hread, hwithout⟩ := projectChain_split hchain
    obtain ⟨g, rfl, rfl⟩ := complete_project_iff.1 hcomplete
    cases hbuild
    obtain ⟨deps, rfl, hentries⟩ := hdeps.forall₂_of_table hread
    refine ⟨g, deps, rfl, ?_, hentries⟩
    exact hbare.standsFor_record_iff.2 ⟨(some g, none, ()), (g, [], ()), hwithout, rfl, rfl⟩
  | array hsource hdeps hbare =>
    obtain ⟨values, hfills, hbuild⟩ := hsource.standsFor_record_iff.1 h
    cases hfills with
    | item hgraph hfills =>
      cases hfills with
      | item hread hfills =>
        cases hfills
        cases hbuild
        obtain ⟨deps, rfl, hentries⟩ := hdeps.forall₂_of_table hread
        refine ⟨_, deps, rfl, ?_, hentries⟩
        exact hbare.standsFor_record_iff.2 ⟨(_, [], ()), .item hgraph (.short rfl), rfl⟩

/-- Documents of projects come apart, unless they are without dependencies. -/
theorem exists_splitsDeps {source : String} {p : Project}
    (h : StandsFor (budget + 2) (.record .project) source.toList p) (hdeps : p.deps ≠ []) :
    ∃ bare entries, SplitsDeps source bare entries := by
  rcases h.exists_objectText_or_arrayText with ⟨members, hsource⟩ | ⟨items, hsource⟩
  · obtain ⟨slots, values, hchain, hcomplete, hbuild⟩ := hsource.standsFor_record_iff.1 h
    by_cases hkey : "deps" ∈ members.map Prod.fst
    · obtain ⟨⟨_, deps⟩, hmember, rfl⟩ := List.mem_map.1 hkey
      obtain ⟨front, back, rfl⟩ := List.append_of_mem hmember
      obtain ⟨graph, table, -, hread, -⟩ := projectChain_split hchain
      obtain ⟨entries, hentries⟩ := StandsFor.exists_objectText ⟨[], hread, rfl⟩
      refine ⟨writtenObject (front ++ back), entries, .object hsource hentries ?_⟩
      apply objectText_writtenObject
      intro member hmember
      apply hsource.isPart_of_mem
      rcases List.mem_append.1 hmember with hmember | hmember
      · exact List.mem_append_left _ hmember
      · exact List.mem_append_right _ (List.mem_cons_of_mem _ hmember)
    · have hkeys : ∀ member ∈ members, member.1 ≠ "deps" := by
        intro member hmember hname
        exact hkey (List.mem_map.2 ⟨member, hmember, hname⟩)
      obtain ⟨graph, deps, ⟨⟩⟩ := slots
      obtain rfl := projectChain_deps_eq hkeys hchain
      obtain ⟨g, -, rfl⟩ := complete_project_iff.1 hcomplete
      cases hbuild
      exact absurd rfl hdeps
  · obtain ⟨values, hfills, hbuild⟩ := hsource.standsFor_record_iff.1 h
    cases hfills with
    | short hfill => cases hfill
    | @item _ _ _ graph _ _ _ hgraph hfills =>
      cases hfills with
      | short hfill =>
        cases hfill
        cases hbuild
        exact absurd rfl hdeps
      | @item _ _ _ deps _ _ _ hread hfills =>
        cases hfills
        obtain ⟨entries, hentries⟩ := StandsFor.exists_objectText ⟨[], hread, rfl⟩
        obtain ⟨bare, hbare⟩ := hsource.exists_singleton
        exact ⟨bare, entries, .array hsource hentries hbare⟩

/-! ### Documents that are put together -/

/-- The document of a project, from the document of its graph and those of its dependencies. -/
def projectDocument (graph : String) (entries : List (String × String)) : String :=
  writtenObject ([] ++ ("deps", writtenObject entries) :: [("graph", graph)])

section
variable {graph : String} {entries : List (String × String)} (hgraph : IsPart graph.toList)
  (hentries : ∀ entry ∈ entries, IsPart entry.2.toList)
include hgraph hentries

theorem isPart_members :
    ∀ member ∈ [] ++ ("deps", writtenObject entries) :: [("graph", graph)], IsPart member.2.toList :=
  List.forall_mem_cons.2 ⟨isPart_writtenObject hentries, List.forall_mem_singleton.2 hgraph⟩

theorem isPart_projectDocument : IsPart (projectDocument graph entries).toList :=
  isPart_writtenObject (isPart_members hgraph hentries)

theorem splitsDeps_projectDocument :
    SplitsDeps (projectDocument graph entries) (writtenObject ([] ++ [("graph", graph)])) entries :=
  .object (objectText_writtenObject (isPart_members hgraph hentries))
    (objectText_writtenObject hentries)
    (objectText_writtenObject (List.forall_mem_singleton.2 hgraph))

/-- What stands for the parts is put together too. -/
theorem standsFor_projectDocument {g : Graph} (deps : List (String × Project))
    (hg : StandsFor (budget + 1) (.record .graph) graph.toList g)
    (hdeps : List.Forall₂ (fun entry dep => entry.1 = dep.1 ∧
      StandsFor budget (.record .project) entry.2.toList dep.2) entries deps) :
    StandsFor (budget + 2) (.record .project) (projectDocument graph entries).toList
      (⟨g, tableOf deps⟩ : Project) := by
  have halone := ((List.forall₂_and_left _ _).2 ⟨hentries, hdeps⟩).imp
    fun entry dep ⟨hpart, hkey, hread⟩ => And.intro hkey (hpart.standsFor_iff.1 hread)
  have htable : StandsFor (budget + 1) (.table (.record .project)) (writtenObject entries).toList
      (tableOf deps) :=
    (objectText_writtenObject hentries).standsFor_table_iff.2
      (chain_entryRead_iff.2 ⟨deps, halone, rfl⟩)
  have hread := (isPart_writtenObject hentries).standsFor_iff.1 htable
  have hfirst : StepAlone (fun key => StoreRead (ofText (budget + 1)) key RecordKind.project.fields)
      ("deps", writtenObject entries) (none, none, ()) (none, some (tableOf deps), ()) :=
    storeRead_deps_iff.2 ⟨rfl, _, hread, rfl⟩
  have hsecond : StepAlone (fun key => StoreRead (ofText (budget + 1)) key RecordKind.project.fields)
      ("graph", graph) (none, some (tableOf deps), ()) (some g, some (tableOf deps), ()) :=
    .field rfl (hgraph.standsFor_iff.1 hg)
  have hobject := objectText_writtenObject (isPart_members hgraph hentries)
  exact hobject.standsFor_record_iff.2 ⟨_, (g, tableOf deps, ()), .cons hfirst (.cons hsecond .nil),
    rfl, rfl⟩

end

end Document

/-! ## All levels -/

namespace Project

open Document (SplitsDeps IsDefinition StandsFor)

theorem ofText_eq_ok_iff {source : String} {p : Project} :
    ofText source = .ok p ↔ StandsFor maxDepth (.record .project) source.toList p := by
  unfold ofText StandsFor
  dsimp only
  cases Document.ofText maxDepth (.record .project) source.toList with
  | error failure => exact iff_of_false (fun h => by cases h) (fun ⟨_, h, _⟩ => by cases h)
  | ok r =>
    dsimp only
    rw [Json.atEnd]
    cases hskip : Json.skipBlanks r.rest with
    | nil =>
      constructor
      · rintro ⟨⟩
        exact ⟨r.rest, rfl, hskip⟩
      · rintro ⟨_, ⟨⟩, -⟩
        rfl
    | cons c left =>
      constructor
      · intro h
        cases h
      · rintro ⟨_, ⟨⟩, hend⟩
        cases hskip.symm.trans hend

/-- An entry of the dependencies of a document loads by itself. -/
def Loads (entry : String × String) (dep : String × Project) : Prop :=
  entry.1 = dep.1 ∧ ofText entry.2 = .ok dep.2

theorem keys_of_loads {entries : List (String × String)} {deps : List (String × Project)}
    (h : List.Forall₂ Loads entries deps) : entries.map Prod.fst = deps.map Prod.fst :=
  Document.keys_eq_of_forall₂ (fun _ _ hentry => hentry.1) h

/-- If a document is loaded, it is loaded without its dependencies, and they are loaded by themselves. -/
theorem ofText_of_splitsDeps {source bare : String} {entries : List (String × String)} {p : Project}
    (hsplits : SplitsDeps source bare entries) (hp : ofText source = .ok p) :
    ∃ (g : Graph) (deps : List (String × Project)), p = ⟨g, Document.tableOf deps⟩ ∧
      ofText bare = .ok ⟨g, []⟩ ∧ List.Forall₂ Loads entries deps := by
  obtain ⟨g, deps, rfl, hbare, hentries⟩ := hsplits.standsFor (ofText_eq_ok_iff.1 hp)
  refine ⟨g, deps, rfl, ofText_eq_ok_iff.2 hbare, hentries.imp ?_⟩
  rintro entry dep ⟨hkey, halone⟩
  -- An entry is two levels down, so less of the depth is left for it there than by itself.
  exact ⟨hkey, ofText_eq_ok_iff.2 (halone.of_le (by decide))⟩

theorem exists_ofText_of_isDefinition {outer inner : String} {p : Project}
    (h : IsDefinition outer inner) (hp : ofText outer = .ok p) : ∃ q, ofText inner = .ok q := by
  obtain ⟨bare, entries, hsplits, hinner⟩ := h
  obtain ⟨g, deps, -, -, hentries⟩ := ofText_of_splitsDeps hsplits hp
  obtain ⟨entry, hentry, rfl⟩ := List.mem_map.1 hinner
  obtain ⟨dep, -, -, hload⟩ := Document.exists_mem_of_forall₂ hentries.flip hentry
  exact ⟨dep.2, hload⟩

/-- Every document inside of a document that is loaded is loaded by itself. -/
theorem exists_ofText_inside {whole source : String} {root : Project} (hroot : ofText whole = .ok root)
    (hinside : Relation.ReflTransGen IsDefinition whole source) : ∃ p, ofText source = .ok p := by
  induction hinside with
  | refl => exact ⟨root, hroot⟩
  | tail _ hdefinition ih =>
    obtain ⟨p, hp⟩ := ih
    exact exists_ofText_of_isDefinition hdefinition hp

/-- Dependencies are loaded one by one. Wherever a document of a project stands in a document that is
loaded, it is loaded by itself, and unless the project has no dependencies, the document comes apart.
Then the project is the one of the document without its dependencies after each of these is loaded by
itself and inserted, in textual order: each key is there once, at the place where it comes first, with
the project that comes last. -/
theorem ofText_eq_foldl_insertDep {whole source : String} {root : Project}
    (hroot : ofText whole = .ok root) (hinside : Relation.ReflTransGen IsDefinition whole source) :
    ∃ p, ofText source = .ok p ∧ (p.deps ≠ [] → ∃ bare entries, SplitsDeps source bare entries) ∧
      ∀ bare entries, SplitsDeps source bare entries →
        ∃ (base : Project) (deps : List (String × Project)),
          ofText bare = .ok base ∧ List.Forall₂ Loads entries deps ∧
            p = deps.foldl (fun q dep => q.insertDep dep.1 dep.2) base ∧ base.deps = [] ∧
              p.deps.map Prod.fst = (entries.map Prod.fst).eraseDups ∧
                ∀ t, p.deps.lookup t = deps.reverse.lookup t := by
  obtain ⟨p, hp⟩ := exists_ofText_inside hroot hinside
  refine ⟨p, hp, Document.exists_splitsDeps (ofText_eq_ok_iff.1 hp), ?_⟩
  intro bare entries hsplits
  obtain ⟨g, deps, rfl, hbare, hentries⟩ := ofText_of_splitsDeps hsplits hp
  refine ⟨_, deps, hbare, hentries, ?_, rfl, ?_, ?_⟩
  · rw [foldl_insertDep, Document.tableOf]
  · rw [keys_of_loads hentries]
    exact Document.keys_tableOf deps
  · exact Document.lookup_tableOf deps

/-! ### A panel with a repeated key -/

/-- A graph of nothing. -/
def bareGraph : String :=
  "[[],[]]"

/-- A graph of one use of a type. -/
def useGraph : String :=
  "[[[\"x\",\"b\"]],[]]"

/-- A panel of nothing, with three dependencies under two keys. -/
def panelEntries : List (String × String) :=
  [("a", Document.projectDocument bareGraph []), ("b", Document.projectDocument bareGraph []),
    ("a", Document.projectDocument useGraph [])]

/-- A desk of nothing, with the panel as a dependency. -/
def deskEntries : List (String × String) :=
  [("panel", Document.projectDocument bareGraph panelEntries)]

section
open Json (Spells Separator SpellsString blanks_nil spellsString_self)
open Document (IsPart projectDocument isPart_of_spells isPart_projectDocument standsFor_of_spells
  standsFor_projectDocument splitsDeps_projectDocument)

theorem spells_bareGraph : Spells (.array [.array [], .array []]) bareGraph.toList := by
  have hnone := Spells.array .nil blanks_nil
  exact .array (.cons (.first blanks_nil) hnone (.cons (.comma blanks_nil blanks_nil) hnone .nil))
    blanks_nil

theorem spells_useGraph :
    Spells (.array [.array [.array [.string "x", .string "b"]], .array []]) useGraph.toList := by
  have hcomma : Separator false [','] := .comma blanks_nil blanks_nil
  have hx : SpellsString "x" _ := spellsString_self (by decide)
  have hb : SpellsString "b" _ := spellsString_self (by decide)
  have hblock := Spells.array (.cons (.first blanks_nil) (.string hx) (.cons hcomma (.string hb) .nil))
    blanks_nil
  have hblocks := Spells.array (.cons (.first blanks_nil) hblock .nil) blanks_nil
  exact .array (.cons (.first blanks_nil) hblocks
    (.cons hcomma (.array .nil blanks_nil) .nil)) blanks_nil

theorem isPart_panelEntries : ∀ entry ∈ panelEntries, IsPart entry.2.toList := by
  have hbare := isPart_projectDocument (isPart_of_spells spells_bareGraph) (List.forall_mem_nil _)
  have huse := isPart_projectDocument (isPart_of_spells spells_useGraph) (List.forall_mem_nil _)
  exact List.forall_mem_cons.2 ⟨hbare, List.forall_mem_cons.2 ⟨hbare, List.forall_mem_singleton.2 huse⟩⟩

theorem isPart_deskEntries : ∀ entry ∈ deskEntries, IsPart entry.2.toList :=
  List.forall_mem_singleton.2
    (isPart_projectDocument (isPart_of_spells spells_bareGraph) isPart_panelEntries)

/-- The desk, loaded as a whole: of the three dependencies of the panel, the third one takes the place of
the first one. -/
def deskProject : Project :=
  ⟨⟨[], []⟩, [("panel",
    ⟨⟨[], []⟩, [("a", ⟨⟨[⟨"x", .compound "b"⟩], []⟩, []⟩), ("b", ⟨⟨[], []⟩, []⟩)]⟩)]⟩

theorem ofText_desk : ofText (projectDocument bareGraph deskEntries) = .ok deskProject := by
  have hpart := isPart_of_spells spells_bareGraph
  have hgraph {budget : Nat} (h : 2 ≤ budget) :
      StandsFor budget (.record .graph) bareGraph.toList (⟨[], []⟩ : Graph) :=
    standsFor_of_spells spells_bareGraph h rfl
  have hempty : StandsFor 123 (.record .project) _ (⟨⟨[], []⟩, []⟩ : Project) :=
    standsFor_projectDocument hpart (List.forall_mem_nil _) [] (hgraph (by decide)) .nil
  have huse : StandsFor 123 (.record .project) _ (⟨⟨[⟨"x", .compound "b"⟩], []⟩, []⟩ : Project) :=
    standsFor_projectDocument (isPart_of_spells spells_useGraph) (List.forall_mem_nil _) []
      (standsFor_of_spells spells_useGraph (by decide) rfl) .nil
  have hpanel : StandsFor 125 (.record .project) _ _ :=
    standsFor_projectDocument hpart isPart_panelEntries [("a", _), ("b", _), ("a", _)]
      (hgraph (by decide)) (.cons ⟨rfl, hempty⟩ (.cons ⟨rfl, hempty⟩ (.cons ⟨rfl, huse⟩ .nil)))
  have hdesk := standsFor_projectDocument hpart isPart_deskEntries [("panel", _)]
    (hgraph (by decide)) (.cons ⟨rfl, hpanel⟩ .nil)
  exact ofText_eq_ok_iff.2 hdesk

/-- Inside of the desk the panel is what it is by itself. -/
theorem ofText_eq_foldl_insertDep_panel :
    ofText (projectDocument bareGraph deskEntries) = .ok deskProject ∧
      IsDefinition (projectDocument bareGraph deskEntries) (projectDocument bareGraph panelEntries) ∧
        ∃ (p base : Project) (deps : List (String × Project)),
          ofText (projectDocument bareGraph panelEntries) = .ok p ∧
            List.Forall₂ Loads panelEntries deps ∧
              p = deps.foldl (fun q dep => q.insertDep dep.1 dep.2) base ∧
                p.deps.map Prod.fst = ["a", "b"] ∧ p.deps.lookup "a" = deps.reverse.lookup "a" := by
  have hpart := isPart_of_spells spells_bareGraph
  have hdesk := splitsDeps_projectDocument hpart isPart_deskEntries
  have hpanel := splitsDeps_projectDocument hpart isPart_panelEntries
  have hinside : IsDefinition (projectDocument bareGraph deskEntries)
      (projectDocument bareGraph panelEntries) :=
    ⟨_, _, hdesk, List.mem_singleton_self _⟩
  obtain ⟨p, hp, -, hsplits⟩ := ofText_eq_foldl_insertDep ofText_desk (.single hinside)
  obtain ⟨base, deps, -, hloads, hfold, -, hkeys, hlookup⟩ := hsplits _ _ hpanel
  exact ⟨ofText_desk, hinside, p, base, deps, hp, hloads, hfold, hkeys, hlookup "a"⟩

end

end Project

end BlockCircuit
