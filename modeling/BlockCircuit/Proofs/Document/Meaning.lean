import BlockCircuit.Document.Load
import BlockCircuit.Proofs.Document.Records
import BlockCircuit.Proofs.Project.Tree

/-!
# What JSON values stand for

A JSON value stands for a project if each part of it stands for a part of the project. This is said
record by record, without the loader: a record is an object or the array of its fields, its fields
are required, optional or nullable, and the dependencies of a project are projects again. The loader
agrees: it finds what a value stands for, and fails when there is nothing.

* `PinOf`, `PortsOf`, `DataOf`, `BlockOf`, `WireOf`, `GraphOf`, `ProjectOf` — what the parts of a
  document stand for;
* `buildBlock_eq_ok_iff` — which blocks are built from an id, a type and data;
* `reads_project_iff` — what is loaded from a value is what the value stands for;
* `exists_projectOf_of_reaches` — every circuit of a tree is what some value stands for;
* `compound_of_projectOf` — compound blocks have types that are not reserved;
* `keys_tableOf`, `lookup_tableOf` — the keys of a table, in the order of the document, and their values.
-/

namespace BlockCircuit

/-- Induction on the size of a value. -/
theorem Json.Value.strongInduction {holds : Value → Prop}
    (step : ∀ v, (∀ u, sizeOf u < sizeOf v → holds u) → holds v) (v : Value) : holds v :=
  (measure sizeOf).wf.induction v step

namespace Document

/-! ## What a value stands for -/

/-- A string. -/
inductive TextOf : Json.Value → String → Prop
  | string {text : String} : TextOf (.string text) text

/-- The value of a pin: a string, or a number that stands for its text. -/
inductive PinValueOf : Json.Value → String → Prop
  | string {text : String} : PinValueOf (.string text) text
  | number {n : Json.Number} : PinValueOf (.number n) n.text

/-- An end of a wire. -/
structure EndpointOf (v : Json.Value) (e : Endpoint) : Prop where
  record : v.IsRecord ["block", "port"]
  block : RequiredOf TextOf (v.field? 0 "block") e.block
  port : RequiredOf TextOf (v.field? 1 "port") e.port

/-- A wire. -/
structure WireOf (v : Json.Value) (w : Wire) : Prop where
  record : v.IsRecord ["source", "target"]
  source : RequiredOf EndpointOf (v.field? 0 "source") w.source
  target : RequiredOf EndpointOf (v.field? 1 "target") w.target

/-- A pin. -/
structure PinOf (v : Json.Value) (pin : Pin) : Prop where
  record : v.IsRecord ["name", "value"]
  name : NullableOf TextOf (v.field? 0 "name") pin.name
  value : RequiredOf PinValueOf (v.field? 1 "value") pin.value

/-- The ports of a code block. -/
structure PortsOf (v : Json.Value) (ports : Ports) : Prop where
  record : v.IsRecord ["in", "out"]
  inputs : OptionalOf (ListOf TextOf) [] (v.field? 0 "in") ports.inputs
  outputs : OptionalOf (ListOf TextOf) [] (v.field? 1 "out") ports.outputs

/-- The data of a block. -/
structure DataOf (v : Json.Value) (data : BlockData) : Prop where
  record : v.IsRecord ["pin", "ports", "code"]
  pin : NullableOf PinOf (v.field? 0 "pin") data.pin
  ports : NullableOf PortsOf (v.field? 1 "ports") data.ports
  code : NullableOf TextOf (v.field? 2 "code") data.code

/-- A kind that a block with these data can have: ports take the pin, code takes the ports and the
text, and the type of a compound block is none of the three that are reserved. -/
inductive KindOf (data : BlockData) : BlockKind → Prop
  | input : KindOf data (.input data.pin)
  | output : KindOf data (.output data.pin)
  | code {ports : Ports} {text : String} :
      data.ports = some ports → data.code = some text → KindOf data (.code ports text)
  | compound {t : String} :
      t ≠ inputType → t ≠ outputType → t ≠ codeType → KindOf data (.compound t)

/-- A block. -/
structure BlockOf (v : Json.Value) (b : Block) : Prop where
  record : v.IsRecord ["id", "type", "data"]
  id : RequiredOf TextOf (v.field? 0 "id") b.id
  type : RequiredOf TextOf (v.field? 1 "type") b.typeName
  kind : ∃ data?, NullableOf DataOf (v.field? 2 "data") data? ∧ KindOf (data?.getD {}) b.kind

/-- A graph. -/
structure GraphOf (v : Json.Value) (g : Graph) : Prop where
  record : v.IsRecord ["blocks", "wires"]
  blocks : RequiredOf (ListOf BlockOf) (v.field? 0 "blocks") g.blocks
  wires : RequiredOf (ListOf WireOf) (v.field? 1 "wires") g.wires

/-- A project. Its dependencies are projects in turn. -/
inductive ProjectOf : Json.Value → Project → Prop
  | record {v : Json.Value} {g : Graph} {deps : List (String × Project)} :
      v.IsRecord ["graph", "deps"] → RequiredOf GraphOf (v.field? 0 "graph") g →
      OptionalOf (TableOf ProjectOf) [] (v.field? 1 "deps") deps → ProjectOf v ⟨g, deps⟩

/-! ## What is loaded -/

section
variable {α : Type} {R S : Json.Value → α → Prop}

theorem OptionalOf.imp {default : α} {part : Option Json.Value} {a : α}
    (h : ∀ v ∈ part, ∀ a, R v a → S v a) (hpart : OptionalOf R default part a) :
    OptionalOf S default part a := by
  cases hpart with
  | absent => exact .absent
  | present hv => exact .present (h _ rfl _ hv)

theorem forall₂_entryOf_imp {members : List (String × Json.Value)} {entries : List (String × α)}
    (h : ∀ member ∈ members, ∀ a, R member.2 a → S member.2 a)
    (hentries : List.Forall₂ (EntryOf R) members entries) :
    List.Forall₂ (EntryOf S) members entries := by
  induction hentries with
  | nil => exact .nil
  | cons hentry hentries ih =>
    rw [List.forall_mem_cons] at h
    refine .cons ?_ (ih h.2)
    cases hentry with
    | member hv => exact .member (h.1 _ hv)

theorem sizeOf_lt_of_mem_members {members : List (String × Json.Value)}
    {member : String × Json.Value} (h : member ∈ members) :
    sizeOf member.2 < sizeOf (Json.Value.object members) := by
  have hmem := List.sizeOf_lt_of_mem h
  obtain ⟨key, v⟩ := member
  simp at hmem ⊢
  omega

theorem TableOf.imp {v : Json.Value} {table : List (String × α)}
    (h : ∀ u, sizeOf u < sizeOf v → ∀ a, R u a → S u a) (htable : TableOf R v table) :
    TableOf S v table := by
  cases htable with
  | object hentries =>
    refine .object (forall₂_entryOf_imp (fun member hmember => ?_) hentries)
    exact h member.2 (sizeOf_lt_of_mem_members hmember)

end

theorem sizeOf_lt_of_field? {v u : Json.Value} {place : Nat} {key : String}
    (h : v.field? place key = some u) : sizeOf u < sizeOf v := by
  cases v with
  | array items =>
    have hmem := List.sizeOf_lt_of_mem (List.mem_of_getElem? h)
    simp at hmem ⊢
    omega
  | object members =>
    obtain ⟨before, after, rfl, -⟩ := List.lookup_eq_some_iff.1 h
    have hmember : (key, u) ∈ before ++ (key, u) :: after :=
      List.mem_append_right before List.mem_cons_self
    exact sizeOf_lt_of_mem_members hmember
  | null | boolean | number | string => cases h

theorem reads_text : Reads .text = TextOf := by
  funext v text
  refine propext ⟨?_, ?_⟩
  · intro h
    cases v <;> cases h
    exact .string
  · intro h
    cases h
    rfl

theorem reads_pinValue : Reads .pinValue = PinValueOf := by
  funext v text
  refine propext ⟨?_, ?_⟩
  · intro h
    cases v <;> cases h
    · exact .number
    · exact .string
  · intro h
    cases h <;> rfl

theorem reads_list (item : Shape) : Reads (.list item) = ListOf (Reads item) := by
  funext v values
  exact propext reads_list_iff

theorem reads_endpoint : Reads (.record .endpoint) = EndpointOf := by
  funext v e
  refine propext (reads_record_iff.trans ⟨?_, ?_⟩)
  · rintro ⟨hrecord, ⟨b, p, ⟨⟩⟩, ⟨hb, hp, -⟩, h⟩
    cases h
    simp only [Field.Reads, reads_text] at hb hp
    exact ⟨hrecord, hb, hp⟩
  · rintro ⟨hrecord, hb, hp⟩
    refine ⟨hrecord, (e.block, e.port, ()), ?_, rfl⟩
    simp only [FieldsRead, Field.Reads, reads_text]
    exact ⟨hb, hp, trivial⟩

theorem reads_wire : Reads (.record .wire) = WireOf := by
  funext v w
  refine propext (reads_record_iff.trans ⟨?_, ?_⟩)
  · rintro ⟨hrecord, ⟨source, target, ⟨⟩⟩, ⟨hsource, htarget, -⟩, h⟩
    cases h
    simp only [Field.Reads, reads_endpoint] at hsource htarget
    exact ⟨hrecord, hsource, htarget⟩
  · rintro ⟨hrecord, hsource, htarget⟩
    refine ⟨hrecord, (w.source, w.target, ()), ?_, rfl⟩
    simp only [FieldsRead, Field.Reads, reads_endpoint]
    exact ⟨hsource, htarget, trivial⟩

theorem reads_pin : Reads (.record .pin) = PinOf := by
  funext v pin
  refine propext (reads_record_iff.trans ⟨?_, ?_⟩)
  · rintro ⟨hrecord, ⟨name, value, ⟨⟩⟩, ⟨hname, hvalue, -⟩, h⟩
    cases h
    simp only [Field.Reads, reads_text, reads_pinValue] at hname hvalue
    exact ⟨hrecord, hname, hvalue⟩
  · rintro ⟨hrecord, hname, hvalue⟩
    refine ⟨hrecord, (pin.name, pin.value, ()), ?_, rfl⟩
    simp only [FieldsRead, Field.Reads, reads_text, reads_pinValue]
    exact ⟨hname, hvalue, trivial⟩

theorem reads_ports : Reads (.record .ports) = PortsOf := by
  funext v ports
  refine propext (reads_record_iff.trans ⟨?_, ?_⟩)
  · rintro ⟨hrecord, ⟨inputs, outputs, ⟨⟩⟩, ⟨hinputs, houtputs, -⟩, h⟩
    cases h
    simp only [Field.Reads, reads_list, reads_text] at hinputs houtputs
    exact ⟨hrecord, hinputs, houtputs⟩
  · rintro ⟨hrecord, hinputs, houtputs⟩
    refine ⟨hrecord, (ports.inputs, ports.outputs, ()), ?_, rfl⟩
    simp only [FieldsRead, Field.Reads, reads_list, reads_text]
    exact ⟨hinputs, houtputs, trivial⟩

theorem reads_blockData : Reads (.record .blockData) = DataOf := by
  funext v data
  refine propext (reads_record_iff.trans ⟨?_, ?_⟩)
  · rintro ⟨hrecord, ⟨pin, ports, text, ⟨⟩⟩, ⟨hpin, hports, htext, -⟩, h⟩
    cases h
    simp only [Field.Reads, reads_pin, reads_ports, reads_text] at hpin hports htext
    exact ⟨hrecord, hpin, hports, htext⟩
  · rintro ⟨hrecord, hpin, hports, htext⟩
    refine ⟨hrecord, (data.pin, data.ports, data.code, ()), ?_, rfl⟩
    simp only [FieldsRead, Field.Reads, reads_pin, reads_ports, reads_text]
    exact ⟨hpin, hports, htext, trivial⟩

/-- A block is built from an id, a type and data exactly when it has the id and the type, and its
kind is one that the data allow. -/
theorem buildBlock_eq_ok_iff {id typeName : String} {data : BlockData} {b : Block} :
    buildBlock id typeName data = .ok b ↔
      b.id = id ∧ b.typeName = typeName ∧ KindOf data b.kind := by
  constructor
  · intro h
    unfold buildBlock at h
    split at h
    · rename_i htype
      cases h
      exact ⟨rfl, htype.symm, .input⟩
    · rename_i hinput
      split at h
      · rename_i htype
        cases h
        exact ⟨rfl, htype.symm, .output⟩
      · rename_i houtput
        split at h
        · rename_i htype
          split at h
          · cases h
          · cases h
          · rename_i ports text hports htext
            cases h
            exact ⟨rfl, htype.symm, .code hports htext⟩
        · rename_i hcode
          cases h
          exact ⟨rfl, rfl, .compound hinput houtput hcode⟩
  · obtain ⟨blockId, kind⟩ := b
    rintro ⟨rfl, rfl, hkind⟩
    cases hkind with
    | input | output => rfl
    | code hports htext =>
      have hinput : codeType ≠ inputType := by decide
      have houtput : codeType ≠ outputType := by decide
      show buildBlock blockId codeType data = _
      rw [buildBlock, if_neg hinput, if_neg houtput, if_pos rfl, hports, htext]
    | @compound t hinput houtput hcode =>
      show buildBlock blockId t data = _
      rw [buildBlock, if_neg hinput, if_neg houtput, if_neg hcode]

theorem reads_block : Reads (.record .block) = BlockOf := by
  funext v b
  refine propext (reads_record_iff.trans ⟨?_, ?_⟩)
  · rintro ⟨hrecord, ⟨id, typeName, data?, ⟨⟩⟩, ⟨hid, htype, hdata, -⟩, h⟩
    obtain ⟨rfl, rfl, hkind⟩ := buildBlock_eq_ok_iff.1 h
    simp only [Field.Reads, reads_text, reads_blockData] at hid htype hdata
    exact ⟨hrecord, hid, htype, data?, hdata, hkind⟩
  · rintro ⟨hrecord, hid, htype, data?, hdata, hkind⟩
    refine ⟨hrecord, (b.id, b.typeName, data?, ()), ?_, buildBlock_eq_ok_iff.2 ⟨rfl, rfl, hkind⟩⟩
    simp only [FieldsRead, Field.Reads, reads_text, reads_blockData]
    exact ⟨hid, htype, hdata, trivial⟩

theorem reads_graph : Reads (.record .graph) = GraphOf := by
  funext v g
  refine propext (reads_record_iff.trans ⟨?_, ?_⟩)
  · rintro ⟨hrecord, ⟨blocks, wires, ⟨⟩⟩, ⟨hblocks, hwires, -⟩, h⟩
    cases h
    simp only [Field.Reads, reads_list, reads_block, reads_wire] at hblocks hwires
    exact ⟨hrecord, hblocks, hwires⟩
  · rintro ⟨hrecord, hblocks, hwires⟩
    refine ⟨hrecord, (g.blocks, g.wires, ()), ?_, rfl⟩
    simp only [FieldsRead, Field.Reads, reads_list, reads_block, reads_wire]
    exact ⟨hblocks, hwires, trivial⟩

/-- What is loaded from a value is what the value stands for. -/
theorem reads_project_iff {v : Json.Value} {p : Project} :
    Reads (.record .project) v p ↔ ProjectOf v p := by
  -- The dependencies are smaller than the value that they stand in.
  induction v using Json.Value.strongInduction generalizing p with
  | step v ih =>
    have hdeps {u : Json.Value} (hu : v.field? 1 "deps" = some u) (w : Json.Value)
        (hw : sizeOf w < sizeOf u) (q : Project) :
        Reads (.record .project) w q ↔ ProjectOf w q :=
      ih w (Nat.lt_trans hw (sizeOf_lt_of_field? hu))
    refine reads_record_iff.trans ⟨?_, ?_⟩
    · rintro ⟨hrecord, ⟨g, deps, ⟨⟩⟩, ⟨hg, htable, -⟩, h⟩
      cases h
      simp only [Field.Reads, reads_graph] at hg htable
      refine .record hrecord hg (htable.imp fun u hu table hread => ?_)
      exact (reads_table_iff.1 hread).imp fun w hw q => (hdeps hu w hw q).1
    · intro h
      cases h with
      | @record _ g deps hrecord hg htable =>
        refine ⟨hrecord, (g, deps, ()), ?_, rfl⟩
        simp only [FieldsRead, Field.Reads, reads_graph]
        refine ⟨hg, htable.imp fun u hu table hread => ?_, trivial⟩
        exact reads_table_iff.2 (hread.imp fun w hw q => (hdeps hu w hw q).2)

/-! ## Tables and trees -/

section
variable {α : Type}

/-- Keys keep the place where they come first. -/
theorem keys_foldl_insertEntry (entries table : List (String × α)) :
    (entries.foldl (fun table entry => insertEntry table entry.1 entry.2) table).map Prod.fst =
      table.map Prod.fst ++
        ((entries.map Prod.fst).filter fun key => key ∉ table.map Prod.fst).eraseDups := by
  induction entries generalizing table with
  | nil => simp
  | cons entry entries ih =>
    obtain ⟨key, a⟩ := entry
    rw [List.foldl_cons, ih, keys_insertEntry, List.map_cons]
    by_cases hkey : key ∈ table.map Prod.fst
    · rw [if_pos hkey, List.filter_cons_of_neg (by simpa using hkey)]
    · rw [if_neg hkey, List.filter_cons_of_pos (by simpa using hkey), List.eraseDups_cons,
        List.filter_filter, List.append_assoc, List.singleton_append]
      congr 4
      funext other
      rw [Bool.eq_iff_iff]
      simp only [decide_eq_true_eq, Bool.and_eq_true, Bool.not_eq_true', List.mem_append,
        List.mem_singleton, beq_eq_false_iff_ne, not_or]
      exact and_comm

/-- The keys of a table are those of its entries, each at its first place. -/
theorem keys_tableOf (entries : List (String × α)) :
    (tableOf entries).map Prod.fst = (entries.map Prod.fst).eraseDups := by
  rw [tableOf, keys_foldl_insertEntry]
  simp

/-- What is inserted last counts. -/
theorem lookup_foldl_insertEntry (entries table : List (String × α)) (key : String) :
    (entries.foldl (fun table entry => insertEntry table entry.1 entry.2) table).lookup key =
      (entries.reverse.lookup key).or (table.lookup key) := by
  induction entries generalizing table with
  | nil => rfl
  | cons entry entries ih =>
    obtain ⟨k, a⟩ := entry
    rw [List.foldl_cons, ih, lookup_insertEntry, List.reverse_cons, List.lookup_append, Option.or_assoc,
      lookup_cons_eq]
    by_cases hkey : key = k
    · rw [if_pos hkey, if_pos hkey, Option.some_or]
    · rw [if_neg hkey, if_neg hkey, List.lookup_nil, Option.none_or]

/-- A key of a table has the last of its values. -/
theorem lookup_tableOf (entries : List (String × α)) (key : String) :
    (tableOf entries).lookup key = entries.reverse.lookup key := by
  rw [tableOf, lookup_foldl_insertEntry, List.lookup_nil, Option.or_none]

theorem mem_of_mem_foldl_insertEntry {entries table : List (String × α)} {entry : String × α}
    (h : entry ∈ entries.foldl (fun table entry => insertEntry table entry.1 entry.2) table) :
    entry ∈ table ∨ entry ∈ entries := by
  induction entries generalizing table with
  | nil => exact .inl h
  | cons first entries ih =>
    rcases ih h with hinsert | hrest
    · rcases mem_of_mem_insertEntry hinsert with rfl | htable
      · exact .inr List.mem_cons_self
      · exact .inl htable
    · exact .inr (List.mem_cons_of_mem first hrest)

theorem mem_of_mem_tableOf {entries : List (String × α)} {entry : String × α}
    (h : entry ∈ tableOf entries) : entry ∈ entries :=
  (mem_of_mem_foldl_insertEntry h).resolve_left List.not_mem_nil

/-- Members that belong to one another by their keys have the same keys. -/
theorem keys_eq_of_forall₂ {β γ : Type} {R : String × β → String × γ → Prop}
    (hR : ∀ member entry, R member entry → member.1 = entry.1) {members : List (String × β)}
    {entries : List (String × γ)} (h : List.Forall₂ R members entries) :
    members.map Prod.fst = entries.map Prod.fst := by
  induction h with
  | nil => rfl
  | cons hentry _ ih => rw [List.map_cons, List.map_cons, hR _ _ hentry, ih]

theorem keys_of_forall₂ {R : Json.Value → α → Prop} {members : List (String × Json.Value)}
    {entries : List (String × α)} (h : List.Forall₂ (EntryOf R) members entries) :
    members.map Prod.fst = entries.map Prod.fst :=
  keys_eq_of_forall₂ (fun _ _ hentry => by cases hentry; rfl) h

theorem exists_mem_of_forall₂ {β γ : Type} {R : β → γ → Prop} {l : List β} {l' : List γ} {y : γ}
    (h : List.Forall₂ R l l') (hy : y ∈ l') : ∃ x ∈ l, R x y := by
  induction h with
  | nil => exact absurd hy List.not_mem_nil
  | cons hx hl ih =>
    rcases List.mem_cons.1 hy with rfl | hy
    · exact ⟨_, List.mem_cons_self, hx⟩
    · obtain ⟨x, hmem, hx⟩ := ih hy
      exact ⟨x, List.mem_cons_of_mem _ hmem, hx⟩

end

/-- Every circuit of a tree is what some part of the document stands for. -/
theorem exists_projectOf_of_reaches {v : Json.Value} {p q : Project} {path : List String}
    (h : ProjectOf v p) (hq : p.Reaches path q) : ∃ u, ProjectOf u q := by
  induction hq generalizing v with
  | here => exact ⟨v, h⟩
  | through hdep hq ih =>
    obtain ⟨-, -, htable⟩ := h
    generalize v.field? 1 "deps" = part at htable
    cases htable with
    | absent => exact absurd hdep List.not_mem_nil
    | present htable =>
      cases htable with
      | object hentries =>
        obtain ⟨member, -, hmember⟩ := exists_mem_of_forall₂ hentries (mem_of_mem_tableOf hdep)
        cases hmember with
        | member hu => exact ih hu

/-- The type of a compound block is never reserved. -/
theorem compound_of_projectOf {v : Json.Value} {p : Project} {b : Block} {t : String}
    (h : ProjectOf v p) (hb : b ∈ p.graph.blocks) (hkind : b.kind = .compound t) :
    t ∉ [inputType, outputType, codeType] := by
  obtain ⟨-, hgraph, -⟩ := h
  generalize v.field? 0 "graph" = part at hgraph
  cases hgraph with
  | @present u g hgraph =>
    have hblocks := hgraph.blocks
    generalize u.field? 0 "blocks" = part at hblocks
    cases hblocks with
    | present hlist =>
      cases hlist with
      | array hitems =>
        obtain ⟨item, -, hblock⟩ := exists_mem_of_forall₂ hitems hb
        obtain ⟨data?, -, hkindOf⟩ := hblock.kind
        rw [hkind] at hkindOf
        cases hkindOf with
        | compound hinput houtput hcode => simp [hinput, houtput, hcode]

end Document

end BlockCircuit
