import BlockCircuit.Proofs.Document.Meaning

/-!
# Which JSON values are projects

`IsProject` says of a JSON value that it is a project: there is a graph with a list of blocks and a
list of wires, every part of these has the fields that it needs, fields have the right types
wherever they are not left out, and the dependencies, if there are any, are projects in turn. Such
values, and no others, stand for a project.

* `IsPin`, `IsPorts`, `IsData`, `IsBlock`, `IsWire`, `IsGraph`, `IsProject` — what the parts of a
  document have to be;
* `exists_kindOf_iff` — only code needs anything of the data of a block;
* `exists_projectOf_iff` — a value stands for a project exactly when it is one;
* `ofValue_accepts_projects` — the loader accepts projects and nothing else, and yields what they
  stand for.
-/

namespace BlockCircuit

namespace Document

/-! ## Parts of a document -/

/-- A field is present and is like this. -/
inductive Required (P : Json.Value → Prop) : Option Json.Value → Prop
  | present {v : Json.Value} : P v → Required P (some v)

/-- A field is like this if it is present. -/
inductive Optional (P : Json.Value → Prop) : Option Json.Value → Prop
  | absent : Optional P none
  | present {v : Json.Value} : P v → Optional P (some v)

/-- A field is like this if it is present and not null. -/
inductive Nullable (P : Json.Value → Prop) : Option Json.Value → Prop
  | absent : Nullable P none
  | null : Nullable P (some .null)
  | present {v : Json.Value} : P v → Nullable P (some v)

/-- An array of such values. -/
inductive IsList (P : Json.Value → Prop) : Json.Value → Prop
  | array {items : List Json.Value} : (∀ v ∈ items, P v) → IsList P (.array items)

/-- An object with free keys and such values. -/
inductive IsTable (P : Json.Value → Prop) : Json.Value → Prop
  | object {members : List (String × Json.Value)} :
      (∀ member ∈ members, P member.2) → IsTable P (.object members)

/-- A string. -/
inductive IsText : Json.Value → Prop
  | string {text : String} : IsText (.string text)

/-- A string or a number. -/
inductive IsPinValue : Json.Value → Prop
  | string {text : String} : IsPinValue (.string text)
  | number {n : Json.Number} : IsPinValue (.number n)

/-- A field is present and not null. -/
def Present (part : Option Json.Value) : Prop :=
  ∃ v, part = some v ∧ v ≠ .null

/-- An end of a wire has a block and a port. -/
structure IsEndpoint (v : Json.Value) : Prop where
  record : v.IsRecord ["block", "port"]
  block : Required IsText (v.field? 0 "block")
  port : Required IsText (v.field? 1 "port")

/-- A wire has two ends. -/
structure IsWire (v : Json.Value) : Prop where
  record : v.IsRecord ["source", "target"]
  source : Required IsEndpoint (v.field? 0 "source")
  target : Required IsEndpoint (v.field? 1 "target")

/-- A pin has a value, and can have a name. -/
structure IsPin (v : Json.Value) : Prop where
  record : v.IsRecord ["name", "value"]
  name : Nullable IsText (v.field? 0 "name")
  value : Required IsPinValue (v.field? 1 "value")

/-- Ports are two lists of names, each of which can be left out. -/
structure IsPorts (v : Json.Value) : Prop where
  record : v.IsRecord ["in", "out"]
  inputs : Optional (IsList IsText) (v.field? 0 "in")
  outputs : Optional (IsList IsText) (v.field? 1 "out")

/-- Data can have a pin, ports and a text, whatever the type of the block. -/
structure IsData (v : Json.Value) : Prop where
  record : v.IsRecord ["pin", "ports", "code"]
  pin : Nullable IsPin (v.field? 0 "pin")
  ports : Nullable IsPorts (v.field? 1 "ports")
  code : Nullable IsText (v.field? 2 "code")

/-- A block has an id and a type, and can have data. If it is code, its data have ports and a
text. -/
structure IsBlock (v : Json.Value) : Prop where
  record : v.IsRecord ["id", "type", "data"]
  id : Required IsText (v.field? 0 "id")
  type : Required IsText (v.field? 1 "type")
  data : Nullable IsData (v.field? 2 "data")
  code : v.field? 1 "type" = some (.string codeType) →
    ∃ u, v.field? 2 "data" = some u ∧ Present (u.field? 1 "ports") ∧ Present (u.field? 2 "code")

/-- A graph has blocks and wires. -/
structure IsGraph (v : Json.Value) : Prop where
  record : v.IsRecord ["blocks", "wires"]
  blocks : Required (IsList IsBlock) (v.field? 0 "blocks")
  wires : Required (IsList IsWire) (v.field? 1 "wires")

/-- A project has a graph, and can have dependencies, which are projects in turn. -/
inductive IsProject : Json.Value → Prop
  | record {v : Json.Value} :
      v.IsRecord ["graph", "deps"] → Required IsGraph (v.field? 0 "graph") →
      Optional (IsTable IsProject) (v.field? 1 "deps") → IsProject v

/-! ## Values that stand for something -/

section
variable {α : Type} {R : Json.Value → α → Prop} {P : Json.Value → Prop}
  {part : Option Json.Value} {v : Json.Value}

theorem exists_requiredOf_iff (h : ∀ v, (∃ a, R v a) ↔ P v) :
    (∃ a, RequiredOf R part a) ↔ Required P part := by
  constructor
  · rintro ⟨a, hpart⟩
    cases hpart with
    | present hv => exact .present ((h _).1 ⟨a, hv⟩)
  · intro hpart
    cases hpart with
    | present hv =>
      obtain ⟨a, ha⟩ := (h _).2 hv
      exact ⟨a, .present ha⟩

theorem exists_optionalOf_iff {default : α} (h : ∀ v ∈ part, (∃ a, R v a) ↔ P v) :
    (∃ a, OptionalOf R default part a) ↔ Optional P part := by
  constructor
  · rintro ⟨a, hpart⟩
    cases hpart with
    | absent => exact .absent
    | present hv => exact .present ((h _ rfl).1 ⟨a, hv⟩)
  · intro hpart
    cases hpart with
    | absent => exact ⟨default, .absent⟩
    | present hv =>
      obtain ⟨a, ha⟩ := (h _ rfl).2 hv
      exact ⟨a, .present ha⟩

theorem exists_nullableOf_iff (h : ∀ v, (∃ a, R v a) ↔ P v) :
    (∃ a?, NullableOf R part a?) ↔ Nullable P part := by
  constructor
  · rintro ⟨a?, hpart⟩
    cases hpart with
    | absent => exact .absent
    | null => exact .null
    | present hv => exact .present ((h _).1 ⟨_, hv⟩)
  · intro hpart
    cases hpart with
    | absent => exact ⟨none, .absent⟩
    | null => exact ⟨none, .null⟩
    | present hv =>
      obtain ⟨a, ha⟩ := (h _).2 hv
      exact ⟨some a, .present ha⟩

theorem exists_forall₂_iff {β γ : Type} {R : β → γ → Prop} {P : β → Prop} {l : List β}
    (h : ∀ x ∈ l, (∃ y, R x y) ↔ P x) : (∃ l', List.Forall₂ R l l') ↔ ∀ x ∈ l, P x := by
  induction l with
  | nil => exact iff_of_true ⟨[], .nil⟩ fun _ hx => absurd hx List.not_mem_nil
  | cons x l ih =>
    rw [List.forall_mem_cons] at h
    rw [List.forall_mem_cons, ← h.1, ← ih h.2]
    constructor
    · rintro ⟨l', hl⟩
      cases hl with
      | cons hx hl => exact ⟨⟨_, hx⟩, _, hl⟩
    · rintro ⟨⟨y, hy⟩, l', hl⟩
      exact ⟨y :: l', .cons hy hl⟩

theorem exists_listOf_iff (h : ∀ v, (∃ a, R v a) ↔ P v) : (∃ l, ListOf R v l) ↔ IsList P v := by
  constructor
  · rintro ⟨l, hl⟩
    cases hl with
    | array hl => exact .array ((exists_forall₂_iff fun v _ => h v).1 ⟨l, hl⟩)
  · intro hv
    cases hv with
    | array hv =>
      obtain ⟨l, hl⟩ := (exists_forall₂_iff fun v _ => h v).2 hv
      exact ⟨l, .array hl⟩

theorem exists_entryOf_iff {member : String × Json.Value} :
    (∃ entry, EntryOf R member entry) ↔ ∃ a, R member.2 a := by
  constructor
  · rintro ⟨entry, h⟩
    cases h with
    | member ha => exact ⟨_, ha⟩
  · rintro ⟨a, ha⟩
    exact ⟨(member.1, a), .member ha⟩

/-- For tables it is enough to know this of the values in them, which are smaller. -/
theorem exists_tableOf_iff (h : ∀ u, sizeOf u < sizeOf v → ((∃ a, R u a) ↔ P u)) :
    (∃ table, TableOf R v table) ↔ IsTable P v := by
  constructor
  · rintro ⟨table, htable⟩
    cases htable with
    | object hentries =>
      refine .object ((exists_forall₂_iff fun member hmember => ?_).1 ⟨_, hentries⟩)
      exact exists_entryOf_iff.trans (h member.2 (sizeOf_lt_of_mem_members hmember))
  · intro hv
    cases hv with
    | object hv =>
      obtain ⟨entries, hentries⟩ := (exists_forall₂_iff fun member hmember =>
        exists_entryOf_iff.trans (h member.2 (sizeOf_lt_of_mem_members hmember))).2 hv
      exact ⟨_, .object hentries⟩

/-- A nullable field stands for something exactly when it is present and not null. -/
theorem NullableOf.isSome_iff {a? : Option α} (hnull : ∀ a, ¬R .null a)
    (h : NullableOf R part a?) : a?.isSome ↔ Present part := by
  cases h with
  | absent =>
    refine iff_of_false (fun h => by cases h) ?_
    rintro ⟨v, hv, -⟩
    cases hv
  | null =>
    refine iff_of_false (fun h => by cases h) ?_
    rintro ⟨v, hv, hne⟩
    cases hv
    exact hne rfl
  | @present v a ha =>
    refine iff_of_true rfl ⟨v, rfl, ?_⟩
    rintro rfl
    exact hnull a ha

end

theorem exists_textOf_iff (v : Json.Value) : (∃ text, TextOf v text) ↔ IsText v := by
  constructor
  · rintro ⟨text, h⟩
    cases h
    exact .string
  · intro h
    cases h
    exact ⟨_, .string⟩

theorem exists_pinValueOf_iff (v : Json.Value) : (∃ text, PinValueOf v text) ↔ IsPinValue v := by
  constructor
  · rintro ⟨text, h⟩
    cases h with
    | string => exact .string
    | number => exact .number
  · intro h
    cases h with
    | string => exact ⟨_, .string⟩
    | number => exact ⟨_, .number⟩

theorem exists_endpointOf_iff (v : Json.Value) : (∃ e, EndpointOf v e) ↔ IsEndpoint v := by
  constructor
  · rintro ⟨e, h⟩
    exact ⟨h.record, (exists_requiredOf_iff exists_textOf_iff).1 ⟨_, h.block⟩,
      (exists_requiredOf_iff exists_textOf_iff).1 ⟨_, h.port⟩⟩
  · intro h
    obtain ⟨b, hb⟩ := (exists_requiredOf_iff exists_textOf_iff).2 h.block
    obtain ⟨p, hp⟩ := (exists_requiredOf_iff exists_textOf_iff).2 h.port
    exact ⟨⟨b, p⟩, h.record, hb, hp⟩

theorem exists_wireOf_iff (v : Json.Value) : (∃ w, WireOf v w) ↔ IsWire v := by
  constructor
  · rintro ⟨w, h⟩
    exact ⟨h.record, (exists_requiredOf_iff exists_endpointOf_iff).1 ⟨_, h.source⟩,
      (exists_requiredOf_iff exists_endpointOf_iff).1 ⟨_, h.target⟩⟩
  · intro h
    obtain ⟨source, hsource⟩ := (exists_requiredOf_iff exists_endpointOf_iff).2 h.source
    obtain ⟨target, htarget⟩ := (exists_requiredOf_iff exists_endpointOf_iff).2 h.target
    exact ⟨⟨source, target⟩, h.record, hsource, htarget⟩

theorem exists_pinOf_iff (v : Json.Value) : (∃ pin, PinOf v pin) ↔ IsPin v := by
  constructor
  · rintro ⟨pin, h⟩
    exact ⟨h.record, (exists_nullableOf_iff exists_textOf_iff).1 ⟨_, h.name⟩,
      (exists_requiredOf_iff exists_pinValueOf_iff).1 ⟨_, h.value⟩⟩
  · intro h
    obtain ⟨name, hname⟩ := (exists_nullableOf_iff exists_textOf_iff).2 h.name
    obtain ⟨value, hvalue⟩ := (exists_requiredOf_iff exists_pinValueOf_iff).2 h.value
    exact ⟨⟨name, value⟩, h.record, hname, hvalue⟩

theorem exists_portsOf_iff (v : Json.Value) : (∃ ports, PortsOf v ports) ↔ IsPorts v := by
  have hnames {part : Option Json.Value} :
      (∃ names, OptionalOf (ListOf TextOf) [] part names) ↔ Optional (IsList IsText) part :=
    exists_optionalOf_iff fun _ _ => exists_listOf_iff exists_textOf_iff
  constructor
  · rintro ⟨ports, h⟩
    exact ⟨h.record, hnames.1 ⟨_, h.inputs⟩, hnames.1 ⟨_, h.outputs⟩⟩
  · intro h
    obtain ⟨inputs, hinputs⟩ := hnames.2 h.inputs
    obtain ⟨outputs, houtputs⟩ := hnames.2 h.outputs
    exact ⟨⟨inputs, outputs⟩, h.record, hinputs, houtputs⟩

theorem exists_dataOf_iff (v : Json.Value) : (∃ data, DataOf v data) ↔ IsData v := by
  constructor
  · rintro ⟨data, h⟩
    exact ⟨h.record, (exists_nullableOf_iff exists_pinOf_iff).1 ⟨_, h.pin⟩,
      (exists_nullableOf_iff exists_portsOf_iff).1 ⟨_, h.ports⟩,
      (exists_nullableOf_iff exists_textOf_iff).1 ⟨_, h.code⟩⟩
  · intro h
    obtain ⟨pin, hpin⟩ := (exists_nullableOf_iff exists_pinOf_iff).2 h.pin
    obtain ⟨ports, hports⟩ := (exists_nullableOf_iff exists_portsOf_iff).2 h.ports
    obtain ⟨text, htext⟩ := (exists_nullableOf_iff exists_textOf_iff).2 h.code
    exact ⟨⟨pin, ports, text⟩, h.record, hpin, hports, htext⟩

/-! ## Blocks -/

/-- Only code needs anything of the data of a block: ports and a text. -/
theorem exists_kindOf_iff {data : BlockData} {t : String} :
    (∃ kind, kind.typeName = t ∧ KindOf data kind) ↔
      (t = codeType → data.ports.isSome ∧ data.code.isSome) := by
  have hinput : inputType ≠ codeType := by decide
  have houtput : outputType ≠ codeType := by decide
  constructor
  · rintro ⟨kind, rfl, hkind⟩ htype
    cases hkind with
    | input => exact absurd htype hinput
    | output => exact absurd htype houtput
    | code hports htext => rw [hports, htext]; exact ⟨rfl, rfl⟩
    | compound _ _ hcode => exact absurd htype hcode
  · intro h
    by_cases hin : t = inputType
    · exact ⟨.input data.pin, hin.symm, .input⟩
    by_cases hout : t = outputType
    · exact ⟨.output data.pin, hout.symm, .output⟩
    by_cases hcode : t = codeType
    · obtain ⟨hports, htext⟩ := h hcode
      obtain ⟨ports, hports⟩ := Option.isSome_iff_exists.1 hports
      obtain ⟨text, htext⟩ := Option.isSome_iff_exists.1 htext
      exact ⟨.code ports text, hcode.symm, .code hports htext⟩
    · exact ⟨.compound t, rfl, .compound hin hout hcode⟩

/-- The data of a block have ports and a text exactly when the fields for them are there and are not
null. -/
theorem isSome_data_iff {part : Option Json.Value} {data? : Option BlockData}
    (h : NullableOf DataOf part data?) :
    ((data?.getD {}).ports.isSome ∧ (data?.getD {}).code.isSome) ↔
      ∃ u, part = some u ∧ Present (u.field? 1 "ports") ∧ Present (u.field? 2 "code") := by
  cases h with
  | absent =>
    refine iff_of_false (fun h => by cases h.1) ?_
    rintro ⟨u, hu, -⟩
    cases hu
  | null =>
    refine iff_of_false (fun h => by cases h.1) ?_
    rintro ⟨u, hu, ⟨w, hw, -⟩, -⟩
    cases hu
    cases hw
  | @present u data hdata =>
    have hports := hdata.ports.isSome_iff fun _ h => h.record
    have htext := hdata.code.isSome_iff fun _ h => by cases h
    show data.ports.isSome ∧ data.code.isSome ↔ _
    rw [hports, htext]
    simp

theorem requiredOf_textOf_iff {part : Option Json.Value} {text : String} :
    RequiredOf TextOf part text ↔ part = some (.string text) := by
  constructor
  · intro h
    cases h with
    | present h =>
      cases h
      rfl
  · rintro rfl
    exact .present .string

theorem exists_blockOf_iff (v : Json.Value) : (∃ b, BlockOf v b) ↔ IsBlock v := by
  constructor
  · rintro ⟨b, h⟩
    obtain ⟨data?, hdata, hkind⟩ := h.kind
    refine ⟨h.record, (exists_requiredOf_iff exists_textOf_iff).1 ⟨_, h.id⟩,
      (exists_requiredOf_iff exists_textOf_iff).1 ⟨_, h.type⟩,
      (exists_nullableOf_iff exists_dataOf_iff).1 ⟨_, hdata⟩, fun hcode => ?_⟩
    have htype : b.typeName = codeType := by
      have hsome := (requiredOf_textOf_iff.1 h.type).symm.trans hcode
      injections
    exact (isSome_data_iff hdata).1 (exists_kindOf_iff.1 ⟨b.kind, rfl, hkind⟩ htype)
  · intro h
    obtain ⟨id, hid⟩ := (exists_requiredOf_iff exists_textOf_iff).2 h.id
    obtain ⟨t, ht⟩ := (exists_requiredOf_iff exists_textOf_iff).2 h.type
    obtain ⟨data?, hdata⟩ := (exists_nullableOf_iff exists_dataOf_iff).2 h.data
    have hcode : t = codeType →
        (data?.getD {}).ports.isSome ∧ (data?.getD {}).code.isSome := by
      rintro rfl
      exact (isSome_data_iff hdata).2 (h.code (requiredOf_textOf_iff.1 ht))
    obtain ⟨kind, rfl, hkind⟩ := exists_kindOf_iff.2 hcode
    exact ⟨⟨id, kind⟩, h.record, hid, ht, data?, hdata, hkind⟩

/-! ## Projects -/

theorem exists_graphOf_iff (v : Json.Value) : (∃ g, GraphOf v g) ↔ IsGraph v := by
  have hblocks := fun v => exists_listOf_iff (v := v) exists_blockOf_iff
  have hwires := fun v => exists_listOf_iff (v := v) exists_wireOf_iff
  constructor
  · rintro ⟨g, h⟩
    exact ⟨h.record, (exists_requiredOf_iff hblocks).1 ⟨_, h.blocks⟩,
      (exists_requiredOf_iff hwires).1 ⟨_, h.wires⟩⟩
  · intro h
    obtain ⟨blocks, hb⟩ := (exists_requiredOf_iff hblocks).2 h.blocks
    obtain ⟨wires, hw⟩ := (exists_requiredOf_iff hwires).2 h.wires
    exact ⟨⟨blocks, wires⟩, h.record, hb, hw⟩

/-- A value stands for a project exactly when it is one. -/
theorem exists_projectOf_iff (v : Json.Value) : (∃ p, ProjectOf v p) ↔ IsProject v := by
  induction v using Json.Value.strongInduction with
  | step v ih =>
    have hdeps : (∃ deps, OptionalOf (TableOf ProjectOf) [] (v.field? 1 "deps") deps) ↔
        Optional (IsTable IsProject) (v.field? 1 "deps") := by
      refine exists_optionalOf_iff fun u hu => exists_tableOf_iff fun w hw => ih w ?_
      exact Nat.lt_trans hw (sizeOf_lt_of_field? hu)
    constructor
    · rintro ⟨p, h⟩
      obtain ⟨hrecord, hgraph, htable⟩ := h
      exact .record hrecord ((exists_requiredOf_iff exists_graphOf_iff).1 ⟨_, hgraph⟩)
        (hdeps.1 ⟨_, htable⟩)
    · rintro ⟨hrecord, hgraph, htable⟩
      obtain ⟨g, hg⟩ := (exists_requiredOf_iff exists_graphOf_iff).2 hgraph
      obtain ⟨deps, hd⟩ := hdeps.2 htable
      exact ⟨⟨g, deps⟩, .record hrecord hg hd⟩

/-- The keys of the dependencies, as the document has them. -/
def depKeys (v : Json.Value) : List String :=
  match v.field? 1 "deps" with
  | some (.object members) => members.map Prod.fst
  | _ => []

theorem keys_of_projectOf {v : Json.Value} {p : Project} (h : ProjectOf v p) :
    p.deps.map Prod.fst = (depKeys v).eraseDups := by
  obtain ⟨-, -, htable⟩ := h
  rw [depKeys]
  generalize v.field? 1 "deps" = part at htable
  cases htable with
  | absent => rfl
  | present htable =>
    cases htable with
    | object hentries => rw [keys_tableOf, ← keys_of_forall₂ hentries]

end Document

open Document

theorem Project.ofValue_eq_ok_iff {v : Json.Value} {p : Project} :
    Project.ofValue v = .ok p ↔ ProjectOf v p := by
  rw [← reads_project_iff, Reads, Project.ofValue]
  split
  · rename_i problem h
    rw [h]
    exact iff_of_false (fun h => by cases h) (fun h => by cases h)
  · rename_i q h
    rw [h, Except.ok.injEq, Except.ok.injEq]

/-- The loader accepts the values that are projects, and yields what they stand for: the same
blocks, each of the type that the document gives it and with the pin, or the ports and the text,
that its data hold; the same wires; and the same dependencies, under the keys of the document in
their order. The type of a compound block is none of those that are reserved. -/
theorem Project.ofValue_accepts_projects (v : Json.Value) :
    ((∃ p, Project.ofValue v = .ok p) ↔ IsProject v) ∧
      (∀ p, Project.ofValue v = .ok p ↔ ProjectOf v p) ∧
      ∀ p, Project.ofValue v = .ok p →
        p.deps.map Prod.fst = (depKeys v).eraseDups ∧
          ∀ path q, p.Reaches path q → ∀ b ∈ q.graph.blocks, ∀ t, b.kind = .compound t →
            t ∉ [inputType, outputType, codeType] := by
  refine ⟨?_, fun p => Project.ofValue_eq_ok_iff, fun p hp => ⟨?_, ?_⟩⟩
  · rw [← exists_projectOf_iff]
    exact exists_congr fun p => Project.ofValue_eq_ok_iff
  · exact keys_of_projectOf (Project.ofValue_eq_ok_iff.1 hp)
  · intro path q hq b hb t hkind
    obtain ⟨u, hu⟩ := exists_projectOf_of_reaches (Project.ofValue_eq_ok_iff.1 hp) hq
    exact compound_of_projectOf hu hb hkind

/-- A document with a block that is written as an array, and with a dependency. -/
theorem Project.ofValue_accepts_nested :
    let v : Json.Value := .object [
      ("graph", .array [.array [.array [.string "a", .string "t"]], .array []]),
      ("deps", .object [("t", .object [("graph", .array [.array [], .array []])])])]
    IsProject v ∧ ∃ p, Project.ofValue v = .ok p ∧ p.graph.blocks = [.compound "a" "t"] ∧
      p.deps.map Prod.fst = ["t"] := by
  intro v
  have hload : Project.ofValue v = .ok ⟨⟨[.compound "a" "t"], []⟩, [("t", .ofGraph {})]⟩ := rfl
  obtain ⟨haccepts, -, hparts⟩ := Project.ofValue_accepts_projects v
  exact ⟨haccepts.1 ⟨_, hload⟩, _, hload, rfl, (hparts _ hload).1⟩

end BlockCircuit
