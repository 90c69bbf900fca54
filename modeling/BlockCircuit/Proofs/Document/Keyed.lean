import BlockCircuit.Document.Load
import BlockCircuit.Proofs.Json.Yields
import BlockCircuit.Proofs.Project.Tree

/-!
# Tables of loaded projects

A document may write the same type name twice among the dependencies of a circuit. What is loaded
from it has one entry for each type name all the same, since entries are put into tables one by one.

* `Shape.Keyed` — what this means for parts of documents of every shape;
* `keyed_of_ofText` and `keyed_of_ofValue` — it holds of projects loaded from a text and from a
  value.
-/

namespace BlockCircuit

namespace Document

/-- All tables in what a part of a document stands for have one entry for a key. -/
def Shape.Keyed : (shape : Shape) → shape.Value → Prop
  | .text, _ | .pinValue, _ => True
  | .list item, values => ∀ value ∈ values, item.Keyed value
  | .table item, entries =>
      (entries.map Prod.fst).Nodup ∧ ∀ entry ∈ entries, item.Keyed entry.2
  | .record .project, p => Project.Keyed p
  | .record _, _ => True

/-- The same of what a field stands for. -/
def Field.Keyed : (f : Field) → f.Value → Prop
  | .required _ shape, value | .optional _ shape _, value => shape.Keyed value
  | .nullable _ shape, value? => ∀ value ∈ value?, shape.Keyed value

/-- The same of all values of some fields. -/
def Filled.Keyed : (fields : List Field) → Filled fields → Prop
  | [], () => True
  | f :: fields, (value, values) => f.Keyed value ∧ Filled.Keyed fields values

/-- The same of all values of some fields that have been read. -/
def Slots.Keyed : (fields : List Field) → Slots fields → Prop
  | [], () => True
  | f :: fields, (slot, slots) => (∀ value ∈ slot, f.Keyed value) ∧ Slots.Keyed fields slots

theorem keyed_insertEntry {item : Shape} {entries : List (String × item.Value)} (key : String)
    {value : item.Value} (hentries : Shape.Keyed (.table item) entries)
    (hvalue : item.Keyed value) : Shape.Keyed (.table item) (insertEntry entries key value) := by
  refine ⟨nodup_keys_insertEntry key value hentries.1, ?_⟩
  intro entry hentry
  rcases mem_of_mem_insertEntry hentry with rfl | hentry
  · exact hvalue
  · exact hentries.2 entry hentry

/-! ## Records -/

theorem keyed_empty (fields : List Field) : Slots.Keyed fields (Slots.empty fields) := by
  induction fields with
  | nil => trivial
  | cons f fields ih => exact ⟨fun value hvalue => absurd hvalue (Option.not_mem_none value), ih⟩

/-- What a field stands for when it is absent has no table with two entries for a key. -/
theorem keyed_absent (kind : RecordKind) :
    ∀ f ∈ kind.fields, ∀ value ∈ f.absent?, f.Keyed value := by
  cases kind <;> simp [Field.absent?, Field.Keyed, Shape.Keyed]

theorem keyed_complete {fields : List Field} {slots : Slots fields}
    (habsent : ∀ f ∈ fields, ∀ value ∈ f.absent?, f.Keyed value)
    (hslots : Slots.Keyed fields slots) :
    Yields (Filled.Keyed fields) (complete fields slots) := by
  induction fields with
  | nil => exact .ok trivial
  | cons f fields ih =>
    obtain ⟨slot, slots⟩ := slots
    rw [complete]
    split
    · exact .error
    · rename_i value hvalue
      have hkeyed : f.Keyed value := by
        rcases Option.or_eq_some_iff.1 hvalue with hslot | ⟨-, hdefault⟩
        · exact hslots.1 value hslot
        · exact habsent f List.mem_cons_self value hdefault
      refine (ih (fun g hg => habsent g (List.mem_cons_of_mem f hg)) hslots.2).bind ?_
      intro values hvalues
      exact .ok ⟨hkeyed, hvalues⟩

theorem keyed_fillRest {kind : RecordKind} {number : Nat} {fields : List Field}
    (habsent : ∀ f ∈ fields, ∀ value ∈ f.absent?, f.Keyed value) :
    Yields (Filled.Keyed fields) (fillRest kind number fields) := by
  induction fields generalizing number with
  | nil => exact .ok trivial
  | cons f fields ih =>
    rw [fillRest]
    split
    · exact .error
    · rename_i value hvalue
      refine (ih fun g hg => habsent g (List.mem_cons_of_mem f hg)).bind ?_
      intro values hvalues
      exact .ok ⟨habsent f List.mem_cons_self value hvalue, hvalues⟩

/-- A project is put together from a graph and a table of projects. -/
theorem keyed_build {kind : RecordKind} {values : Filled kind.fields}
    (h : Filled.Keyed kind.fields values) :
    Yields (Shape.Keyed (.record kind)) (kind.build values) := by
  cases kind with
  | project =>
    obtain ⟨graph, deps, u⟩ := values
    obtain ⟨-, ⟨hnodup, hdeps⟩, -⟩ := h
    exact .ok (Project.keyed_iff.2 ⟨hnodup, fun t dep hdep => hdeps (t, dep) hdep⟩)
  | _ => exact fun _ _ => trivial

/-! ## Values -/

theorem keyed_fieldOfValue (isNull : Bool) {read : (shape : Shape) → Except Problem shape.Value}
    (hread : ∀ shape, Yields shape.Keyed (read shape)) (f : Field) :
    Yields f.Keyed (f.ofValueWith isNull read) := by
  cases f with
  | required key shape => exact hread shape
  | optional key shape default => exact hread shape
  | nullable key shape =>
    rw [Field.ofValueWith]
    split
    · exact .ok fun value hvalue => absurd hvalue (Option.not_mem_none value)
    · refine (hread shape).map ?_
      intro value hvalue other hother
      cases hother
      exact hvalue

theorem keyed_store (key : String) {read : (f : Field) → Except Problem f.Value}
    (hread : ∀ f, Yields f.Keyed (read f)) {fields : List Field} {slots : Slots fields}
    (hslots : Slots.Keyed fields slots) :
    Yields (Slots.Keyed fields) (store key read fields slots) := by
  induction fields with
  | nil => exact .ok trivial
  | cons f fields ih =>
    obtain ⟨slot, slots⟩ := slots
    unfold store
    split
    · split
      · exact .error
      · refine (hread f).map ?_
        intro value hvalue
        refine ⟨?_, hslots.2⟩
        intro other hother
        cases hother
        exact hvalue
    · refine (ih hslots.2).map ?_
      intro slots' hslots'
      exact ⟨hslots.1, hslots'⟩

mutual

theorem keyed_ofValue (v : Json.Value) (shape : Shape) : Yields shape.Keyed (ofValue v shape) := by
  cases v with
  | array items =>
    cases shape with
    | list item => exact keyed_ofItems items item
    | record kind =>
      rw [ofValue]
      refine (keyed_ofTuple items items.length kind 0 kind.fields (keyed_absent kind)).bind ?_
      exact fun values hvalues => keyed_build hvalues
    | text | table item => exact .error
    | pinValue => exact fun _ _ => trivial
  | object members =>
    cases shape with
    | table item =>
      rw [ofValue]
      exact keyed_ofTable members item [] ⟨List.nodup_nil, fun _ h => absurd h List.not_mem_nil⟩
    | record kind =>
      rw [ofValue]
      refine (keyed_ofMembers members kind.fields _ (keyed_empty _)).bind ?_
      intro slots hslots
      refine (keyed_complete (keyed_absent kind) hslots).bind ?_
      exact fun values hvalues => keyed_build hvalues
    | text | list item => exact .error
    | pinValue => exact fun _ _ => trivial
  | string s =>
    cases shape with
    | text | pinValue => exact fun _ _ => trivial
    | list item | table item | record kind => exact .error
  | null | boolean b | number n =>
    cases shape with
    | pinValue => exact fun _ _ => trivial
    | text | list item | table item | record kind => exact .error
termination_by structural v

theorem keyed_ofItems (items : List Json.Value) (item : Shape) :
    Yields (Shape.Keyed (.list item)) (ofItems items item) := by
  cases items with
  | nil => exact .ok fun _ h => absurd h List.not_mem_nil
  | cons v items =>
    rw [ofItems]
    refine (keyed_ofValue v item).bind ?_
    intro value hvalue
    refine (keyed_ofItems items item).bind ?_
    intro values hvalues
    exact .ok (List.forall_mem_cons.2 ⟨hvalue, hvalues⟩)
termination_by structural items

theorem keyed_ofTable (members : List (String × Json.Value)) (item : Shape)
    (entries : List (String × item.Value)) (h : Shape.Keyed (.table item) entries) :
    Yields (Shape.Keyed (.table item)) (ofTable members item entries) := by
  cases members with
  | nil => exact .ok h
  | cons member members =>
    obtain ⟨key, v⟩ := member
    rw [ofTable]
    refine (keyed_ofValue v item).bind ?_
    intro value hvalue
    exact keyed_ofTable members item _ (keyed_insertEntry key h hvalue)
termination_by structural members

theorem keyed_ofTuple (items : List Json.Value) (length : Nat) (kind : RecordKind) (number : Nat)
    (fields : List Field) (habsent : ∀ f ∈ fields, ∀ value ∈ f.absent?, f.Keyed value) :
    Yields (Filled.Keyed fields) (ofTuple items length kind number fields) := by
  cases items with
  | nil => exact keyed_fillRest habsent
  | cons v items =>
    cases fields with
    | nil => exact .error
    | cons f fields =>
      rw [ofTuple]
      refine (keyed_fieldOfValue (isNull v) (keyed_ofValue v) f).bind ?_
      intro value hvalue
      have habsent' : ∀ g ∈ fields, ∀ value ∈ g.absent?, g.Keyed value :=
        fun g hg => habsent g (List.mem_cons_of_mem f hg)
      refine (keyed_ofTuple items length kind (number + 1) fields habsent').bind ?_
      intro values hvalues
      exact .ok ⟨hvalue, hvalues⟩
termination_by structural items

theorem keyed_ofMembers (members : List (String × Json.Value)) (fields : List Field)
    (slots : Slots fields) (h : Slots.Keyed fields slots) :
    Yields (Slots.Keyed fields) (ofMembers members fields slots) := by
  cases members with
  | nil => exact .ok h
  | cons member members =>
    obtain ⟨key, v⟩ := member
    rw [ofMembers]
    refine (keyed_store key (keyed_fieldOfValue (isNull v) (keyed_ofValue v)) h).bind ?_
    exact fun slots' hslots' => keyed_ofMembers members fields slots' hslots'
termination_by structural members

end

/-! ## Texts -/

open Json (yields_afterColon yields_closed yields_readElements yields_readMembers)

theorem yields_refuseType {α : Type} {holds : α → Prop} (shape : Shape) (text : List Char) :
    Yields holds (refuseType shape text) := by
  unfold refuseType
  split
  · exact .error
  · split
    · exact .error
    · split <;> exact .error

section
variable {read : Reader}
  (hread : ∀ shape text, Yields (fun r => shape.Keyed r.value) (read shape text))
include hread

theorem keyed_fieldOfText (f : Field) (text : List Char) :
    Yields (fun r => f.Keyed r.value) (f.ofTextWith read text) := by
  cases f with
  | required key shape => exact hread shape text
  | optional key shape default => exact hread shape text
  | nullable key shape =>
    dsimp only [Field.ofTextWith]
    split
    · refine (Yields.trivial _).bind ?_
      intro r _
      exact .ok fun value hvalue => absurd hvalue (Option.not_mem_none value)
    · refine (hread shape text).map ?_
      intro r hr value hvalue
      cases hvalue
      exact hr

theorem keyed_storeText (fields : List Field) (key : String) (slots : Slots fields)
    (text : List Char) (hslots : Slots.Keyed fields slots) :
    Yields (fun r => Slots.Keyed fields r.value) (storeText read fields key slots text) := by
  induction fields with
  | nil => exact fun _ _ => trivial
  | cons f fields ih =>
    obtain ⟨slot, slots⟩ := slots
    unfold storeText
    split
    · split
      · exact .error
      · refine (yields_afterColon (keyed_fieldOfText hread f) text).map ?_
        intro r hr
        refine ⟨?_, hslots.2⟩
        intro value hvalue
        cases hvalue
        exact hr
    · refine (ih slots hslots.2).map ?_
      intro r hr
      exact ⟨hslots.1, hr⟩

theorem keyed_tupleText (kind : RecordKind) (number : Nat) {fields : List Field} (text : List Char)
    (habsent : ∀ f ∈ fields, ∀ value ∈ f.absent?, f.Keyed value) :
    Yields (fun r => Filled.Keyed fields r.value) (tupleText read kind number fields text) := by
  induction fields generalizing number text with
  | nil => exact fun _ _ => trivial
  | cons f fields ih =>
    rw [tupleText]
    refine (Yields.trivial _).bind ?_
    rintro (⟨rest, h⟩ | ⟨-, rest, h⟩) -
    · dsimp only
      split
      · exact .error
      · rename_i values hvalues
        exact .ok (keyed_fillRest habsent values hvalues)
    · refine (keyed_fieldOfText hread f rest).bind ?_
      intro r hr
      refine (ih (number + 1) r.rest fun g hg => habsent g (List.mem_cons_of_mem f hg)).bind ?_
      intro rs hrs
      exact .ok ⟨hr, hrs⟩

theorem keyed_membersText {fields : List Field} (text : List Char)
    (habsent : ∀ f ∈ fields, ∀ value ∈ f.absent?, f.Keyed value) :
    Yields (fun r => Filled.Keyed fields r.value) (membersText read fields text) := by
  rw [membersText]
  have hmembers :=
    yields_readMembers (keyed_storeText hread fields) true (keyed_empty fields) text
  refine hmembers.bind ?_
  intro r hr
  split
  · exact .error
  · rename_i values hvalues
    exact .ok (keyed_complete habsent hr values hvalues)

theorem keyed_recordText (kind : RecordKind) (asArray : Bool) (text : List Char) :
    Yields (fun r => Shape.Keyed (.record kind) r.value) (recordText read kind asArray text) := by
  rw [recordText]
  refine .ite ((yields_closed (keyed_tupleText hread kind 0 text (keyed_absent kind))).bind ?build)
    ((yields_closed (keyed_membersText hread text (keyed_absent kind))).bind ?build)
  intro r hr
  dsimp only
  split
  · exact .error
  · rename_i value hvalue
    exact .ok (keyed_build hr value hvalue)

theorem keyed_tableText (item : Shape) (text : List Char) :
    Yields (fun r => Shape.Keyed (.table item) r.value) (tableText read item text) := by
  rw [tableText]
  refine yields_closed (yields_readMembers ?_ true ?_ text)
  · intro key entries text hentries
    refine (yields_afterColon (hread item) text).map ?_
    intro r hr
    exact keyed_insertEntry key hentries hr
  · exact ⟨List.nodup_nil, fun _ h => absurd h List.not_mem_nil⟩

end

theorem keyed_ofText (budget : Nat) (shape : Shape) (text : List Char) :
    Yields (fun r => shape.Keyed r.value) (ofText budget shape text) := by
  induction budget using Nat.strongRecOn generalizing shape text with
  | ind budget ih =>
    unfold ofText
    split
    · exact .error
    · rename_i c rest h
      cases shape with
      | text | pinValue => exact fun _ _ => trivial
      | list item =>
        dsimp only
        split
        · cases budget with
          | zero => exact .error
          | succ budget =>
            have hitems := yields_readElements (ih budget (Nat.lt_succ_self _) item) true rest
            exact (yields_closed hitems).bind fun r hr => .ok hr
        · exact yields_refuseType _ _
      | table item =>
        dsimp only
        split
        · cases budget with
          | zero => exact .error
          | succ budget =>
            have htable := keyed_tableText (ih budget (Nat.lt_succ_self _)) item rest
            exact htable.bind fun r hr => .ok hr
        · exact yields_refuseType _ _
      | record kind =>
        dsimp only
        split
        · cases budget with
          | zero => exact .error
          | succ budget =>
            have hrecord := keyed_recordText (ih budget (Nat.lt_succ_self _)) kind (c = '[') rest
            exact hrecord.bind fun r hr => .ok hr
        · exact yields_refuseType _ _

end Document

namespace Project

/-- A project that is loaded from a text has one entry for each type name. -/
theorem keyed_of_ofText {source : String} {p : Project} (h : ofText source = .ok p) : p.Keyed := by
  have hread := Document.keyed_ofText maxDepth (.record .project) source.toList
  unfold ofText at h
  dsimp only at h
  split at h
  · cases h
  · rename_i r hr
    split at h
    · cases h
    · rename_i q hq
      cases h
      have hvalue : r.value = p := by
        unfold Json.atEnd at hq
        split at hq
        · cases hq
          rfl
        · cases hq
      exact hvalue ▸ hread r hr

/-- A project that is loaded from a value has one entry for each type name. -/
theorem keyed_of_ofValue {value : Json.Value} {p : Project} (h : ofValue value = .ok p) :
    p.Keyed := by
  unfold ofValue at h
  split at h
  · cases h
  · rename_i q hq
    cases h
    exact Document.keyed_ofValue value (.record .project) p hq

end Project

end BlockCircuit
