import BlockCircuit.Proofs.Document.Accepted
import Mathlib.Data.List.Nodup
import Mathlib.Data.List.Perm.Basic
import Mathlib.Logic.Relation

/-!
# Documents that are spelled in another way

A record leaves its author some freedom: keys may come in any order, keys that the record does not
define may be there or not, and the record may be the array of its fields instead, in which fields that
are absent have their default in their place or are left out at the end. `Respells` is one such change,
to one record anywhere in a document. None of them changes what the document stands for, so neither
does any number of them.

* `Listed` — the arrays in which a record can be written;
* `Respells` — one change to one record, at any depth;
* `reads_respelled` — it changes nothing for a value of any shape;
* `Project.ofValue_respelled` — any number of changes leaves the project as it is.
-/

namespace BlockCircuit

/-! ## Members in another order, and other members -/

section
variable {members members' front back : List (String × Json.Value)} {key other : String} {v v' : Json.Value}

/-- A key that is there once at most has the same value in any order of the members. -/
theorem lookup_eq_of_perm (h : members.Perm members')
    (hcount : (members.map Prod.fst).count key ≤ 1) : members.lookup key = members'.lookup key := by
  induction h with
  | nil => rfl
  | @cons member before after _ ih =>
    obtain ⟨k, v⟩ := member
    rw [lookup_cons_eq, lookup_cons_eq]
    by_cases hk : key = k
    · rw [if_pos hk, if_pos hk]
    · rw [List.map_cons, List.count_cons_of_ne (Ne.symm hk)] at hcount
      rw [if_neg hk, if_neg hk, ih hcount]
  | swap first second members =>
    obtain ⟨k, v⟩ := first
    obtain ⟨k', v'⟩ := second
    simp only [lookup_cons_eq]
    by_cases hk : key = k
    · by_cases hk' : key = k'
      · -- Both members would have this key.
        simp [← hk, ← hk'] at hcount
      · rw [if_neg hk', if_pos hk, if_pos hk]
    · rw [if_neg hk, if_neg hk]
  | trans h _ ih ih' =>
    rw [ih hcount]
    apply ih'
    rwa [← (h.map Prod.fst).count_eq]

/-- Another value for one member is seen under its key or not at all. -/
theorem lookup_replaced (front back : List (String × Json.Value)) (key other : String)
    (v v' : Json.Value) :
    (front ++ (key, v) :: back).lookup other = (front ++ (key, v') :: back).lookup other ∨
      other = key ∧ (front ++ (key, v) :: back).lookup other = some v ∧
        (front ++ (key, v') :: back).lookup other = some v' := by
  induction front with
  | nil =>
    simp only [List.nil_append, lookup_cons_eq]
    by_cases h : other = key
    · simp [h]
    · simp [h]
  | cons member front ih =>
    obtain ⟨k, u⟩ := member
    simp only [List.cons_append, lookup_cons_eq]
    by_cases h : other = k
    · simp [h]
    · simpa [h] using ih

theorem map_fst_replaced :
    (front ++ (key, v') :: back).map Prod.fst = (front ++ (key, v) :: back).map Prod.fst := by
  simp

end

namespace Json.Value

@[simp]
theorem field?_object (members : List (String × Json.Value)) (place : Nat) (key : String) :
    (object members).field? place key = members.lookup key := rfl

@[simp]
theorem field?_array (items : List Json.Value) (place : Nat) (key : String) :
    (array items).field? place key = items[place]? := rfl

end Json.Value

namespace Document

/-! ## Spellings of a record -/

/-- The shape of what stands in a field. -/
def Field.shape : Field → Shape
  | required _ shape => shape
  | optional _ shape _ => shape
  | nullable _ shape => shape

/-- How the default of a field is written, if it has one: null, an empty list, or an empty table. -/
def Field.blank? : Field → Option Json.Value
  | nullable _ _ => some .null
  | optional _ (.list _) _ => some (.array [])
  | optional _ (.table _) _ => some (.object [])
  | _ => none

/-- The items of the arrays that stand for a record with these members: each field in order, those that
are absent with their default, or left out if no others follow. -/
inductive Listed (members : List (String × Json.Value)) : List Field → List Json.Value → Prop
  | present {f : Field} {fields : List Field} {v : Json.Value} {items : List Json.Value} :
      members.lookup f.key = some v → Listed members fields items →
      Listed members (f :: fields) (v :: items)
  | filled {f : Field} {fields : List Field} {v : Json.Value} {items : List Json.Value} :
      members.lookup f.key = none → f.blank? = some v → Listed members fields items →
      Listed members (f :: fields) (v :: items)
  | rest {fields : List Field} :
      (∀ f ∈ fields, members.lookup f.key = none) → Listed members fields []

/-- One record is spelled in another way, at any depth of a value of some shape. -/
inductive Respells : Shape → Json.Value → Json.Value → Prop
  /-- The keys come in another order. -/
  | order {kind : RecordKind} {members members' : List (String × Json.Value)} :
      members.Perm members' → Respells (.record kind) (.object members) (.object members')
  /-- There is another key, which the record does not define. -/
  | add {kind : RecordKind} {key : String} {v : Json.Value} {members : List (String × Json.Value)} :
      key ∉ kind.fields.map Field.key →
      Respells (.record kind) (.object members) (.object ((key, v) :: members))
  /-- A key that the record does not define is left out. -/
  | drop {kind : RecordKind} {key : String} {v : Json.Value} {members : List (String × Json.Value)} :
      key ∉ kind.fields.map Field.key →
      Respells (.record kind) (.object ((key, v) :: members)) (.object members)
  /-- The record is the array of its fields. -/
  | listed {kind : RecordKind} {members : List (String × Json.Value)} {items : List Json.Value} :
      Listed members kind.fields items → Respells (.record kind) (.object members) (.array items)
  /-- Something changes in a field of a record that is an object. -/
  | member {kind : RecordKind} {f : Field} {v v' : Json.Value}
      (front back : List (String × Json.Value)) :
      f ∈ kind.fields → Respells f.shape v v' →
      Respells (.record kind) (.object (front ++ (f.key, v) :: back))
        (.object (front ++ (f.key, v') :: back))
  /-- Something changes in a field of a record that is an array. -/
  | place {kind : RecordKind} {f : Field} {v v' : Json.Value} (front back : List Json.Value) :
      kind.fields[front.length]? = some f → Respells f.shape v v' →
      Respells (.record kind) (.array (front ++ v :: back)) (.array (front ++ v' :: back))
  /-- Something changes in an item of a list. -/
  | item {item : Shape} {v v' : Json.Value} (front back : List Json.Value) :
      Respells item v v' →
      Respells (.list item) (.array (front ++ v :: back)) (.array (front ++ v' :: back))
  /-- Something changes in an entry of a table. -/
  | entry {item : Shape} {key : String} {v v' : Json.Value}
      (front back : List (String × Json.Value)) :
      Respells item v v' →
      Respells (.table item) (.object (front ++ (key, v) :: back))
        (.object (front ++ (key, v') :: back))

/-! ## One field -/

section
variable {f : Field} {a : f.Value} {v v' : Json.Value}

/-- Every default has a spelling that is read as this default. -/
theorem reads_blank {kind : RecordKind} (hf : f ∈ kind.fields) (hblank : f.blank? = some v)
    (h : f.Reads none a) : f.Reads (some v) a := by
  rw [Field.reads_none_iff] at h
  rw [Field.reads_some_iff]
  cases kind with
  | project =>
    simp only [RecordKind.fields, List.mem_cons, List.not_mem_nil, or_false] at hf
    rcases hf with rfl | rfl
    · cases hblank
    · cases hblank
      cases h
      rfl
  | graph | wire | endpoint =>
    simp only [RecordKind.fields, List.mem_cons, List.not_mem_nil, or_false] at hf
    rcases hf with rfl | rfl <;> cases hblank
  | block | blockData =>
    simp only [RecordKind.fields, List.mem_cons, List.not_mem_nil, or_false] at hf
    rcases hf with rfl | rfl | rfl <;> cases hblank <;> cases h <;> rfl
  | pin | ports =>
    simp only [RecordKind.fields, List.mem_cons, List.not_mem_nil, or_false] at hf
    rcases hf with rfl | rfl <;> cases hblank <;> cases h <;> rfl

/-- A field is read from a value as before if the value is read as before. -/
theorem reads_field_imp (hnull : v ≠ .null)
    (h : ∀ a : f.shape.Value, Reads f.shape v a → Reads f.shape v' a)
    (hread : f.Reads (some v) a) : f.Reads (some v') a := by
  cases f with
  | required key shape =>
    cases hread with
    | present hv => exact RequiredOf.present (h _ hv)
  | optional key shape default =>
    cases hread with
    | present hv => exact OptionalOf.present (h _ hv)
  | nullable key shape =>
    cases hread with
    | null => exact absurd rfl hnull
    | present hv => exact NullableOf.present (h _ hv)

end

/-! ## One record -/

section
variable {kind : RecordKind} {v v' : Json.Value} {members members' : List (String × Json.Value)}

/-- Fields are read as before if each of them is. -/
theorem FieldsRead.imp {place : Nat} {fields : List Field} {values : Filled fields}
    (h : ∀ (i : Nat) (f : Field), fields[i]? = some f → ∀ a : f.Value,
      f.Reads (v.field? (place + i) f.key) a → f.Reads (v'.field? (place + i) f.key) a)
    (hread : FieldsRead v place fields values) : FieldsRead v' place fields values := by
  induction fields generalizing place with
  | nil => exact hread
  | cons f fields ih =>
    obtain ⟨value, values⟩ := values
    obtain ⟨hvalue, hvalues⟩ := hread
    refine ⟨h 0 f rfl value hvalue, ih (fun i g hg a ha => ?_) hvalues⟩
    have hplace : place + 1 + i = place + (i + 1) := by omega
    rw [hplace] at ha ⊢
    exact h (i + 1) g hg a ha

/-- A record is read as before if it is still a record and each of its fields is read as before. -/
theorem reads_record_imp {a : kind.Value}
    (hrecord : v.IsRecord (kind.fields.map Field.key) → v'.IsRecord (kind.fields.map Field.key))
    (hfields : v.IsRecord (kind.fields.map Field.key) → ∀ (i : Nat) (f : Field),
      kind.fields[i]? = some f → ∀ b : f.Value, f.Reads (v.field? i f.key) b → f.Reads (v'.field? i f.key) b)
    (h : Reads (.record kind) v a) : Reads (.record kind) v' a := by
  obtain ⟨hkeys, values, hvalues, hbuild⟩ := reads_record_iff.1 h
  refine reads_record_iff.2 ⟨hrecord hkeys, values, hvalues.imp ?_, hbuild⟩
  intro i f hf b hb
  rw [Nat.zero_add] at hb ⊢
  exact hfields hkeys i f hf b hb

/-- With the keys in another order, a record is what it was. -/
theorem reads_record_perm {a : kind.Value} (hperm : members.Perm members')
    (h : Reads (.record kind) (.object members) a) : Reads (.record kind) (.object members') a := by
  refine reads_record_imp ?_ ?_ h
  · intro hkeys key hkey
    rw [← (hperm.map Prod.fst).count_eq]
    exact hkeys key hkey
  · intro hkeys i f hf b hb
    have hcount := hkeys f.key (List.mem_map_of_mem (List.mem_of_getElem? hf))
    have hlookup : members.lookup f.key = members'.lookup f.key := lookup_eq_of_perm hperm hcount
    rw [Json.Value.field?_object] at hb ⊢
    rwa [← hlookup]

/-- A key that a record does not define makes no difference to it. -/
theorem reads_record_cons_iff {key : String} {a : kind.Value}
    (hkey : key ∉ kind.fields.map Field.key) :
    Reads (.record kind) (.object ((key, v) :: members)) a ↔
      Reads (.record kind) (.object members) a := by
  have hne {other : String} (hother : other ∈ kind.fields.map Field.key) : other ≠ key := by
    rintro rfl
    exact hkey hother
  have hrecord : Json.Value.IsRecord (kind.fields.map Field.key) (.object ((key, v) :: members)) ↔
      Json.Value.IsRecord (kind.fields.map Field.key) (.object members) := by
    refine forall₂_congr fun other hother => ?_
    rw [List.map_cons, List.count_cons_of_ne (hne hother).symm]
  have hfield {i : Nat} {f : Field} (hf : kind.fields[i]? = some f) :
      (Json.Value.object ((key, v) :: members)).field? i f.key =
        (Json.Value.object members).field? i f.key := by
    have hmem : f.key ∈ kind.fields.map Field.key :=
      List.mem_map_of_mem (List.mem_of_getElem? hf)
    rw [Json.Value.field?_object, Json.Value.field?_object, lookup_cons_eq, if_neg (hne hmem)]
  constructor
  · intro h
    refine reads_record_imp hrecord.1 ?_ h
    intro _ i f hf b hb
    rwa [← hfield hf]
  · intro h
    refine reads_record_imp hrecord.2 ?_ h
    intro _ i f hf b hb
    rwa [hfield hf]

theorem Listed.length_le {fields : List Field} {items : List Json.Value}
    (h : Listed members fields items) : items.length ≤ fields.length := by
  induction h with
  | present _ _ ih | filled _ _ _ ih => simpa using ih
  | rest => exact Nat.zero_le _

/-- In the array of a record each field has the value that it has in the object, or is blank in both
ways: it is absent from the object, and from the array too or written as its default. -/
theorem Listed.field {fields : List Field} {items : List Json.Value} {i : Nat} {f : Field}
    (h : Listed members fields items) (hf : fields[i]? = some f) :
    items[i]? = members.lookup f.key ∨
      members.lookup f.key = none ∧ ∃ v, f.blank? = some v ∧ items[i]? = some v := by
  induction h generalizing i with
  | present hlookup _ ih =>
    cases i with
    | zero =>
      cases hf
      exact .inl hlookup.symm
    | succ i => exact ih hf
  | filled hlookup hblank _ ih =>
    cases i with
    | zero =>
      cases hf
      exact .inr ⟨hlookup, _, hblank, rfl⟩
    | succ i => exact ih hf
  | rest habsent =>
    left
    rw [habsent f (List.mem_of_getElem? hf)]
    rfl

/-- The array of the fields of a record is read as the object is. -/
theorem reads_record_listed {items : List Json.Value} {a : kind.Value}
    (hlisted : Listed members kind.fields items)
    (h : Reads (.record kind) (.object members) a) : Reads (.record kind) (.array items) a := by
  refine reads_record_imp ?_ ?_ h
  · intro _
    show items.length ≤ (kind.fields.map Field.key).length
    rw [List.length_map]
    exact hlisted.length_le
  · intro _ i f hf b hb
    rw [Json.Value.field?_object] at hb
    rw [Json.Value.field?_array]
    rcases hlisted.field hf with heq | ⟨hnone, v, hblank, hitem⟩
    · rwa [heq]
    · rw [hnone] at hb
      rw [hitem]
      exact reads_blank (List.mem_of_getElem? hf) hblank hb

/-- A record that is an object, with another spelling of one of its fields. -/
theorem reads_record_member {f : Field} {front back : List (String × Json.Value)} {a : kind.Value}
    (hf : f ∈ kind.fields) (hnull : v ≠ .null)
    (hv : ∀ b : f.shape.Value, Reads f.shape v b → Reads f.shape v' b)
    (h : Reads (.record kind) (.object (front ++ (f.key, v) :: back)) a) :
    Reads (.record kind) (.object (front ++ (f.key, v') :: back)) a := by
  refine reads_record_imp ?_ ?_ h
  · intro hkeys key hkey
    rw [map_fst_replaced]
    exact hkeys key hkey
  · intro _ i g hg b hb
    rw [Json.Value.field?_object] at hb ⊢
    rcases lookup_replaced front back f.key g.key v v' with heq | ⟨hkey, hbefore, hafter⟩
    · rwa [← heq]
    · cases List.inj_on_of_nodup_map (nodup_keys kind) (List.mem_of_getElem? hg) hf hkey
      rw [hbefore] at hb
      rw [hafter]
      exact reads_field_imp hnull hv hb

/-- A record that is an array, with another spelling of one of its fields. -/
theorem reads_record_place {f : Field} {front back : List Json.Value} {a : kind.Value}
    (hf : kind.fields[front.length]? = some f) (hnull : v ≠ .null)
    (hv : ∀ b : f.shape.Value, Reads f.shape v b → Reads f.shape v' b)
    (h : Reads (.record kind) (.array (front ++ v :: back)) a) :
    Reads (.record kind) (.array (front ++ v' :: back)) a := by
  refine reads_record_imp ?_ ?_ h
  · intro hlength
    have hsame : (front ++ v' :: back).length = (front ++ v :: back).length := by simp
    show (front ++ v' :: back).length ≤ _
    rw [hsame]
    exact hlength
  · intro _ i g hg b hb
    rw [Json.Value.field?_array] at hb ⊢
    by_cases hi : i = front.length
    · subst hi
      cases hf.symm.trans hg
      simp only [List.getElem?_append_right (Nat.le_refl _), Nat.sub_self,
        List.getElem?_cons_zero] at hb ⊢
      exact reads_field_imp hnull hv hb
    · have hother : (front ++ v' :: back)[i]? = (front ++ v :: back)[i]? := by
        simp only [List.getElem?_append, List.getElem?_cons]
        split
        · rfl
        · rw [if_neg (by omega), if_neg (by omega)]
      rwa [hother]

end

/-! ## Any part of a document -/

section
variable {shape : Shape} {v v' : Json.Value}

theorem Respells.ne_null (h : Respells shape v v') : v ≠ .null := by
  cases h <;> exact nofun

/-- What two lists have to do with one another part by part does not depend on one part that is
replaced by another. -/
theorem forall₂_replaced {β γ : Type} {R : β → γ → Prop} {x x' : β} {front back : List β}
    {values : List γ} (hx : ∀ y, R x y → R x' y) (h : List.Forall₂ R (front ++ x :: back) values) :
    List.Forall₂ R (front ++ x' :: back) values := by
  induction front generalizing values with
  | nil =>
    cases h with
    | cons hfirst hrest => exact .cons (hx _ hfirst) hrest
  | cons first front ih =>
    cases h with
    | cons hfirst hrest => exact .cons hfirst (ih hrest)

/-- A value of any shape stands for what it stood for, when a record in it is spelled in another
way. -/
theorem reads_respelled (h : Respells shape v v') {a : shape.Value} (hread : Reads shape v a) :
    Reads shape v' a := by
  induction h with
  | order hperm => exact reads_record_perm hperm hread
  | add hkey => exact (reads_record_cons_iff hkey).2 hread
  | drop hkey => exact (reads_record_cons_iff hkey).1 hread
  | listed hlisted => exact reads_record_listed hlisted hread
  | member front back hf hv ih => exact reads_record_member hf hv.ne_null (fun _ => ih) hread
  | place front back hf hv ih => exact reads_record_place hf hv.ne_null (fun _ => ih) hread
  | item front back _ ih =>
    cases reads_list_iff.1 hread with
    | array hitems => exact reads_list_iff.2 (.array (forall₂_replaced (fun _ => ih) hitems))
  | entry front back _ ih =>
    cases reads_table_iff.1 hread with
    | object hentries =>
      refine reads_table_iff.2 (.object (forall₂_replaced ?_ hentries))
      intro entry hentry
      cases hentry with
      | member hv => exact .member (ih hv)

end

end Document

open Document

namespace Project

theorem ofValue_eq_ok_iff_reads {v : Json.Value} {p : Project} :
    ofValue v = .ok p ↔ Reads (.record .project) v p :=
  ofValue_eq_ok_iff.trans reads_project_iff.symm

/-- Take a value that is loaded, and change the spelling of its records as often as you like, each at
any depth: put the keys of a record in another order, give it keys that it does not define or take such
keys away, write it as the array of its fields, with defaults or without them at the end. The same
project is loaded. -/
theorem ofValue_respelled {v v' : Json.Value} {p : Project} (hload : ofValue v = .ok p)
    (h : Relation.ReflTransGen (Respells (.record .project)) v v') : ofValue v' = .ok p := by
  induction h with
  | refl => exact hload
  | tail _ hstep ih =>
    rw [ofValue_eq_ok_iff_reads] at ih ⊢
    exact reads_respelled hstep ih

/-- A document of one input. The data of the block come before its type, and there is a remark. -/
def remarked : Json.Value :=
  .object [("remark", .null),
    ("graph", .object [("wires", .array []),
      ("blocks", .array [.object [("data", .object [("pin", .object [("value", .string "7")])]),
        ("type", .string "basic.input"), ("id", .string "a")]])])]

/-- The same without the remark. The block has its type first, and pin and graph are arrays. -/
def unremarked : Json.Value :=
  .object [("graph", .array [
    .array [.object [("type", .string "basic.input"), ("id", .string "a"),
      ("data", .object [("pin", .array [.null, .string "7"])])]],
    .array []])]

/-- One spelling after the other, from the inside to the outside. -/
theorem respells_remarked :
    Relation.ReflTransGen (Respells (.record .project)) remarked unremarked := by
  have hpin : Respells (.record .pin) (.object [("value", .string "7")])
      (.array [.null, .string "7"]) :=
    .listed (.filled rfl rfl (.present rfl (.rest nofun)))
  have hdata : Respells (.record .blockData) _ _ :=
    .member (f := .nullable "pin" (.record .pin)) [] [] (by simp) hpin
  have hfield : Respells (.record .block) _ _ :=
    .member (f := .nullable "data" (.record .blockData)) []
      [("type", .string "basic.input"), ("id", .string "a")] (by simp) hdata
  have hturned (data : Json.Value) : Respells (.record .block)
      (.object [("data", data), ("type", .string "basic.input"), ("id", .string "a")])
      (.object [("type", .string "basic.input"), ("id", .string "a"), ("data", data)]) :=
    .order (List.perm_append_singleton ("data", data) _).symm
  have hblocks {b b' : Json.Value} (hb : Respells (.record .block) b b') :
      Respells (.record .graph) (.object [("wires", .array []), ("blocks", .array [b])])
        (.object [("wires", .array []), ("blocks", .array [b'])]) :=
    .member (f := .required "blocks" (.list (.record .block))) [("wires", .array [])] [] (by simp)
      (.item [] [] hb)
  have hgraph (b : Json.Value) : Respells (.record .graph)
      (.object [("wires", .array []), ("blocks", .array [b])]) (.array [.array [b], .array []]) :=
    .listed (.present rfl (.present rfl (.rest nofun)))
  have hwhole {g g' : Json.Value} (hg : Respells (.record .graph) g g') :
      Respells (.record .project) (.object [("graph", g)]) (.object [("graph", g')]) :=
    .member (f := .required "graph" (.record .graph)) [] [] (by simp) hg
  have hremark : Respells (.record .project) remarked _ := .drop (by decide)
  exact .head hremark (.head (hwhole (hblocks hfield))
    (.head (hwhole (hblocks (hturned _))) (.single (hwhole (hgraph _)))))

/-- Both spellings are loaded, and as the same project. -/
theorem ofValue_respelled_remarked :
    ofValue remarked = .ok (.ofGraph ⟨[⟨"a", .input (some ⟨none, "7"⟩)⟩], []⟩) ∧
      Relation.ReflTransGen (Respells (.record .project)) remarked unremarked ∧
      ofValue unremarked = .ok (.ofGraph ⟨[⟨"a", .input (some ⟨none, "7"⟩)⟩], []⟩) :=
  ⟨rfl, respells_remarked, ofValue_respelled rfl respells_remarked⟩

end Project

end BlockCircuit
