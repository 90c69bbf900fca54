import BlockCircuit.Document.OfValue
import BlockCircuit.Proofs.Json.Yields
import Mathlib.Data.List.Forall2

/-!
# What values of each shape stand for

Values are read part by part, in the order in which they are written, and a record keeps slots for
the fields it has seen. What comes of it depends on less: on the value of each field, wherever it
stands, and for an object on whether a field is written twice.

* `RequiredOf`, `OptionalOf`, `NullableOf`, `ListOf`, `TableOf` — what fields and values stand for,
  in terms of what their parts stand for;
* `slotsRead_iff` — reading an object settles every field by itself;
* `reads_record_iff` — a record is read from the values of its fields;
* `reads_list_iff`, `reads_table_iff` — lists and tables are read from their parts.
-/

namespace BlockCircuit

namespace Json.Value

/-- The value of a field of a record: what stands under its key, or at its place if the record is
written as an array. -/
def field? (v : Value) (place : Nat) (key : String) : Option Value :=
  match v with
  | .object members => members.lookup key
  | .array items => items[place]?
  | _ => none

/-- A value can be a record with these keys: an object that has none of them twice, or an array that
is not longer. -/
def IsRecord (keys : List String) : Value → Prop
  | .object members => ∀ key ∈ keys, (members.map Prod.fst).count key ≤ 1
  | .array items => items.length ≤ keys.length
  | _ => False

end Json.Value

namespace Document

/-! ## Parts of values -/

section
variable {α : Type}

/-- A field that has to be present. -/
inductive RequiredOf (R : Json.Value → α → Prop) : Option Json.Value → α → Prop
  | present {v : Json.Value} {a : α} : R v a → RequiredOf R (some v) a

/-- A field that may be absent, and stands for a default then. -/
inductive OptionalOf (R : Json.Value → α → Prop) (default : α) : Option Json.Value → α → Prop
  | absent : OptionalOf R default none default
  | present {v : Json.Value} {a : α} : R v a → OptionalOf R default (some v) a

/-- A field that may be absent or null, and stands for nothing then. -/
inductive NullableOf (R : Json.Value → α → Prop) : Option Json.Value → Option α → Prop
  | absent : NullableOf R none none
  | null : NullableOf R (some .null) none
  | present {v : Json.Value} {a : α} : R v a → NullableOf R (some v) (some a)

/-- An array of parts. -/
inductive ListOf (R : Json.Value → α → Prop) : Json.Value → List α → Prop
  | array {items : List Json.Value} {values : List α} :
      List.Forall₂ R items values → ListOf R (.array items) values

/-- A member of an object with free keys. -/
inductive EntryOf (R : Json.Value → α → Prop) : String × Json.Value → String × α → Prop
  | member {key : String} {v : Json.Value} {a : α} : R v a → EntryOf R (key, v) (key, a)

/-- A table of some entries: those of the same key are one, at the first place and with the last
value. -/
def tableOf (entries : List (String × α)) : List (String × α) :=
  entries.foldl (fun table entry => insertEntry table entry.1 entry.2) []

/-- An object with free keys. -/
inductive TableOf (R : Json.Value → α → Prop) : Json.Value → List (String × α) → Prop
  | object {members : List (String × Json.Value)} {entries : List (String × α)} :
      List.Forall₂ (EntryOf R) members entries → TableOf R (.object members) (tableOf entries)

end

/-- A value has this shape and stands for this. -/
def Reads (shape : Shape) (v : Json.Value) (a : shape.Value) : Prop :=
  ofValue v shape = .ok a

/-- The value of a field is as it has to be, and the field stands for this. -/
def Field.Reads : (f : Field) → Option Json.Value → f.Value → Prop
  | .required _ shape => RequiredOf (Document.Reads shape)
  | .optional _ shape default => OptionalOf (Document.Reads shape) default
  | .nullable _ shape => NullableOf (Document.Reads shape)

/-- All fields from a place on are as they have to be, and stand for these values. -/
def FieldsRead (v : Json.Value) : (place : Nat) → (fields : List Field) → Filled fields → Prop
  | _, [], () => True
  | place, f :: fields, (value, values) =>
      f.Reads (v.field? place f.key) value ∧ FieldsRead v (place + 1) fields values

/-! ## One field -/

theorem not_reads_null {shape : Shape} {a : shape.Value} : ¬Reads shape .null a := by
  intro h
  cases shape <;> cases h

theorem Field.reads_none_iff {f : Field} {a : f.Value} : f.Reads none a ↔ f.absent? = some a := by
  cases f with
  | required key shape => exact iff_of_false (fun h => by cases h) (fun h => by cases h)
  | optional key shape default =>
    constructor
    · intro h
      cases h
      rfl
    · intro h
      cases h
      exact .absent
  | nullable key shape =>
    constructor
    · intro h
      cases h
      rfl
    · intro h
      cases h
      exact .absent

theorem Field.reads_some_iff {f : Field} {v : Json.Value} {a : f.Value} :
    f.Reads (some v) a ↔ f.ofValueWith (isNull v) (ofValue v) = .ok a := by
  cases f with
  | required key shape =>
    constructor
    · intro h
      cases h with
      | present h => exact h
    · intro h
      exact RequiredOf.present h
  | optional key shape default =>
    constructor
    · intro h
      cases h with
      | present h => exact h
    · intro h
      exact OptionalOf.present h
  | nullable key shape =>
    constructor
    · intro h
      cases h with
      | null => rfl
      | @present _ value h =>
        have hnull : isNull v = false := by
          cases v with
          | null => exact absurd h not_reads_null
          | _ => rfl
        have hread : ofValue v shape = .ok value := h
        rw [Field.ofValueWith, hnull, hread]
        rfl
    · intro h
      rw [Field.ofValueWith] at h
      split at h
      · rename_i hnull
        cases h
        cases v with
        | null => exact .null
        | _ => cases hnull
      · cases hread : ofValue v shape with
        | error problem => rw [hread] at h; cases h
        | ok value =>
          rw [hread] at h
          cases h
          exact .present hread

/-! ## Records that are written as arrays -/

theorem fillRest_eq_ok_iff {kind : RecordKind} {number place : Nat} {fields : List Field}
    {values : Filled fields} :
    fillRest kind number fields = .ok values ↔ FieldsRead (.array []) place fields values := by
  induction fields generalizing number place with
  | nil => exact iff_of_true rfl trivial
  | cons f fields ih =>
    obtain ⟨value, values⟩ := values
    have hfield : (Json.Value.array []).field? place f.key = none := rfl
    rw [fillRest, FieldsRead, hfield, Field.reads_none_iff]
    split
    · rename_i habsent
      rw [habsent]
      exact iff_of_false (fun h => by cases h) (fun h => by cases h.1)
    · rename_i other habsent
      rw [habsent, bind_eq_ok_iff]
      constructor
      · rintro ⟨rest, hrest, h⟩
        cases h
        exact ⟨rfl, ih.1 hrest⟩
      · rintro ⟨h, hrest⟩
        cases h
        exact ⟨values, ih.2 hrest, rfl⟩

/-- The fields from one place on are those from the place before in the rest of the array. -/
theorem fieldsRead_tail {v : Json.Value} {items : List Json.Value} {place : Nat}
    {fields : List Field} {values : Filled fields} :
    FieldsRead (.array (v :: items)) (place + 1) fields values ↔
      FieldsRead (.array items) place fields values := by
  induction fields generalizing place with
  | nil => exact Iff.rfl
  | cons f fields ih =>
    obtain ⟨value, values⟩ := values
    rw [FieldsRead, FieldsRead, ih]
    rfl

theorem ofTuple_eq_ok_iff {items : List Json.Value} {length : Nat} {kind : RecordKind}
    {number : Nat} {fields : List Field} {values : Filled fields} :
    ofTuple items length kind number fields = .ok values ↔
      items.length ≤ fields.length ∧ FieldsRead (.array items) 0 fields values := by
  induction items generalizing number fields with
  | nil =>
    rw [ofTuple, fillRest_eq_ok_iff]
    exact (and_iff_right (Nat.zero_le _)).symm
  | cons v items ih =>
    cases fields with
    | nil => exact iff_of_false (fun h => by cases h) fun h => absurd h.1 (Nat.not_succ_le_zero _)
    | cons f fields =>
      obtain ⟨value, values⟩ := values
      have hfield : (Json.Value.array (v :: items)).field? 0 f.key = some v := rfl
      rw [ofTuple, bind_eq_ok_iff, FieldsRead, fieldsRead_tail, hfield, Field.reads_some_iff,
        List.length_cons, List.length_cons, Nat.add_le_add_iff_right]
      constructor
      · rintro ⟨a, ha, h⟩
        obtain ⟨as, has, h⟩ := bind_eq_ok_iff.1 h
        cases h
        obtain ⟨hlength, hrest⟩ := ih.1 has
        exact ⟨hlength, ha, hrest⟩
      · rintro ⟨hlength, ha, hrest⟩
        exact ⟨value, ha, bind_eq_ok_iff.2 ⟨values, ih.2 ⟨hlength, hrest⟩, rfl⟩⟩

/-! ## Records that are written as objects -/

/-- What the slot of a field can still come to when these members are read: a slot that is taken
keeps its value, and its key may not come again; another one takes the value of its field, and the
key may come once. -/
def SlotReads (members : List (String × Json.Value)) (f : Field) : Option f.Value → f.Value → Prop
  | none, value => (members.map Prod.fst).count f.key ≤ 1 ∧ f.Reads (members.lookup f.key) value
  | some a, value => f.key ∉ members.map Prod.fst ∧ a = value

/-- The same of all slots. -/
def SlotsRead (members : List (String × Json.Value)) :
    (fields : List Field) → Slots fields → Filled fields → Prop
  | [], (), () => True
  | f :: fields, (slot, slots), (value, values) =>
      SlotReads members f slot value ∧ SlotsRead members fields slots values

section
variable {members : List (String × Json.Value)} {key : String} {v : Json.Value} {f : Field}
  {slot : Option f.Value} {value : f.Value} {fields : List Field} {slots : Slots fields}
  {values : Filled fields}

/-- When nothing is left to read, absent fields take their defaults. -/
theorem slotReads_nil_iff : SlotReads [] f slot value ↔ slot.or f.absent? = some value := by
  cases slot with
  | none =>
    have hcount : List.count f.key (List.map Prod.fst ([] : List (String × Json.Value))) ≤ 1 :=
      Nat.zero_le 1
    exact (and_iff_right hcount).trans Field.reads_none_iff
  | some a => exact (and_iff_right List.not_mem_nil).trans Option.some_inj.symm

theorem complete_eq_ok_iff :
    complete fields slots = .ok values ↔ SlotsRead [] fields slots values := by
  induction fields with
  | nil => exact iff_of_true rfl trivial
  | cons f fields ih =>
    obtain ⟨slot, slots⟩ := slots
    obtain ⟨value, values⟩ := values
    rw [complete, SlotsRead, slotReads_nil_iff]
    split
    · rename_i hslot
      rw [hslot]
      exact iff_of_false (fun h => by cases h) (fun h => by cases h.1)
    · rename_i other hslot
      rw [hslot, bind_eq_ok_iff]
      constructor
      · rintro ⟨rest, hrest, h⟩
        cases h
        exact ⟨rfl, ih.1 hrest⟩
      · rintro ⟨h, hrest⟩
        cases h
        exact ⟨values, ih.2 hrest, rfl⟩

/-- A member with another key changes nothing for a field. -/
theorem slotReads_cons_of_ne (hkey : f.key ≠ key) :
    SlotReads ((key, v) :: members) f slot value ↔ SlotReads members f slot value := by
  cases slot with
  | none =>
    have hcount : (((key, v) :: members).map Prod.fst).count f.key =
        (members.map Prod.fst).count f.key := List.count_cons_of_ne hkey.symm
    rw [SlotReads, SlotReads, hcount, lookup_cons_eq, if_neg hkey]
  | some a => simp [SlotReads, hkey]

/-- A member with the key of a field fills its slot, if that is free and not filled again. -/
theorem slotReads_cons_self :
    SlotReads ((f.key, v) :: members) f slot value ↔
      slot = none ∧ f.Reads (some v) value ∧ f.key ∉ members.map Prod.fst := by
  cases slot with
  | none =>
    have hcount : (((f.key, v) :: members).map Prod.fst).count f.key ≤ 1 ↔
        f.key ∉ members.map Prod.fst := by
      rw [List.map_cons, List.count_cons_self, Nat.succ_le_succ_iff, Nat.le_zero,
        List.count_eq_zero]
    rw [SlotReads, hcount, lookup_cons_eq, if_pos rfl, and_iff_right rfl, and_comm]
  | some a => simp [SlotReads]

theorem slotsRead_cons_of_notMem (hkey : key ∉ fields.map Field.key) :
    SlotsRead ((key, v) :: members) fields slots values ↔
      SlotsRead members fields slots values := by
  induction fields with
  | nil => exact Iff.rfl
  | cons f fields ih =>
    obtain ⟨slot, slots⟩ := slots
    obtain ⟨value, values⟩ := values
    rw [List.map_cons, List.mem_cons, not_or] at hkey
    rw [SlotsRead, SlotsRead, slotReads_cons_of_ne (Ne.symm hkey.1), ih hkey.2]

/-- Putting a member into its slot settles what that member comes to. -/
theorem exists_store_iff (hkeys : (fields.map Field.key).Nodup) :
    (∃ slots', store key (Field.ofValueWith (isNull v) (ofValue v)) fields slots = .ok slots' ∧
      SlotsRead members fields slots' values) ↔
        SlotsRead ((key, v) :: members) fields slots values := by
  induction fields with
  | nil => exact iff_of_true ⟨(), rfl, trivial⟩ trivial
  | cons f fields ih =>
    obtain ⟨slot, slots⟩ := slots
    obtain ⟨value, values⟩ := values
    rw [List.map_cons, List.nodup_cons] at hkeys
    unfold store
    rw [SlotsRead]
    by_cases hkey : f.key = key
    · subst hkey
      rw [if_pos rfl, slotReads_cons_self, slotsRead_cons_of_notMem hkeys.1, Field.reads_some_iff]
      cases slot with
      | some a =>
        refine iff_of_false ?_ ?_
        · rintro ⟨slots', hstore, -⟩
          cases hstore
        · rintro ⟨⟨hslot, -⟩, -⟩
          cases hslot
      | none =>
        constructor
        · rintro ⟨slots', hstore, hread⟩
          cases hvalue : f.ofValueWith (isNull v) (ofValue v) with
          | error problem => rw [hvalue] at hstore; cases hstore
          | ok a =>
            rw [hvalue] at hstore
            cases hstore
            obtain ⟨⟨hnotMem, rfl⟩, hrest⟩ := hread
            exact ⟨⟨rfl, rfl, hnotMem⟩, hrest⟩
        · rintro ⟨⟨-, hvalue, hnotMem⟩, hrest⟩
          refine ⟨(some value, slots), ?_, ⟨hnotMem, rfl⟩, hrest⟩
          rw [hvalue]
          rfl
    · rw [if_neg hkey, slotReads_cons_of_ne hkey, ← ih hkeys.2]
      constructor
      · rintro ⟨slots', hstore, hread⟩
        cases hrest : store key (Field.ofValueWith (isNull v) (ofValue v)) fields slots with
        | error problem => rw [hrest] at hstore; cases hstore
        | ok rest =>
          rw [hrest] at hstore
          cases hstore
          exact ⟨hread.1, rest, rfl, hread.2⟩
      · rintro ⟨hslot, rest, hrest, hread⟩
        refine ⟨(slot, rest), ?_, hslot, hread⟩
        rw [hrest]
        rfl

/-- Reading an object settles every field by itself. -/
theorem slotsRead_iff (hkeys : (fields.map Field.key).Nodup) :
    (ofMembers members fields slots >>= complete fields) = .ok values ↔
      SlotsRead members fields slots values := by
  induction members generalizing slots with
  | nil => exact complete_eq_ok_iff
  | cons member members ih =>
    obtain ⟨key, v⟩ := member
    rw [ofMembers, bind_assoc, bind_eq_ok_iff, ← exists_store_iff hkeys]
    refine exists_congr fun slots' => and_congr_right fun _ => ?_
    exact ih

/-- With empty slots, no field is written twice, and each takes the value that stands under its
key. -/
theorem slotsRead_empty_iff (place : Nat) :
    SlotsRead members fields (Slots.empty fields) values ↔
      (∀ key ∈ fields.map Field.key, (members.map Prod.fst).count key ≤ 1) ∧
        FieldsRead (.object members) place fields values := by
  induction fields generalizing place with
  | nil => exact iff_of_true trivial ⟨fun _ h => absurd h List.not_mem_nil, trivial⟩
  | cons f fields ih =>
    obtain ⟨value, values⟩ := values
    rw [List.map_cons, List.forall_mem_cons]
    show _ ∧ SlotsRead members fields (Slots.empty fields) values ↔ _
    rw [ih (place + 1)]
    exact and_and_and_comm

end

/-! ## Values -/

theorem nodup_keys (kind : RecordKind) : (kind.fields.map Field.key).Nodup := by
  cases kind <;> decide

/-- A record is read from the values of its fields. -/
theorem reads_record_iff {kind : RecordKind} {v : Json.Value} {a : kind.Value} :
    Reads (.record kind) v a ↔
      v.IsRecord (kind.fields.map Field.key) ∧
        ∃ values, FieldsRead v 0 kind.fields values ∧ kind.build values = .ok a := by
  rw [Reads]
  cases v with
  | array items =>
    rw [ofValue, bind_eq_ok_iff]
    simp only [ofTuple_eq_ok_iff, Json.Value.IsRecord, List.length_map, and_assoc,
      exists_and_left]
  | object members =>
    rw [ofValue, ← bind_assoc, bind_eq_ok_iff]
    simp only [slotsRead_iff (nodup_keys kind), slotsRead_empty_iff 0, Json.Value.IsRecord,
      and_assoc, exists_and_left]
  | null | boolean | number | string => exact iff_of_false (fun h => by cases h) fun h => h.1

theorem ofItems_eq_ok_iff {items : List Json.Value} {item : Shape} {values : List item.Value} :
    ofItems items item = .ok values ↔ List.Forall₂ (Reads item) items values := by
  induction items generalizing values with
  | nil =>
    rw [ofItems]
    constructor
    · intro h
      cases h
      exact .nil
    · intro h
      cases h
      rfl
  | cons v items ih =>
    rw [ofItems, bind_eq_ok_iff]
    constructor
    · rintro ⟨a, ha, h⟩
      obtain ⟨as, has, h⟩ := bind_eq_ok_iff.1 h
      cases h
      exact .cons ha (ih.1 has)
    · intro h
      cases h with
      | cons ha has => exact ⟨_, ha, bind_eq_ok_iff.2 ⟨_, ih.2 has, rfl⟩⟩

/-- A list is read from its items. -/
theorem reads_list_iff {item : Shape} {v : Json.Value} {values : List item.Value} :
    Reads (.list item) v values ↔ ListOf (Reads item) v values := by
  rw [Reads]
  constructor
  · intro h
    cases v with
    | array items =>
      rw [ofValue] at h
      exact .array (ofItems_eq_ok_iff.1 h)
    | null | boolean | number | string | object => cases h
  · intro h
    cases h with
    | array h =>
      rw [ofValue]
      exact ofItems_eq_ok_iff.2 h

theorem ofTable_eq_ok_iff {members : List (String × Json.Value)} {item : Shape}
    {before table : List (String × item.Value)} :
    ofTable members item before = .ok table ↔
      ∃ entries, List.Forall₂ (EntryOf (Reads item)) members entries ∧
        entries.foldl (fun table entry => insertEntry table entry.1 entry.2) before = table := by
  induction members generalizing before with
  | nil =>
    rw [ofTable]
    constructor
    · intro h
      cases h
      exact ⟨[], .nil, rfl⟩
    · rintro ⟨entries, h, rfl⟩
      cases h
      rfl
  | cons member members ih =>
    obtain ⟨key, v⟩ := member
    rw [ofTable, bind_eq_ok_iff]
    constructor
    · rintro ⟨a, ha, h⟩
      obtain ⟨entries, hentries, htable⟩ := ih.1 h
      exact ⟨(key, a) :: entries, .cons (.member ha) hentries, htable⟩
    · rintro ⟨entries, hentries, htable⟩
      cases hentries with
      | cons hentry hentries =>
        cases hentry with
        | member ha => exact ⟨_, ha, ih.2 ⟨_, hentries, htable⟩⟩

/-- A table is read from its members. -/
theorem reads_table_iff {item : Shape} {v : Json.Value} {table : List (String × item.Value)} :
    Reads (.table item) v table ↔ TableOf (Reads item) v table := by
  rw [Reads]
  constructor
  · intro h
    cases v with
    | object members =>
      rw [ofValue] at h
      obtain ⟨entries, hentries, rfl⟩ := ofTable_eq_ok_iff.1 h
      exact .object hentries
    | null | boolean | number | string | array => cases h
  · intro h
    cases h with
    | object h =>
      rw [ofValue]
      exact ofTable_eq_ok_iff.2 ⟨_, h, rfl⟩

end Document

end BlockCircuit
