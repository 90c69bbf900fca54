import BlockCircuit.Proofs.Document.Dependencies
import BlockCircuit.Proofs.Document.Respelled

/-!
# One part of a document in place of another

Take a document, and put another part in the place of one of its parts: a field of a record, an item of
a list, or an entry of a table. If the new part stands for something whenever the old one does, so does
the whole, and the two wholes differ as their parts do: the records in one field, the lists in one item,
and the tables in one entry, unless a later one has the same key.

* `Exchanged`, `SlotExchanged` — the values of all fields, and the same with another value for one;
* `ObjectText.standsFor_replaced`, `ArrayText.standsFor_replaced`, `ArrayText.standsFor_list_replaced`,
  `ObjectText.standsFor_table_replaced` — parts of texts;
* `Form` — documents as texts and as JSON values, by one interface;
* `InField`, `InItem`, `InEntry` — two documents that differ in one part;
* `Replaces` — one part may be put in the place of another;
* `Form.Lawful`, `Form.lawful_texts`, `Form.lawful_values` — a part that may be replaced makes a whole that
  may be replaced, in both forms.
-/

namespace BlockCircuit

open Json (scanned skipBlanks)

namespace Document

/-! ## Another value for one field -/

/-- What a field stands for, given what stands in it. -/
def Field.put : (f : Field) → f.shape.Value → f.Value
  | .required _ _, b => b
  | .optional _ _ _, b => b
  | .nullable _ _, b => some b

/-- The values of some fields, and the same with another value for one of them. -/
inductive Exchanged : (fields : List Field) → (f : Field) → f.Value → f.Value →
    Filled fields → Filled fields → Prop
  | here {f : Field} {fields : List Field} {a a' : f.Value} {values : Filled fields} :
      Exchanged (f :: fields) f a a' (a, values) (a', values)
  | later {f g : Field} {fields : List Field} {a a' : f.Value} {b : g.Value}
      {values values' : Filled fields} :
      Exchanged fields f a a' values values' →
        Exchanged (g :: fields) f a a' (b, values) (b, values')

section
variable {f g : Field} {fields : List Field} {a a' : f.Value} {values values' : Filled fields}

theorem Exchanged.key_mem (h : Exchanged fields f a a' values values') :
    f.key ∈ fields.map Field.key := by
  induction h with
  | here => exact List.mem_cons_self
  | later _ ih => exact List.mem_cons_of_mem _ ih

/-- With the same value, all values are the same. -/
theorem Exchanged.eq (h : Exchanged fields f a a values values') : values = values' := by
  induction fields with
  | nil => cases h
  | cons g fields ih =>
    cases h with
    | here => rfl
    | later h => rw [ih h]

/-- The first of some values, if no other field has its key. -/
theorem Exchanged.head {b b' : f.Value}
    (h : Exchanged (f :: fields) f a a' (b, values) (b', values'))
    (hkey : f.key ∉ fields.map Field.key) : a = b ∧ a' = b' ∧ values = values' := by
  cases h with
  | here => exact ⟨rfl, rfl, rfl⟩
  | later h => exact absurd h.key_mem hkey

/-- One of the others. -/
theorem Exchanged.tail {b b' : g.Value}
    (h : Exchanged (g :: fields) f a a' (b, values) (b', values')) (hkey : g.key ≠ f.key) :
    b = b' ∧ Exchanged fields f a a' values values' := by
  cases h with
  | here => exact absurd rfl hkey
  | later h => exact ⟨rfl, h⟩

end

/-- What is in the slots of some fields, and the same with another value in one slot. -/
inductive SlotExchanged : (fields : List Field) → (f : Field) → f.Value → f.Value →
    Slots fields → Slots fields → Prop
  | here {f : Field} {fields : List Field} {a a' : f.Value} {slots : Slots fields} :
      SlotExchanged (f :: fields) f a a' (some a, slots) (some a', slots)
  | later {f g : Field} {fields : List Field} {a a' : f.Value} {slot : Option g.Value}
      {slots slots' : Slots fields} :
      SlotExchanged fields f a a' slots slots' →
        SlotExchanged (g :: fields) f a a' (slot, slots) (slot, slots')

/-- What is in a slot is the value of its field. -/
theorem SlotExchanged.complete {fields : List Field} {slots slots' : Slots fields}
    {values : Filled fields} {f : Field} {a a' : f.Value}
    (h : SlotExchanged fields f a a' slots slots') (hvalues : complete fields slots = .ok values) :
    ∃ values', Document.complete fields slots' = .ok values' ∧
      Exchanged fields f a a' values values' := by
  induction h with
  | here =>
    obtain ⟨rest, hrest, hvalues⟩ := bind_eq_ok_iff.1 hvalues
    cases hvalues
    exact ⟨_, bind_eq_ok_iff.2 ⟨rest, hrest, rfl⟩, .here⟩
  | @later f g fields a a' slot slots slots' h ih =>
    rw [Document.complete] at hvalues ⊢
    split at hvalues
    · cases hvalues
    · obtain ⟨rest, hrest, hvalues⟩ := bind_eq_ok_iff.1 hvalues
      cases hvalues
      obtain ⟨rest', hrest', hexchanged⟩ := ih hrest
      exact ⟨_, bind_eq_ok_iff.2 ⟨rest', hrest', rfl⟩, .later hexchanged⟩

/-- If values of a field are related, so are the records that are built with them. -/
def RecordKind.Extends (kind : RecordKind) (f : Field) (R : f.shape.Value → f.shape.Value → Prop)
    (Q : kind.Value → kind.Value → Prop) : Prop :=
  ∀ b b' values values' a, R b b' → Exchanged kind.fields f (f.put b) (f.put b') values values' →
    kind.build values = .ok a → ∃ a', kind.build values' = .ok a' ∧ Q a a'

/-! ## Members of a list -/

/-- What two lists have to do with one another part by part, with other parts in one place. -/
theorem exists_of_forall₂_append {β γ : Type} {R : β → γ → Prop} {front back : List β} {x : β}
    {values : List γ} (h : List.Forall₂ R (front ++ x :: back) values) :
    ∃ front' y back', values = front' ++ y :: back' ∧ front'.length = front.length ∧ R x y ∧
      List.Forall₂ R back back' ∧
        ∀ x' y', R x' y' → List.Forall₂ R (front ++ x' :: back) (front' ++ y' :: back') := by
  induction front generalizing values with
  | nil =>
    cases h with
    | cons hx hback => exact ⟨[], _, _, rfl, rfl, hx, hback, fun _ _ hx' => .cons hx' hback⟩
  | cons first front ih =>
    cases h with
    | cons hfirst hrest =>
      obtain ⟨front', y, back', rfl, hlength, hx, hback, hother⟩ := ih hrest
      exact ⟨_ :: front', y, back', rfl, congrArg Nat.succ hlength, hx, hback,
        fun x' y' hx' => .cons hfirst (hother x' y' hx')⟩

/-- Two lists that differ in the item with this number only. -/
inductive ListExchanged {α : Type} (number : Nat) (R : α → α → Prop) : List α → List α → Prop
  | item {front back : List α} {b b' : α} : front.length = number → R b b' →
      ListExchanged number R (front ++ b :: back) (front ++ b' :: back)

theorem ListExchanged.exists_getElem? {α : Type} {number : Nat} {R : α → α → Prop} {l l' : List α}
    (h : ListExchanged number R l l') :
    ∃ b b', R b b' ∧ l'[number]? = some b' ∧ (b = b' → l = l') := by
  obtain ⟨rfl, hR⟩ := h
  exact ⟨_, _, hR, by simp, fun hb => hb ▸ rfl⟩

/-- Two tables of entries that differ in an entry of this key only, with these keys after it. -/
inductive TableExchanged {α : Type} (key : String) (later : List String) (R : α → α → Prop) :
    List (String × α) → List (String × α) → Prop
  | entry {front back : List (String × α)} {b b' : α} : back.map Prod.fst = later → R b b' →
      TableExchanged key later R (tableOf (front ++ (key, b) :: back))
        (tableOf (front ++ (key, b') :: back))

/-- The last entry of a key is the one that a table has. -/
theorem lookup_tableOf_last {α : Type} {front back : List (String × α)} {key : String} {a : α}
    (h : key ∉ back.map Prod.fst) :
    (tableOf (front ++ (key, a) :: back)).lookup key = some a := by
  rw [lookup_tableOf, List.lookup_eq_some_iff]
  refine ⟨back.reverse, front.reverse, by simp, ?_⟩
  rintro ⟨other, b⟩ hmem
  rw [bne_iff_ne]
  rintro rfl
  exact h (List.mem_map_of_mem (List.mem_reverse.1 hmem))

theorem TableExchanged.exists_lookup {α : Type} {key : String} {later : List String}
    {R : α → α → Prop} {entries entries' : List (String × α)}
    (h : TableExchanged key later R entries entries') :
    ∃ b b', R b b' ∧ (key ∉ later → entries'.lookup key = some b') ∧ (b = b' → entries = entries') := by
  obtain ⟨rfl, hR⟩ := h
  exact ⟨_, _, hR, lookup_tableOf_last, fun hb => hb ▸ rfl⟩

/-! ## Texts -/

section
variable {read : Reader} {text rest : List Char} {fields : List Field} {f : Field}

/-- A part that is not null is read into a field as what it stands for. -/
theorem scanned_field_iff (hnull : ∀ left, skipBlanks text ≠ 'n' :: left) {a : f.Value} :
    scanned (f.ofTextWith read text) = some (a, rest) ↔
      ∃ b, scanned (read f.shape text) = some (b, rest) ∧ a = f.put b := by
  cases f with
  | required key shape => exact ⟨fun h => ⟨a, h, rfl⟩, fun ⟨b, h, hb⟩ => hb ▸ h⟩
  | optional key shape default => exact ⟨fun h => ⟨a, h, rfl⟩, fun ⟨b, h, hb⟩ => hb ▸ h⟩
  | nullable key shape =>
    rw [scanned_nullable_iff]
    constructor
    · rintro (⟨h, -⟩ | ⟨-, h⟩)
      · exact absurd h (hnull _)
      · exact h
    · intro h
      exact .inr ⟨hnull, h⟩

/-- The value of a known key goes into the slot of its field. -/
theorem StoreRead.exists_of_mem {slots slots' : Slots fields} (hf : f ∈ fields)
    (hkeys : (fields.map Field.key).Nodup)
    (h : StoreRead read f.key fields slots text slots' rest) :
    ∃ a, scanned (f.ofTextWith read text) = some (a, rest) ∧
      ∀ text' rest' a', scanned (f.ofTextWith read text') = some (a', rest') →
        ∃ other, StoreRead read f.key fields slots text' other rest' ∧
          SlotExchanged fields f a a' slots' other := by
  induction fields with
  | nil => exact absurd hf List.not_mem_nil
  | cons g fields ih =>
    rw [List.map_cons, List.nodup_cons] at hkeys
    cases h with
    | @field _ _ _ a _ _ hkey hread =>
      -- The first field with the key takes the member, and no other field has this key.
      rcases List.mem_cons.1 hf with rfl | hf
      · exact ⟨a, hread, fun _ _ _ hread' => ⟨_, .field hkey hread', .here⟩⟩
      · exact absurd (hkey ▸ List.mem_map_of_mem hf) hkeys.1
    | later hkey h =>
      rcases List.mem_cons.1 hf with rfl | hf
      · exact absurd rfl hkey
      · obtain ⟨a, hread, hother⟩ := ih hf hkeys.2 h
        refine ⟨a, hread, fun text' rest' a' hread' => ?_⟩
        obtain ⟨other, hstore, hexchanged⟩ := hother text' rest' a' hread'
        exact ⟨_, .later hkey hstore, .later hexchanged⟩

/-- The other members are read as before, whatever is in a slot that is taken. -/
theorem StoreRead.exchanged {key : String} {slots slots' other : Slots fields} {a a' : f.Value}
    (h : StoreRead read key fields slots text slots' rest)
    (hexchanged : SlotExchanged fields f a a' slots other) :
    ∃ other', StoreRead read key fields other text other' rest ∧
      SlotExchanged fields f a a' slots' other' := by
  induction h with
  | unknown => cases hexchanged
  | field hkey hread =>
    cases hexchanged with
    | later hexchanged => exact ⟨_, .field hkey hread, .later hexchanged⟩
  | later hkey h ih =>
    cases hexchanged with
    | here => exact ⟨_, .later hkey h, .here⟩
    | later hexchanged =>
      obtain ⟨other', hstore, hexchanged'⟩ := ih hexchanged
      exact ⟨_, .later hkey hstore, .later hexchanged'⟩

theorem Chain.exchanged {members : List (String × String)} {slots slots' other : Slots fields}
    {a a' : f.Value}
    (h : Chain (StepAlone fun key => StoreRead read key fields) members slots slots')
    (hexchanged : SlotExchanged fields f a a' slots other) :
    ∃ other', Chain (StepAlone fun key => StoreRead read key fields) members other other' ∧
      SlotExchanged fields f a a' slots' other' := by
  induction h generalizing other with
  | nil => exact ⟨other, .nil, hexchanged⟩
  | cons hstep _ ih =>
    obtain ⟨middle, hstep', hmiddle⟩ := hstep.exchanged hexchanged
    obtain ⟨other', hchain, hexchanged'⟩ := ih hmiddle
    exact ⟨other', .cons hstep' hchain, hexchanged'⟩

/-- The item at the place of a field is what the field is read from. -/
theorem FillsAlone.exists_of_getElem? {kind : RecordKind} {number : Nat} {front back : List String}
    {v : String} {values : Filled fields}
    (h : FillsAlone read kind number fields (front ++ v :: back) values)
    (hf : fields[front.length]? = some f) :
    ∃ a, scanned (f.ofTextWith read v.toList) = some (a, []) ∧
      ∀ (v' : String) a', scanned (f.ofTextWith read v'.toList) = some (a', []) →
        ∃ values', FillsAlone read kind number fields (front ++ v' :: back) values' ∧
          Exchanged fields f a a' values values' := by
  induction front generalizing number fields with
  | nil =>
    cases h with
    | item hread hrest =>
      cases hf
      exact ⟨_, hread, fun v' a' hread' => ⟨_, .item hread' hrest, .here⟩⟩
  | cons w front ih =>
    cases h with
    | item hread hrest =>
      obtain ⟨a, hv, hother⟩ := ih hrest hf
      refine ⟨a, hv, fun v' a' hread' => ?_⟩
      obtain ⟨values', hfills, hexchanged⟩ := hother v' a' hread'
      exact ⟨_, .item hread hfills, .later hexchanged⟩

end

section
variable {budget : Nat} {text text' : List Char} {kind : RecordKind} {f : Field} {v v' : String}

/-- A record is nested at least once. -/
theorem StandsFor.exists_budget {a : kind.Value} (h : StandsFor budget (.record kind) text a) :
    ∃ inner, budget = inner + 1 := by
  obtain ⟨rest, hread, -⟩ := h
  cases scanned_ofText_iff.1 hread <;> exact ⟨_, rfl⟩

section
variable {R : f.shape.Value → f.shape.Value → Prop} {Q : kind.Value → kind.Value → Prop}
  (hnull : ∀ left, skipBlanks v.toList ≠ 'n' :: left)
  (hv : ∀ budget b, StandsFor budget f.shape v.toList b →
    ∃ b', StandsFor budget f.shape v'.toList b' ∧ R b b')
include hnull hv

/-- What is read into a field. -/
theorem scanned_field_replaced (hpart : IsPart v.toList) (hpart' : IsPart v'.toList) {a : f.Value}
    (h : scanned (f.ofTextWith (ofText budget) v.toList) = some (a, [])) :
    ∃ b b', R b b' ∧ a = f.put b ∧
      scanned (f.ofTextWith (ofText budget) v'.toList) = some (f.put b', []) := by
  obtain ⟨b, hread, rfl⟩ := (scanned_field_iff hnull).1 h
  obtain ⟨b', hb', hR⟩ := hv budget b (hpart.standsFor_iff.2 hread)
  have hread' := hpart'.standsFor_iff.1 hb'
  exact ⟨b, b', hR, rfl, (scanned_field_iff (ne_null_of_read hread')).2 ⟨b', hread', rfl⟩⟩

variable (hbuild : kind.Extends f R Q)
include hbuild

/-- A field of a record that is written as an object. -/
theorem ObjectText.standsFor_replaced {front back : List (String × String)} {a : kind.Value}
    (hw : ObjectText (front ++ (f.key, v) :: back) text)
    (hw' : ObjectText (front ++ (f.key, v') :: back) text') (hf : f ∈ kind.fields)
    (h : StandsFor budget (.record kind) text a) :
    ∃ a', StandsFor budget (.record kind) text' a' ∧ Q a a' := by
  obtain ⟨inner, rfl⟩ := h.exists_budget
  obtain ⟨slots, values, hchain, hcomplete, ha⟩ := hw.standsFor_record_iff.1 h
  obtain ⟨middle, hfront, hrest⟩ := chain_append_iff.1 hchain
  cases hrest with
  | cons hstep hback =>
    obtain ⟨_, hread, hother⟩ := StoreRead.exists_of_mem hf (nodup_keys kind) hstep
    obtain ⟨b, b', hR, rfl, hread'⟩ := scanned_field_replaced hnull hv
      (hw.isPart_of_mem List.mem_append_cons_self)
      (hw'.isPart_of_mem List.mem_append_cons_self) hread
    obtain ⟨taken, hstore, hexchanged⟩ := hother _ _ _ hread'
    have hstep' : StepAlone (fun key => StoreRead (ofText inner) key kind.fields) (f.key, v') middle
        taken := hstore
    obtain ⟨slots', hback', hexchanged⟩ := Chain.exchanged hback hexchanged
    obtain ⟨values', hcomplete', hexchanged⟩ := hexchanged.complete hcomplete
    obtain ⟨a', ha', hQ⟩ := hbuild b b' values values' a hR hexchanged ha
    have hchain' := chain_append_iff.2 ⟨middle, hfront, .cons hstep' hback'⟩
    exact ⟨a', hw'.standsFor_record_iff.2 ⟨slots', values', hchain', hcomplete', ha'⟩, hQ⟩

/-- A field of a record that is written as an array. -/
theorem ArrayText.standsFor_replaced {front back : List String} {a : kind.Value}
    (hw : ArrayText (front ++ v :: back) text) (hw' : ArrayText (front ++ v' :: back) text')
    (hf : kind.fields[front.length]? = some f) (h : StandsFor budget (.record kind) text a) :
    ∃ a', StandsFor budget (.record kind) text' a' ∧ Q a a' := by
  obtain ⟨inner, rfl⟩ := h.exists_budget
  obtain ⟨values, hfills, ha⟩ := hw.standsFor_record_iff.1 h
  obtain ⟨_, hread, hother⟩ := hfills.exists_of_getElem? hf
  obtain ⟨b, b', hR, rfl, hread'⟩ := scanned_field_replaced hnull hv
    (hw.isPart_of_mem List.mem_append_cons_self) (hw'.isPart_of_mem List.mem_append_cons_self) hread
  obtain ⟨values', hfills', hexchanged⟩ := hother v' _ hread'
  obtain ⟨a', ha', hQ⟩ := hbuild b b' values values' a hR hexchanged ha
  exact ⟨a', hw'.standsFor_record_iff.2 ⟨values', hfills', ha'⟩, hQ⟩

end

/-! ### Items of a list, entries of a table -/

/-- A list stands for what its items stand for, each alone. -/
theorem ArrayText.standsFor_list_iff {item : Shape} {items : List String} {values : List item.Value}
    (h : ArrayText items text) :
    StandsFor (budget + 1) (.list item) text values ↔
      List.Forall₂ (fun w a => scanned (ofText budget item w.toList) = some (a, [])) items values := by
  cases h with
  | @brackets before w blanks after hbefore hitems hblanks hafter =>
    have htext : skipBlanks (before ++ '[' :: (w ++ (blanks ++ ']' :: after))) =
        '[' :: (w ++ (blanks ++ ']' :: after)) := hbefore.skipBlanks rfl
    have hend : skipBlanks (after ++ []) = [] := hafter.skipBlanks_append
    rw [List.append_nil] at hend
    have hitem := readsValues_ofText budget item
    constructor
    · rintro ⟨rest, hscanned, -⟩
      cases scanned_ofText_iff.1 hscanned with
      | list htext' hvalues =>
        cases htext.symm.trans htext'
        exact ((hitems.elementsRead_iff hitem hblanks).1 hvalues).2
    · intro hvalues
      refine ⟨after, scanned_ofText_iff.2 (.list htext ?_), hend⟩
      exact (hitems.elementsRead_iff hitem hblanks).2 ⟨rfl, hvalues⟩

section
variable {item : Shape} {R : item.Value → item.Value → Prop}
  (hv : ∀ budget b, StandsFor budget item v.toList b →
    ∃ b', StandsFor budget item v'.toList b' ∧ R b b')
include hv

/-- An item of a list. -/
theorem ArrayText.standsFor_list_replaced {front back : List String} {values : List item.Value}
    (hw : ArrayText (front ++ v :: back) text) (hw' : ArrayText (front ++ v' :: back) text')
    (h : StandsFor budget (.list item) text values) :
    ∃ values', StandsFor budget (.list item) text' values' ∧
      ListExchanged front.length R values values' := by
  obtain ⟨rest, hread, hrest⟩ := id h
  cases scanned_ofText_iff.1 hread with
  | @list inner =>
    have hpart := hw.isPart_of_mem List.mem_append_cons_self
    have hpart' := hw'.isPart_of_mem List.mem_append_cons_self
    obtain ⟨front', b, back', rfl, hlength, hb, -, hother⟩ :=
      exists_of_forall₂_append (hw.standsFor_list_iff.1 h)
    obtain ⟨b', hb', hR⟩ := hv inner b (hpart.standsFor_iff.2 hb)
    have hvalues := hother v' b' (hpart'.standsFor_iff.1 hb')
    exact ⟨_, hw'.standsFor_list_iff.2 hvalues, .item hlength hR⟩

/-- An entry of a table. -/
theorem ObjectText.standsFor_table_replaced {key : String} {front back : List (String × String)}
    {entries : List (String × item.Value)} (hw : ObjectText (front ++ (key, v) :: back) text)
    (hw' : ObjectText (front ++ (key, v') :: back) text')
    (h : StandsFor budget (.table item) text entries) :
    ∃ entries', StandsFor budget (.table item) text' entries' ∧
      TableExchanged key (back.map Prod.fst) R entries entries' := by
  obtain ⟨rest, hread, hrest⟩ := id h
  cases scanned_ofText_iff.1 hread with
  | @table inner =>
    obtain ⟨pairs, hpairs, rfl⟩ := chain_entryRead_iff.1 (hw.standsFor_table_iff.1 h)
    have hpart := hw.isPart_of_mem List.mem_append_cons_self
    have hpart' := hw'.isPart_of_mem List.mem_append_cons_self
    obtain ⟨front', ⟨_, b⟩, back', rfl, -, ⟨rfl, hb⟩, hback, hother⟩ := exists_of_forall₂_append hpairs
    have hkeys := keys_eq_of_forall₂ (fun _ _ hentry => hentry.1) hback
    obtain ⟨b', hb', hR⟩ := hv inner b (hpart.standsFor_iff.2 hb)
    have hpairs' := hother (key, v') (key, b') ⟨rfl, hpart'.standsFor_iff.1 hb'⟩
    exact ⟨_, hw'.standsFor_table_iff.2 (chain_entryRead_iff.2 ⟨_, hpairs', rfl⟩),
      .entry hkeys.symm hR⟩

end

end

/-! ## Values -/

section
variable {kind : RecordKind} {f : Field} {v v' w w' : Json.Value}

/-- A value that is not null is read into a field as what it stands for. -/
theorem reads_field_iff (hnull : v ≠ .null) {a : f.Value} :
    f.Reads (some v) a ↔ ∃ b, Reads f.shape v b ∧ a = f.put b := by
  constructor
  · intro h
    cases f with
    | required | optional =>
      cases h with
      | present h => exact ⟨a, h, rfl⟩
    | nullable =>
      cases h with
      | null => exact absurd rfl hnull
      | present h => exact ⟨_, h, rfl⟩
  · rintro ⟨b, h, rfl⟩
    cases f with
    | required => exact RequiredOf.present h
    | optional => exact OptionalOf.present h
    | nullable => exact NullableOf.present h

/-- Fields are read as before if the same stands in them, and one is read from what stands there now. -/
theorem FieldsRead.exchanged {place i : Nat} {fields : List Field} {values : Filled fields}
    (h : FieldsRead w place fields values) (hf : fields[i]? = some f)
    (hother : ∀ j g, fields[j]? = some g → j ≠ i →
      w'.field? (place + j) g.key = w.field? (place + j) g.key) :
    ∃ a, f.Reads (w.field? (place + i) f.key) a ∧
      ∀ a', f.Reads (w'.field? (place + i) f.key) a' →
        ∃ values', FieldsRead w' place fields values' ∧ Exchanged fields f a a' values values' := by
  induction fields generalizing place i with
  | nil => cases hf
  | cons g fields ih =>
    obtain ⟨b, values⟩ := values
    obtain ⟨hb, hvalues⟩ := h
    have hnext (j : Nat) : place + (j + 1) = place + 1 + j := by omega
    cases i with
    | zero =>
      cases hf
      refine ⟨b, hb, fun a' ha' => ⟨(a', values), ⟨ha', hvalues.imp fun j k hk c hc => ?_⟩, .here⟩⟩
      rwa [← hnext, hother (j + 1) k hk (Nat.succ_ne_zero j), hnext]
    | succ i =>
      obtain ⟨a, ha, hreplaced⟩ := ih hvalues hf fun j k hk hj => by
        rw [← hnext]
        exact hother (j + 1) k hk (by omega)
      refine ⟨a, hnext i ▸ ha, fun a' ha' => ?_⟩
      obtain ⟨values', hvalues', hexchanged⟩ := hreplaced a' (hnext i ▸ ha')
      have hfirst := hother 0 g rfl (Nat.succ_ne_zero i).symm
      exact ⟨(b, values'), ⟨hfirst ▸ hb, hvalues'⟩, .later hexchanged⟩

/-- A record whose keys are known has a member with the key of a field only once. -/
theorem lookup_member {front back : List (String × Json.Value)}
    (h : Json.Value.IsRecord (kind.fields.map Field.key) (.object (front ++ (f.key, v) :: back)))
    (hf : f ∈ kind.fields) : (front ++ (f.key, v) :: back).lookup f.key = some v := by
  have hcount := h f.key (List.mem_map_of_mem hf)
  rw [List.map_append, List.map_cons, List.count_append, List.count_cons_self] at hcount
  have hfront : f.key ∉ front.map Prod.fst := by
    rw [← List.count_eq_zero]
    omega
  rw [List.lookup_eq_some_iff]
  refine ⟨front, back, rfl, ?_⟩
  rintro ⟨other, u⟩ hmem
  rw [bne_iff_ne]
  rintro rfl
  exact hfront (List.mem_map_of_mem hmem)

section
variable {R : f.shape.Value → f.shape.Value → Prop} {Q : kind.Value → kind.Value → Prop}
  (hnull : v ≠ .null) (hv : ∀ b, Reads f.shape v b → ∃ b', Reads f.shape v' b' ∧ R b b')
  (hbuild : kind.Extends f R Q)
include hnull hv hbuild

/-- A record in which something else stands in one field. -/
theorem Reads.replaced {i : Nat} {a : kind.Value} (h : Reads (.record kind) w a)
    (hf : kind.fields[i]? = some f) (hrecord : w'.IsRecord (kind.fields.map Field.key))
    (hw : w.field? i f.key = some v) (hw' : w'.field? i f.key = some v')
    (hother : ∀ j g, kind.fields[j]? = some g → j ≠ i → w'.field? j g.key = w.field? j g.key) :
    ∃ a', Reads (.record kind) w' a' ∧ Q a a' := by
  obtain ⟨-, values, hvalues, ha⟩ := reads_record_iff.1 h
  obtain ⟨x, hx, hreplaced⟩ := hvalues.exchanged hf (by simpa only [Nat.zero_add] using hother)
  rw [Nat.zero_add, hw] at hx
  rw [Nat.zero_add, hw'] at hreplaced
  obtain ⟨b, hb, rfl⟩ := (reads_field_iff hnull).1 hx
  obtain ⟨b', hb', hR⟩ := hv b hb
  have hnull' : v' ≠ .null := by
    rintro rfl
    exact not_reads_null hb'
  obtain ⟨values', hvalues', hexchanged⟩ := hreplaced _ ((reads_field_iff hnull').2 ⟨b', hb', rfl⟩)
  obtain ⟨a', ha', hQ⟩ := hbuild b b' values values' a hR hexchanged ha
  exact ⟨a', reads_record_iff.2 ⟨hrecord, values', hvalues', ha'⟩, hQ⟩

/-- A field of a record that is an object. -/
theorem Reads.replaced_member {front back : List (String × Json.Value)} {a : kind.Value}
    (hf : f ∈ kind.fields) (h : Reads (.record kind) (.object (front ++ (f.key, v) :: back)) a) :
    ∃ a', Reads (.record kind) (.object (front ++ (f.key, v') :: back)) a' ∧ Q a a' := by
  obtain ⟨i, hi⟩ := List.mem_iff_getElem?.1 hf
  have hkeys := (reads_record_iff.1 h).1
  have hkeys' : Json.Value.IsRecord (kind.fields.map Field.key)
      (.object (front ++ (f.key, v') :: back)) := by
    intro key hkey
    rw [map_fst_replaced]
    exact hkeys key hkey
  refine Reads.replaced hnull hv hbuild h hi hkeys' (lookup_member hkeys hf)
    (lookup_member hkeys' hf) fun j g hg hj => ?_
  rcases lookup_replaced front back f.key g.key v v' with heq | ⟨hkey, -, -⟩
  · exact heq.symm
  · -- Only one field has this key.
    obtain rfl := List.inj_on_of_nodup_map (nodup_keys kind) (List.mem_of_getElem? hg) hf hkey
    have hlt := (List.getElem?_eq_some_iff.1 hg).1
    exact absurd ((List.getElem?_inj hlt (nodup_keys kind).of_map).1 (hg.trans hi.symm)) hj

/-- A field of a record that is an array. -/
theorem Reads.replaced_place {front back : List Json.Value} {a : kind.Value}
    (hf : kind.fields[front.length]? = some f)
    (h : Reads (.record kind) (.array (front ++ v :: back)) a) :
    ∃ a', Reads (.record kind) (.array (front ++ v' :: back)) a' ∧ Q a a' := by
  have hlength : (front ++ v' :: back).length = (front ++ v :: back).length := by simp
  refine Reads.replaced hnull hv hbuild h hf ?_ (by simp) (by simp) fun j g hg hj => ?_
  · show (front ++ v' :: back).length ≤ _
    rw [hlength]
    exact (reads_record_iff.1 h).1
  · rw [Json.Value.field?_array, Json.Value.field?_array, List.getElem?_append, List.getElem?_append]
    split
    · rfl
    · rw [List.getElem?_cons, List.getElem?_cons, if_neg (by omega), if_neg (by omega)]

end

end

/-! ## Both forms of documents -/

/-- A form that documents come in: which parts are objects, arrays and null, and what a part stands
for. Texts also have a budget for how deeply they may be nested. -/
structure Form (α : Type) where
  object : List (String × α) → α → Prop
  array : List α → α → Prop
  null : α → Prop
  standsFor : (budget : Nat) → (shape : Shape) → α → shape.Value → Prop

/-- Documents as texts. -/
def Form.texts : Form String where
  object members w := ObjectText members w.toList
  array items w := ArrayText items w.toList
  null w := ∃ left, skipBlanks w.toList = 'n' :: left
  standsFor budget shape w := StandsFor budget shape w.toList

/-- Documents as JSON values. -/
def Form.values : Form Json.Value where
  object members v := v = .object members
  array items v := v = .array items
  null v := v = .null
  standsFor _ shape v := Reads shape v

section
variable {α : Type} (F : Form α)

/-- Two records that differ in one field only. -/
inductive InField (kind : RecordKind) (f : Field) (v v' : α) : α → α → Prop
  | member {front back : List (String × α)} {w w' : α} : f ∈ kind.fields →
      F.object (front ++ (f.key, v) :: back) w → F.object (front ++ (f.key, v') :: back) w' →
      InField kind f v v' w w'
  | place {front back : List α} {w w' : α} : kind.fields[front.length]? = some f →
      F.array (front ++ v :: back) w → F.array (front ++ v' :: back) w' →
      InField kind f v v' w w'

/-- Two lists that differ in the item with this number only. -/
inductive InItem (number : Nat) (v v' : α) : α → α → Prop
  | item {front back : List α} {w w' : α} : front.length = number →
      F.array (front ++ v :: back) w → F.array (front ++ v' :: back) w' → InItem number v v' w w'

/-- Two tables that differ in an entry of this key only, with these keys after it. -/
inductive InEntry (key : String) (later : List String) (v v' : α) : α → α → Prop
  | entry {front back : List (String × α)} {w w' : α} : back.map Prod.fst = later →
      F.object (front ++ (key, v) :: back) w → F.object (front ++ (key, v') :: back) w' →
      InEntry key later v v' w w'

/-- One part may be put in the place of another: if the other stands for something, it stands for
something, too, and the two are related like this. -/
structure Replaces (shape : Shape) (v v' : α) (R : shape.Value → shape.Value → Prop) : Prop where
  /-- The part is not null, which would mean that there is none. -/
  ne_null : ¬F.null v
  standsFor : ∀ budget a, F.standsFor budget shape v a → ∃ a', F.standsFor budget shape v' a' ∧ R a a'

/-- In this form, a whole document may be put in the place of another one when a part may. -/
structure Form.Lawful : Prop where
  field {kind : RecordKind} {f : Field} {v v' w w' : α} {R : f.shape.Value → f.shape.Value → Prop}
      {Q : kind.Value → kind.Value → Prop} :
    InField F kind f v v' w w' → Replaces F f.shape v v' R → kind.Extends f R Q →
      Replaces F (.record kind) w w' Q
  item {item : Shape} {number : Nat} {v v' w w' : α} {R : item.Value → item.Value → Prop} :
    InItem F number v v' w w' → Replaces F item v v' R →
      Replaces F (.list item) w w' (ListExchanged number R)
  entry {item : Shape} {key : String} {later : List String} {v v' w w' : α}
      {R : item.Value → item.Value → Prop} :
    InEntry F key later v v' w w' → Replaces F item v v' R →
      Replaces F (.table item) w w' (TableExchanged key later R)

end

/-! ### Texts are lawful -/

theorem ObjectText.not_null {members : List (String × String)} {text : List Char}
    (h : ObjectText members text) : ¬∃ left, skipBlanks text = 'n' :: left := by
  rintro ⟨left, hnull⟩
  obtain ⟨inside, -, htext, -⟩ := h.exists_inside
  cases htext.symm.trans hnull

theorem ArrayText.not_null {items : List String} {text : List Char} (h : ArrayText items text) :
    ¬∃ left, skipBlanks text = 'n' :: left := by
  rintro ⟨left, hnull⟩
  cases h with
  | brackets hbefore => cases (hbefore.skipBlanks rfl).symm.trans hnull

theorem Form.lawful_texts : Form.texts.Lawful where
  field := by
    intro kind f v v' w w' R Q hin hv hbuild
    have hnull : ∀ left, skipBlanks v.toList ≠ 'n' :: left := fun left h => hv.ne_null ⟨left, h⟩
    cases hin with
    | member hf hw hw' =>
      exact ⟨ObjectText.not_null hw, fun budget a h =>
        ObjectText.standsFor_replaced hnull hv.standsFor hbuild hw hw' hf h⟩
    | place hf hw hw' =>
      exact ⟨ArrayText.not_null hw, fun budget a h =>
        ArrayText.standsFor_replaced hnull hv.standsFor hbuild hw hw' hf h⟩
  item := by
    intro item number v v' w w' R hin hv
    obtain ⟨rfl, hw, hw'⟩ := hin
    exact ⟨ArrayText.not_null hw, fun budget a h =>
      ArrayText.standsFor_list_replaced hv.standsFor hw hw' h⟩
  entry := by
    intro item key later v v' w w' R hin hv
    obtain ⟨rfl, hw, hw'⟩ := hin
    exact ⟨ObjectText.not_null hw, fun budget a h =>
      ObjectText.standsFor_table_replaced hv.standsFor hw hw' h⟩

/-! ### Values are lawful -/

theorem Form.lawful_values : Form.values.Lawful where
  field := by
    intro kind f v v' w w' R Q hin hv hbuild
    have hreads : ∀ b, Reads f.shape v b → ∃ b', Reads f.shape v' b' ∧ R b b' := hv.standsFor 0
    cases hin with
    | member hf hw hw' =>
      obtain rfl : w = _ := hw
      obtain rfl : w' = _ := hw'
      exact ⟨nofun, fun budget a h => Reads.replaced_member hv.ne_null hreads hbuild hf h⟩
    | place hf hw hw' =>
      obtain rfl : w = _ := hw
      obtain rfl : w' = _ := hw'
      exact ⟨nofun, fun budget a h => Reads.replaced_place hv.ne_null hreads hbuild hf h⟩
  item := by
    intro item number v v' w w' R hin hv
    obtain ⟨rfl, hw, hw'⟩ := hin
    obtain rfl : w = _ := hw
    obtain rfl : w' = _ := hw'
    refine ⟨nofun, fun budget a h => ?_⟩
    cases reads_list_iff.1 h with
    | array hitems =>
      obtain ⟨front', b, back', rfl, hlength, hb, -, hother⟩ := exists_of_forall₂_append hitems
      obtain ⟨b', hb', hR⟩ := hv.standsFor budget b hb
      exact ⟨_, reads_list_iff.2 (.array (hother _ b' hb')), .item hlength hR⟩
  entry := by
    intro item key later v v' w w' R hin hv
    obtain ⟨rfl, hw, hw'⟩ := hin
    obtain rfl : w = _ := hw
    obtain rfl : w' = _ := hw'
    refine ⟨nofun, fun budget a h => ?_⟩
    cases reads_table_iff.1 h with
    | object hentries =>
      obtain ⟨front', _, back', rfl, -, ⟨hb⟩, hback, hother⟩ := exists_of_forall₂_append hentries
      obtain ⟨b', hb', hR⟩ := hv.standsFor budget _ hb
      have hentries' := hother (key, v') (key, b') (.member hb')
      exact ⟨_, reads_table_iff.2 (.object hentries'), .entry (keys_of_forall₂ hback).symm hR⟩

end Document

end BlockCircuit
