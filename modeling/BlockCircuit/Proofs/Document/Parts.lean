import BlockCircuit.Proofs.Document.Readings
import BlockCircuit.Proofs.Json.Passing

/-!
# Parts of documents on their own

A part of a document is read out of the middle of a text. It would be read in the same way if it stood
alone, or in another document, or less deep inside one: what surrounds it has no say, as long as the
budget suffices. And it ends where one would get to by passing over it.

* `StoreRead`, `TupleRead`, `PartRead` — how fields, records and all shapes are read;
* `scanned_ofText_iff` — that they are read in this way;
* `skipsTo_ofText` — a part ends where passing over it ends;
* `framed_ofText` — a part is read in the same way before another rest and with a larger budget;
* `readsValues_ofText`, `readsValues_field`, `readsValues_store`, `readsValues_entry` — so each reader
  reads the text of a value as it stands alone.
-/

namespace BlockCircuit

open Json (Scan Look Value scanned looked coming ended skipBlanks ElementFollows ElementsRead
  MembersRun ScalarRead SkipsTo Framed Delimited IsValueText)

namespace Document

variable {text rest : List Char}

/-! ## Fields -/

section
variable {read : Reader}

theorem scanned_nullable_iff {key : String} {shape : Shape} {a : Option shape.Value} :
    scanned ((Field.nullable key shape).ofTextWith read text) = some (a, rest) ↔
      (skipBlanks text = 'n' :: 'u' :: 'l' :: 'l' :: rest ∧ a = none) ∨
        (∀ left, skipBlanks text ≠ 'n' :: left) ∧
          ∃ value, scanned (read shape text) = some (value, rest) ∧ a = some value := by
  by_cases hn : ∃ left, skipBlanks text = 'n' :: left
  · obtain ⟨left, hn⟩ := hn
    constructor
    · intro h
      left
      rw [Field.ofTextWith] at h
      split at h
      · rename_i left' hskip
        obtain ⟨-, rfl⟩ := List.cons.inj (hn.symm.trans hskip)
        obtain ⟨_, h⟩ := Json.scanned_eq_some_iff.1 h
        obtain ⟨r, hword, h⟩ := bind_eq_ok_iff.1 h
        cases h
        have hletters := (Json.looked_readWord_iff (π := Problem)).1
          (Json.looked_eq_some_iff.2 ⟨r.noLonger, hword⟩)
        exact ⟨hn.trans (congrArg (List.cons 'n') hletters), rfl⟩
      · rename_i hother
        exact absurd hn (hother _)
    · rintro (⟨hnull, rfl⟩ | ⟨hother, -⟩)
      · exact scanned_nullable_null hnull
      · exact absurd hn (hother left)
  · have hother : ∀ left, skipBlanks text ≠ 'n' :: left := fun left h => hn ⟨left, h⟩
    rw [scanned_nullable_other hother, Option.map_eq_some_iff]
    constructor
    · rintro ⟨⟨value, left⟩, hread, h⟩
      cases h
      exact .inr ⟨hother, value, hread, rfl⟩
    · rintro (⟨hnull, -⟩ | ⟨-, value, hread, rfl⟩)
      · exact absurd hnull (hother _)
      · exact ⟨(value, rest), hread, rfl⟩

/-- How the value of a key is read: into the slot of its field, if that is free. It is passed over if
there is no such field. -/
inductive StoreRead (read : Reader) (key : String) : (fields : List Field) → Slots fields →
    (text : List Char) → Slots fields → (rest : List Char) → Prop
  | unknown {text rest : List Char} :
      looked (Json.skipValue text : Look Problem Unit text) = some ((), rest) →
        StoreRead read key [] () text () rest
  | field {f : Field} {fields : List Field} {slots : Slots fields} {a : f.Value}
      {text rest : List Char} :
      f.key = key → scanned (f.ofTextWith read text) = some (a, rest) →
        StoreRead read key (f :: fields) (none, slots) text (some a, slots) rest
  | later {f : Field} {fields : List Field} {slot : Option f.Value} {slots slots' : Slots fields}
      {text rest : List Char} :
      f.key ≠ key → StoreRead read key fields slots text slots' rest →
        StoreRead read key (f :: fields) (slot, slots) text (slot, slots') rest

theorem readsMember_storeText {fields : List Field} :
    Json.ReadsMember (storeText read fields) fun key => StoreRead read key fields := by
  intro key slots text slots' rest
  constructor
  · intro h
    induction fields with
    | nil =>
      obtain ⟨_, h⟩ := Json.scanned_eq_some_iff.1 h
      obtain ⟨colon, hcolon, h⟩ := bind_eq_ok_iff.1 h
      obtain ⟨r, hskip, h⟩ := bind_eq_ok_iff.1 h
      cases h
      have hcolon := (Json.scanned_readColon_iff (π := Problem)).1
        (Json.scanned_eq_some_iff.2 ⟨colon.shorter, hcolon⟩)
      exact ⟨colon.rest, hcolon, .unknown (Json.looked_eq_some_iff.2 ⟨r.noLonger, hskip⟩)⟩
    | cons f fields ih =>
      obtain ⟨slot, slots⟩ := slots
      rw [storeText.eq_def] at h
      dsimp only at h
      by_cases hkey : f.key = key
      · rw [if_pos hkey] at h
        cases slot with
        | some _ => cases h
        | none =>
          dsimp only at h
          rw [Json.scanned_map, Option.map_eq_some_iff] at h
          obtain ⟨⟨a, left⟩, hread, h⟩ := h
          cases h
          obtain ⟨value, hcolon, hread⟩ := Json.scanned_afterColon_iff.1 hread
          exact ⟨value, hcolon, .field hkey hread⟩
      · rw [if_neg hkey, Json.scanned_map, Option.map_eq_some_iff] at h
        obtain ⟨⟨slots', left⟩, hread, h⟩ := h
        cases h
        obtain ⟨value, hcolon, hstore⟩ := ih slots slots' hread
        exact ⟨value, hcolon, .later hkey hstore⟩
  · rintro ⟨value, hcolon, h⟩
    induction h with
    | unknown hskip =>
      obtain ⟨_, hcolon⟩ :=
        Json.scanned_eq_some_iff.1 ((Json.scanned_readColon_iff (π := Problem)).2 hcolon)
      obtain ⟨_, hskip⟩ := Json.looked_eq_some_iff.1 hskip
      rw [storeText, hcolon]
      dsimp only [bind, Except.bind]
      rw [hskip]
      rfl
    | field hkey hread =>
      rw [storeText.eq_def]
      dsimp only
      rw [if_pos hkey, Json.scanned_map, Json.scanned_afterColon_iff.2 ⟨_, hcolon, hread⟩]
      rfl
    | later hkey _ ih =>
      rw [storeText.eq_def]
      dsimp only
      rw [if_neg hkey, Json.scanned_map, ih hcolon]
      rfl

/-! ## Records that are written as arrays -/

/-- How the items of a record are read, up to the bracket after them. -/
inductive TupleRead (read : Reader) (kind : RecordKind) : (number : Nat) → (fields : List Field) →
    (text : List Char) → Filled fields → (rest : List Char) → Prop
  | full {number : Nat} {text rest : List Char} :
      skipBlanks text = ']' :: rest → TupleRead read kind number [] text () rest
  | short {number : Nat} {f : Field} {fields : List Field} {values : Filled (f :: fields)}
      {text rest : List Char} :
      skipBlanks text = ']' :: rest → fillRest kind number (f :: fields) = .ok values →
        TupleRead read kind number (f :: fields) text values rest
  | item {number : Nat} {f : Field} {fields : List Field} {a : f.Value} {values : Filled fields}
      {text next middle rest : List Char} :
      ElementFollows (decide (number = 0)) text next →
        scanned (f.ofTextWith read next) = some (a, middle) →
          TupleRead read kind (number + 1) fields middle values rest →
            TupleRead read kind number (f :: fields) text (a, values) rest

theorem looked_closed_tupleText_iff {kind : RecordKind} {number : Nat} {fields : List Field}
    {values : Filled fields} :
    looked (Json.closed Json.closeArray (tupleText read kind number fields text)) =
        some (values, rest) ↔ TupleRead read kind number fields text values rest := by
  constructor
  · intro h
    obtain ⟨after, hlook, hclose⟩ := Json.looked_closed_eq_some_iff.1 h
    induction fields generalizing number text with
    | nil =>
      cases hlook
      exact .full (Json.ended_closeArray_iff.1 hclose)
    | cons f fields ih =>
      rw [looked_tupleText_cons, Option.bind_eq_some_iff] at hlook
      obtain ⟨⟨comes, next⟩, hcoming, hlook⟩ := hlook
      rcases Json.coming_nextElement_cases hcoming with ⟨rfl, left, htext, rfl⟩ | ⟨rfl, hfollows⟩
      · obtain ⟨filled, hfill, hlook⟩ := Option.map_eq_some_iff.1 hlook
        cases hlook
        have hleft := Json.ended_closeArray_iff.1 hclose
        cases (Json.skipBlanks_of_eq htext).symm.trans hleft
        cases hfilled : fillRest kind number (f :: fields) with
        | error problem =>
          rw [hfilled] at hfill
          cases hfill
        | ok values =>
          rw [hfilled] at hfill
          cases hfill
          exact .short htext hfilled
      · obtain ⟨⟨a, middle⟩, hread, hlook⟩ := Option.bind_eq_some_iff.1 hlook
        obtain ⟨⟨later, after'⟩, hlater, hlook⟩ := Option.map_eq_some_iff.1 hlook
        cases hlook
        have hclosed := Json.looked_closed_eq_some_iff.2 ⟨_, hlater, hclose⟩
        exact .item hfollows hread (ih hclosed hlater)
  · intro h
    induction h with
    | full htext =>
      exact Json.looked_closed_eq_some_iff.2 ⟨_, rfl, Json.ended_closeArray_iff.2 htext⟩
    | short htext hfill =>
      have hclose := Json.ended_closeArray_iff.2 (Json.skipBlanks_of_eq htext)
      refine Json.looked_closed_eq_some_iff.2 ⟨_, ?_, hclose⟩
      rw [looked_tupleText_cons, Json.coming_nextElement_close htext]
      dsimp only [Option.bind_some]
      rw [hfill]
      rfl
    | item hfollows hread _ ih =>
      obtain ⟨after, hlater, hclose⟩ := Json.looked_closed_eq_some_iff.1 ih
      refine Json.looked_closed_eq_some_iff.2 ⟨after, ?_, hclose⟩
      rw [looked_tupleText_cons, Json.coming_nextElement_item hfollows]
      dsimp only [Option.bind_some]
      rw [hread, Option.bind_some, hlater]
      rfl

end

/-! ## All shapes -/

/-- How the value of a key is read into a table. -/
inductive EntryRead (budget : Nat) (item : Shape) (key : String)
    (entries : List (String × item.Value)) (text : List Char) :
    List (String × item.Value) → (rest : List Char) → Prop
  | entry {a : item.Value} {rest : List Char} :
      scanned (ofText budget item text) = some (a, rest) →
        EntryRead budget item key entries text (insertEntry entries key a) rest

/-- How a part of a document is read, from its shape and its first character. -/
inductive PartRead : (budget : Nat) → (shape : Shape) → (text : List Char) → shape.Value →
    (rest : List Char) → Prop
  | text {budget : Nat} {text after rest : List Char} {s : String} :
      skipBlanks text = '"' :: after →
        scanned (Json.readString after : Scan Problem String after) = some (s, rest) →
          PartRead budget .text text s rest
  | pinValue {budget : Nat} {text after rest : List Char} {c : Char} {v : Value} {a : String} :
      skipBlanks text = c :: after → c ≠ '[' → c ≠ '\x7b' → ScalarRead Problem (c :: after) v rest →
        pinValueOf v = .ok a → PartRead budget .pinValue text a rest
  | list {budget : Nat} {item : Shape} {text inside rest : List Char} {values : List item.Value} :
      skipBlanks text = '[' :: inside →
        ElementsRead (fun t a r => scanned (ofText budget item t) = some (a, r)) true inside values
          (']' :: rest) →
          PartRead (budget + 1) (.list item) text values rest
  | table {budget : Nat} {item : Shape} {text inside rest : List Char}
      {entries : List (String × item.Value)} :
      skipBlanks text = '\x7b' :: inside →
        MembersRun Problem (EntryRead budget item) true [] inside entries ('\x7d' :: rest) →
          PartRead (budget + 1) (.table item) text entries rest
  | items {budget : Nat} {kind : RecordKind} {text inside rest : List Char}
      {values : Filled kind.fields} {a : kind.Value} :
      skipBlanks text = '[' :: inside →
        TupleRead (ofText budget) kind 0 kind.fields inside values rest → kind.build values = .ok a →
          PartRead (budget + 1) (.record kind) text a rest
  | members {budget : Nat} {kind : RecordKind} {text inside rest : List Char}
      {slots : Slots kind.fields} {values : Filled kind.fields} {a : kind.Value} :
      skipBlanks text = '\x7b' :: inside →
        MembersRun Problem (fun key => StoreRead (ofText budget) key kind.fields) true
          (Slots.empty kind.fields) inside slots ('\x7d' :: rest) →
          complete kind.fields slots = .ok values → kind.build values = .ok a →
            PartRead (budget + 1) (.record kind) text a rest

section
variable {budget : Nat} {shape : Shape} {c : Char} {left : List Char}

theorem scanned_ofText_nil (h : skipBlanks text = []) :
    scanned (ofText budget shape text) = none := by
  rw [ofText.eq_def]
  split
  · rfl
  · rename_i hskip
    cases h.symm.trans hskip

/-- Without a budget no array or object is read. -/
theorem scanned_ofText_zero (shape : Shape) (hpin : shape ≠ .pinValue)
    (h : skipBlanks text = c :: left) (hc : c = '[' ∨ c = '\x7b') : scanned (ofText 0 shape text) = none := by
  by_cases hbegins : shape.begins c = true
  · rw [ofText.eq_def]
    split
    · rfl
    · rename_i hskip
      cases h.symm.trans hskip
      cases shape with
      | text => rcases hc with rfl | rfl <;> cases hbegins
      | pinValue => exact absurd rfl hpin
      | list item =>
        dsimp only
        rw [if_pos (of_decide_eq_true hbegins)]
        rfl
      | table item =>
        dsimp only
        rw [if_pos (of_decide_eq_true hbegins)]
        rfl
      | record kind =>
        dsimp only
        rw [if_pos hc]
        rfl
  · exact scanned_ofText_refused h (Bool.eq_false_iff.2 hbegins)

theorem looked_tableText_iff {item : Shape} {entries : List (String × item.Value)} :
    looked (tableText (ofText budget) item text) = some (entries, rest) ↔
      MembersRun Problem (EntryRead budget item) true [] text entries ('\x7d' :: rest) := by
  rw [tableText]
  apply Json.looked_closed_readMembers_iff
  intro key entries t entries' r
  rw [Json.scanned_map, Option.map_eq_some_iff]
  constructor
  · rintro ⟨⟨a, left⟩, hread, h⟩
    cases h
    obtain ⟨value, hcolon, hread⟩ := Json.scanned_afterColon_iff.1 hread
    exact ⟨value, hcolon, .entry hread⟩
  · rintro ⟨value, hcolon, h⟩
    cases h with
    | @entry a _ hread =>
      exact ⟨(a, r), Json.scanned_afterColon_iff.2 ⟨value, hcolon, hread⟩, rfl⟩

/-- What is done with a result at the end. -/
theorem bind_toOption_eq_some_iff {α β : Type} {found : Option (α × List Char)}
    {finish : α → Except Problem β} {b : β} :
    (found.bind fun r => (finish r.1).toOption.map fun b => (b, r.2)) = some (b, rest) ↔
      ∃ a, found = some (a, rest) ∧ finish a = .ok b := by
  rw [Option.bind_eq_some_iff]
  constructor
  · rintro ⟨⟨a, left⟩, hfound, h⟩
    obtain ⟨b', hfinish, h⟩ := Option.map_eq_some_iff.1 h
    cases h
    exact ⟨a, hfound, toOption_eq_some_iff.1 hfinish⟩
  · rintro ⟨a, hfound, hfinish⟩
    refine ⟨(a, rest), hfound, ?_⟩
    rw [toOption_eq_some_iff.2 hfinish]
    rfl

theorem looked_recordText_iff {kind : RecordKind} {asArray : Bool} {a : kind.Value} :
    looked (recordText (ofText budget) kind asArray text) = some (a, rest) ↔
      ∃ values, looked (if asArray then
          Json.closed Json.closeArray (tupleText (ofText budget) kind 0 kind.fields text)
        else Json.closed Json.closeObject (membersText (ofText budget) kind.fields text)) =
          some (values, rest) ∧ kind.build values = .ok a := by
  rw [looked_recordText_eq, bind_toOption_eq_some_iff]

theorem looked_closed_membersText_iff {fields : List Field} {values : Filled fields} :
    looked (Json.closed Json.closeObject (membersText (ofText budget) fields text)) =
        some (values, rest) ↔
      ∃ slots, MembersRun Problem (fun key => StoreRead (ofText budget) key fields) true
        (Slots.empty fields) text slots ('\x7d' :: rest) ∧ complete fields slots = .ok values := by
  have hmembers {after : List Char} :
      looked (membersText (ofText budget) fields text) = some (values, after) ↔
        ∃ slots, looked (Json.readMembers (storeText (ofText budget) fields) true
          (Slots.empty fields) text) = some (slots, after) ∧ complete fields slots = .ok values := by
    rw [looked_membersText_eq, bind_toOption_eq_some_iff]
  have hrun {slots : Slots fields} :
      looked (Json.closed Json.closeObject (Json.readMembers (storeText (ofText budget) fields) true
        (Slots.empty fields) text)) = some (slots, rest) ↔
        MembersRun Problem (fun key => StoreRead (ofText budget) key fields) true
          (Slots.empty fields) text slots ('\x7d' :: rest) :=
    Json.looked_closed_readMembers_iff readsMember_storeText
  simp only [← hrun, Json.looked_closed_eq_some_iff, hmembers]
  constructor
  · rintro ⟨after, ⟨slots, hread, hcomplete⟩, hclose⟩
    exact ⟨slots, ⟨after, hread, hclose⟩, hcomplete⟩
  · rintro ⟨slots, ⟨after, hread, hclose⟩, hcomplete⟩
    exact ⟨after, ⟨slots, hread, hcomplete⟩, hclose⟩

theorem scanned_ofText_iff {a : shape.Value} :
    scanned (ofText budget shape text) = some (a, rest) ↔ PartRead budget shape text a rest := by
  constructor
  · intro h
    cases hskip : skipBlanks text with
    | nil => cases (scanned_ofText_nil hskip).symm.trans h
    | cons c left =>
      by_cases hbegins : shape.begins c = true
      · cases shape with
        | text =>
          obtain rfl := of_decide_eq_true hbegins
          rw [scanned_ofText_text hskip] at h
          exact .text hskip h
        | pinValue =>
          rw [scanned_ofText_pinValue hskip, bind_toOption_eq_some_iff] at h
          obtain ⟨v, hread, hpin⟩ := h
          cases Json.scanned_readValue_iff.1 hread with
          | array | object => cases hpin
          | scalar htext harray hobject hscalar =>
            cases hskip.symm.trans htext
            exact .pinValue hskip harray hobject hscalar hpin
        | list item =>
          obtain rfl := of_decide_eq_true hbegins
          cases budget with
          | zero =>
            rw [scanned_ofText_zero (.list item) (by simp) hskip (.inl rfl)] at h
            cases h
          | succ budget =>
            rw [scanned_ofText_list hskip, Json.looked_closed_readElements_iff] at h
            exact .list hskip h
        | table item =>
          obtain rfl := of_decide_eq_true hbegins
          cases budget with
          | zero =>
            rw [scanned_ofText_zero (.table item) (by simp) hskip (.inr rfl)] at h
            cases h
          | succ budget =>
            rw [scanned_ofText_table hskip] at h
            exact .table hskip (looked_tableText_iff.1 h)
        | record kind =>
          have hc : c = '[' ∨ c = '\x7b' := by simpa [Shape.begins] using hbegins
          cases budget with
          | zero =>
            rw [scanned_ofText_zero (.record kind) (by simp) hskip hc] at h
            cases h
          | succ budget =>
            rw [scanned_ofText_record hskip hc] at h
            obtain ⟨values, hvalues, hbuild⟩ := looked_recordText_iff.1 h
            rcases hc with rfl | rfl
            · exact .items hskip (looked_closed_tupleText_iff.1 hvalues) hbuild
            · obtain ⟨slots, hrun, hcomplete⟩ := looked_closed_membersText_iff.1 hvalues
              exact .members hskip hrun hcomplete hbuild
      · rw [scanned_ofText_refused hskip (Bool.eq_false_iff.2 hbegins)] at h
        cases h
  · intro h
    cases h with
    | text htext hread => rw [scanned_ofText_text htext, hread]
    | pinValue htext harray hobject hscalar hpin =>
      rw [scanned_ofText_pinValue htext, bind_toOption_eq_some_iff]
      exact ⟨_, Json.scanned_readValue_iff.2 (.scalar htext harray hobject hscalar), hpin⟩
    | list htext h =>
      rw [scanned_ofText_list htext]
      exact Json.looked_closed_readElements_iff.2 h
    | table htext h =>
      rw [scanned_ofText_table htext]
      exact looked_tableText_iff.2 h
    | items htext h hbuild =>
      rw [scanned_ofText_record htext (.inl rfl)]
      exact looked_recordText_iff.2 ⟨_, looked_closed_tupleText_iff.2 h, hbuild⟩
    | members htext h hcomplete hbuild =>
      rw [scanned_ofText_record htext (.inr rfl)]
      exact looked_recordText_iff.2 ⟨_, looked_closed_membersText_iff.2 ⟨_, h, hcomplete⟩, hbuild⟩

end

/-! ## Where a part ends -/

section
variable {read : Reader}
  (hread : ∀ {shape : Shape} {text : List Char} {a : shape.Value} {rest : List Char},
    scanned (read shape text) = some (a, rest) → SkipsTo Problem text rest)
include hread

theorem skipsTo_field {f : Field} {a : f.Value}
    (h : scanned (f.ofTextWith read text) = some (a, rest)) : SkipsTo Problem text rest := by
  cases f with
  | required key shape => exact hread h
  | optional key shape default => exact hread h
  | nullable key shape =>
    rcases scanned_nullable_iff.1 h with ⟨hnull, -⟩ | ⟨-, value, hvalue, -⟩
    · intro stack
      have hskip : scanned (Json.skipScalar ('n' :: 'u' :: 'l' :: 'l' :: rest) :
          Scan Problem Unit _) = some ((), rest) := Json.scanned_skipScalar_iff.2 .null
      exact Json.looked_skipOpen_scalar hnull (by decide) (by decide) hskip
    · exact hread hvalue

theorem StoreRead.skipsTo {key : String} {fields : List Field} {slots slots' : Slots fields}
    (h : StoreRead read key fields slots text slots' rest) : SkipsTo Problem text rest := by
  induction h with
  | unknown hskip => exact Json.skipsTo_of_skipValue hskip
  | field _ hvalue => exact skipsTo_field hread hvalue
  | later _ _ ih => exact ih

theorem TupleRead.elementsRead {kind : RecordKind} {number : Nat} {fields : List Field}
    {values : Filled fields} (h : TupleRead read kind number fields text values rest) :
    ∃ items : List Unit, ElementsRead (fun t _ r => SkipsTo Problem t r) (decide (number = 0)) text
      items (']' :: rest) := by
  induction h with
  | full htext => exact ⟨[], .close htext⟩
  | short htext => exact ⟨[], .close htext⟩
  | item hfollows hvalue _ ih =>
    obtain ⟨items, hitems⟩ := ih
    exact ⟨() :: items, .item hfollows (skipsTo_field hread hvalue) hitems⟩

end

theorem PartRead.skipsTo {budget : Nat} {shape : Shape} {a : shape.Value}
    (hread : ∀ {budget' : Nat}, budget = budget' + 1 →
      ∀ {shape : Shape} {text : List Char} {a : shape.Value} {rest : List Char},
        scanned (ofText budget' shape text) = some (a, rest) → SkipsTo Problem text rest)
    (h : PartRead budget shape text a rest) : SkipsTo Problem text rest := by
  have hblanks {next middle text : List Char} (h : SkipsTo Problem next middle)
      (hskip : skipBlanks text = skipBlanks next) : SkipsTo Problem text middle :=
    h.of_skipBlanks hskip
  have hclose {c : Char} (hc : Json.isBlank c = false) : skipBlanks (c :: rest) = c :: rest :=
    Json.skipBlanks_of_not_blank hc
  cases h with
  | text htext hstring =>
    intro stack
    have hskip := Json.scanned_skipScalar_iff.2 (.string (Json.scanned_skipString hstring))
    exact Json.looked_skipOpen_scalar htext (by decide) (by decide) hskip
  | pinValue htext harray hobject hscalar =>
    intro stack
    exact Json.looked_skipOpen_scalar htext harray hobject hscalar.scanned_skipScalar
  | list htext helements =>
    exact Json.skipsTo_array (fun h hskip => hblanks (hread rfl h) hskip) htext helements
      (hclose rfl)
  | table htext hentries =>
    obtain ⟨members, hmembers⟩ := hentries.membersRead (V := fun t (_ : Unit) r => SkipsTo Problem t r)
      fun (.entry hvalue) => ⟨(), hread rfl hvalue⟩
    exact Json.skipsTo_object hblanks htext hmembers (hclose rfl)
  | items htext hitems =>
    obtain ⟨items, helements⟩ := hitems.elementsRead (hread rfl)
    exact Json.skipsTo_array hblanks htext helements (hclose rfl)
  | members htext hrun =>
    obtain ⟨members, hmembers⟩ := hrun.membersRead (V := fun t (_ : Unit) r => SkipsTo Problem t r)
      fun h => ⟨(), h.skipsTo (hread rfl)⟩
    exact Json.skipsTo_object hblanks htext hmembers (hclose rfl)

/-- A part ends where one gets to by passing over it. -/
theorem skipsTo_ofText {budget : Nat} {shape : Shape} {a : shape.Value}
    (h : scanned (ofText budget shape text) = some (a, rest)) : SkipsTo Problem text rest := by
  induction budget generalizing shape text rest with
  | zero => exact (scanned_ofText_iff.1 h).skipsTo fun hzero => absurd hzero (by simp)
  | succ budget ih =>
    refine (scanned_ofText_iff.1 h).skipsTo ?_
    rintro budget' ⟨⟩
    exact ih

/-! ## Other surroundings -/

/-- A part is never null. -/
theorem ne_null_of_read {budget : Nat} {shape : Shape} {a : shape.Value}
    (h : scanned (ofText budget shape text) = some (a, rest)) (left : List Char) :
    skipBlanks text ≠ 'n' :: left := by
  intro hn
  cases scanned_ofText_iff.1 h with
  | text htext | list htext | table htext | items htext | members htext =>
    cases hn.symm.trans htext
  | pinValue htext _ _ hscalar hpin =>
    cases hscalar with
    | null => cases hpin
    | true | false => cases hpin
    | string => cases hn.symm.trans htext
    | number hc =>
      have hletter := (List.cons.inj (htext.symm.trans hn)).1
      exact Json.ne_of_number hc (by decide) (by decide) hletter

/-- What one reader reads, another one reads in the same way before other rests. -/
def ReadsFramed (read read' : Reader) : Prop :=
  ∀ {shape : Shape} {text : List Char} {a : shape.Value} {rest : List Char},
    scanned (read shape text) = some (a, rest) → Delimited rest →
      Framed Delimited (fun t r => scanned (read' shape t) = some (a, r)) text rest

section
variable {read : Reader} {budget : Nat} (hread : ReadsFramed read (ofText budget))
include hread

theorem framed_field {f : Field} {a : f.Value}
    (h : scanned (f.ofTextWith read text) = some (a, rest)) (hrest : Delimited rest) :
    Framed Delimited (fun t r => scanned (f.ofTextWith (ofText budget) t) = some (a, r)) text rest := by
  cases f with
  | required key shape => exact hread h hrest
  | optional key shape default => exact hread h hrest
  | nullable key shape =>
    rcases scanned_nullable_iff.1 h with ⟨hnull, rfl⟩ | ⟨-, value, hvalue, rfl⟩
    · have hletters : Framed Delimited (fun t r => t = 'u' :: 'l' :: 'l' :: r)
          ('u' :: 'l' :: 'l' :: rest) rest := ⟨['u', 'l', 'l'], by simp, rfl, fun _ _ => rfl⟩
      refine (Json.framed_skipBlanks hnull).then hletters ?_
      rintro t m r hnull rfl
      exact scanned_nullable_iff.2 (.inl ⟨hnull, rfl⟩)
    · refine (hread hvalue hrest).imp ?_
      intro t r hvalue
      exact scanned_nullable_iff.2 (.inr ⟨ne_null_of_read hvalue, value, hvalue, rfl⟩)

theorem StoreRead.framed {key : String} {fields : List Field} {slots slots' : Slots fields}
    (h : StoreRead read key fields slots text slots' rest) (hrest : Delimited rest) :
    Framed Delimited (fun t r => StoreRead (ofText budget) key fields slots t slots' r) text rest := by
  induction h with
  | unknown hskip => exact (Json.framed_skipValue hskip hrest).imp .unknown
  | field hkey hvalue => exact (framed_field hread hvalue hrest).imp (.field hkey)
  | later hkey _ ih => exact (ih hrest).imp (.later hkey)

omit hread in
theorem TupleRead.delimited {kind : RecordKind} {number : Nat} {fields : List Field}
    {values : Filled fields} (h : TupleRead read kind (number + 1) fields text values rest) :
    Delimited text := by
  cases h with
  | full htext | short htext => exact Json.delimited_of_skipBlanks htext rfl
  | item hfollows =>
    have hlater : decide (number + 1 = 0) = false := rfl
    rw [hlater] at hfollows
    cases hfollows with
    | further htext => exact Json.delimited_of_skipBlanks htext rfl

theorem TupleRead.framed {kind : RecordKind} {number : Nat} {fields : List Field}
    {values : Filled fields} (h : TupleRead read kind number fields text values rest) :
    Framed Json.Anything (fun t r => TupleRead (ofText budget) kind number fields t values r) text
      rest := by
  induction h with
  | full htext => exact (Json.framed_skipBlanks htext).imp .full
  | short htext hfill => exact (Json.framed_skipBlanks htext).imp (.short · hfill)
  | @item number f fields a values _ next middle rest hfollows hvalue hrest ih =>
    have hitems : Framed Json.Anything (fun t r => ∃ m,
        scanned (f.ofTextWith (ofText budget) t) = some (a, m) ∧
          TupleRead (ofText budget) kind (number + 1) fields m values r) next rest :=
      (framed_field hread hvalue hrest.delimited).seq ih (fun h _ => h.delimited)
        fun h h' => ⟨_, h, h'⟩
    refine hfollows.framed hitems ?_
    rintro t n r hfollows ⟨m, hvalue, hrest⟩
    exact .item hfollows hvalue hrest

end

theorem PartRead.framed {budget budget' : Nat} {shape : Shape} {a : shape.Value}
    (hbudget : budget ≤ budget')
    (hread : ∀ {b b' : Nat}, budget = b + 1 → budget' = b' + 1 → ReadsFramed (ofText b) (ofText b'))
    (h : PartRead budget shape text a rest) (hrest : Delimited rest) :
    Framed Delimited (fun t r => PartRead budget' shape t a r) text rest := by
  cases h with
  | text htext hstring =>
    exact (Json.framed_skipBlanks htext).then (Json.framed_readString hstring).anywhere .text
  | pinValue htext harray hobject hscalar hpin =>
    refine (hscalar.framed hrest).afterBlanks htext ?_
    intro t l r htext hscalar
    exact .pinValue htext harray hobject hscalar hpin
  | @list _ item _ inside _ values htext helements =>
    obtain ⟨budget', rfl⟩ := Nat.exists_eq_add_of_le' (Nat.le_trans (Nat.le_add_left 1 _) hbudget)
    have hinside : Framed Json.Anything (fun t r => ElementsRead
        (fun t a r => scanned (ofText budget' item t) = some (a, r)) true t values (']' :: r))
        inside rest :=
      helements.framed (fun h hr => hread rfl rfl h hr) rfl
    exact (Json.framed_skipBlanks htext).then hinside.anywhere .list
  | @table _ item _ inside _ entries htext hentries =>
    obtain ⟨budget', rfl⟩ := Nat.exists_eq_add_of_le' (Nat.le_trans (Nat.le_add_left 1 _) hbudget)
    have hinside : Framed Json.Anything (fun t r => MembersRun Problem (EntryRead budget' item) true []
        t entries ('\x7d' :: r)) inside rest :=
      hentries.framed (fun (.entry hvalue) hr => (hread rfl rfl hvalue hr).imp .entry) rfl
    exact (Json.framed_skipBlanks htext).then hinside.anywhere .table
  | items htext hitems hbuild =>
    obtain ⟨budget', rfl⟩ := Nat.exists_eq_add_of_le' (Nat.le_trans (Nat.le_add_left 1 _) hbudget)
    have hitems := hitems.framed (hread rfl rfl)
    exact (Json.framed_skipBlanks htext).then hitems.anywhere (.items · · hbuild)
  | @members _ kind _ inside _ slots _ _ htext hrun hcomplete hbuild =>
    obtain ⟨budget', rfl⟩ := Nat.exists_eq_add_of_le' (Nat.le_trans (Nat.le_add_left 1 _) hbudget)
    have hinside : Framed Json.Anything (fun t r => MembersRun Problem
        (fun key => StoreRead (ofText budget') key kind.fields) true (Slots.empty kind.fields) t slots
        ('\x7d' :: r)) inside rest :=
      hrun.framed (fun h hr => h.framed (hread rfl rfl) hr) rfl
    exact (Json.framed_skipBlanks htext).then hinside.anywhere (.members · · hcomplete hbuild)

/-- A part is read in the same way before another rest, and with a larger budget. -/
theorem framed_ofText {budget budget' : Nat} (hbudget : budget ≤ budget') :
    ReadsFramed (ofText budget) (ofText budget') := by
  induction budget generalizing budget' with
  | zero =>
    intro shape text a rest h hrest
    refine ((scanned_ofText_iff.1 h).framed hbudget ?_ hrest).imp scanned_ofText_iff.2
    intro b b' hzero
    exact absurd hzero (by simp)
  | succ budget ih =>
    intro shape text a rest h hrest
    refine ((scanned_ofText_iff.1 h).framed hbudget ?_ hrest).imp scanned_ofText_iff.2
    rintro b b' ⟨⟩ rfl
    exact ih (Nat.le_of_succ_le_succ hbudget)

/-! ## Readers of values -/

/-- Blanks before a part do not count. -/
theorem PartRead.of_skipBlanks {budget : Nat} {shape : Shape} {a : shape.Value} {other : List Char}
    (h : PartRead budget shape other a rest) (hskip : skipBlanks text = skipBlanks other) :
    PartRead budget shape text a rest := by
  cases h with
  | text htext hstring => exact .text (hskip.trans htext) hstring
  | pinValue htext harray hobject hscalar hpin =>
    exact .pinValue (hskip.trans htext) harray hobject hscalar hpin
  | list htext h => exact .list (hskip.trans htext) h
  | table htext h => exact .table (hskip.trans htext) h
  | items htext h hbuild => exact .items (hskip.trans htext) h hbuild
  | members htext h hcomplete hbuild => exact .members (hskip.trans htext) h hcomplete hbuild

theorem readsValues_ofText (budget : Nat) (shape : Shape) (a : shape.Value) :
    Json.ReadsValues Problem fun t r => scanned (ofText budget shape t) = some (a, r) where
  blanks hskip h := scanned_ofText_iff.2 ((scanned_ofText_iff.1 h).of_skipBlanks hskip)
  skipsTo := skipsTo_ofText
  framed := framed_ofText (Nat.le_refl budget)

theorem readsValues_field (budget : Nat) (f : Field) (a : f.Value) :
    Json.ReadsValues Problem fun t r => scanned (f.ofTextWith (ofText budget) t) = some (a, r) where
  blanks {text other rest} hskip h := by
    cases f with
    | required key shape => exact (readsValues_ofText budget shape a).blanks hskip h
    | optional key shape default => exact (readsValues_ofText budget shape a).blanks hskip h
    | nullable key shape =>
      apply scanned_nullable_iff.2
      rcases scanned_nullable_iff.1 h with ⟨hnull, ha⟩ | ⟨hother, value, hvalue, ha⟩
      · exact .inl ⟨hskip.trans hnull, ha⟩
      · refine .inr ⟨?_, value, (readsValues_ofText budget shape value).blanks hskip hvalue, ha⟩
        intro left hn
        exact hother left (hskip.symm.trans hn)
  skipsTo := skipsTo_field skipsTo_ofText
  framed := framed_field (framed_ofText (Nat.le_refl budget))

theorem readsValues_store (budget : Nat) (fields : List Field) (key : String)
    (slots slots' : Slots fields) :
    Json.ReadsValues Problem fun t r => StoreRead (ofText budget) key fields slots t slots' r where
  blanks {text other rest} hskip h := by
    induction h with
    | unknown hvalue =>
      have hskips := (Json.skipsTo_of_skipValue hvalue).of_skipBlanks hskip
      exact .unknown (Json.looked_skipOpen_iff.2 hskips.skips)
    | field hkey hvalue => exact .field hkey ((readsValues_field budget _ _).blanks hskip hvalue)
    | later hkey _ ih => exact .later hkey (ih hskip)
  skipsTo h := h.skipsTo skipsTo_ofText
  framed h := h.framed (framed_ofText (Nat.le_refl budget))

theorem readsValues_entry (budget : Nat) (item : Shape) (key : String)
    (entries entries' : List (String × item.Value)) :
    Json.ReadsValues Problem fun t r => EntryRead budget item key entries t entries' r where
  blanks hskip := fun (.entry h) => .entry ((readsValues_ofText budget item _).blanks hskip h)
  skipsTo := fun (.entry h) => skipsTo_ofText h
  framed := fun (.entry h) hrest => (framed_ofText (Nat.le_refl budget) h hrest).imp .entry

end Document

end BlockCircuit
