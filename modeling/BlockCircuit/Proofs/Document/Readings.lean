import BlockCircuit.Document.OfText
import BlockCircuit.Document.OfValue
import BlockCircuit.Proofs.Json.Skipping

/-!
# Documents as text and as values

There are two ways to read a part of a document: out of a text, and out of the value that the text
stands for. They are built differently. A text is read once from front to back; the items of a record
that is written as an array are counted only when the array is closed, and the values of unknown keys
are skipped. Still they come to the same.

* `toOption_ofItems`, `toOption_ofTable`, `toOption_ofMembers` — items of values, one after another;
* `scanned_fieldOfText`, `scanned_storeText`, `looked_closed_tupleText` — fields, members and items of
  records;
* `readsAsValues_ofText` — where a value can be read, each shape comes to what the value comes to.
-/

namespace BlockCircuit

open Json (Scan Look Value scanned looked coming ended skipBlanks ElementFollows ElementsRead
  KeyFollows MembersRead ScalarRead ValueRead)

namespace Document

variable {text rest : List Char}

/-! ## Lists and tables of values -/

theorem toOption_ofItems (items : List Value) (item : Shape) :
    (ofItems items item).toOption = items.mapM fun v => (ofValue v item).toOption := by
  induction items with
  | nil => rfl
  | cons v items ih =>
    rw [ofItems, List.mapM_cons, ← ih, toOption_bind]
    refine congrArg _ (funext fun value => ?_)
    exact toOption_bind _

theorem toOption_ofTable (members : List (String × Value)) (item : Shape)
    (entries : List (String × item.Value)) :
    (ofTable members item entries).toOption =
      members.foldlM (fun entries member =>
        (ofValue member.2 item).toOption.map (insertEntry entries member.1)) entries := by
  induction members generalizing entries with
  | nil => rfl
  | cons member members ih =>
    obtain ⟨key, v⟩ := member
    rw [ofTable, List.foldlM_cons, toOption_bind]
    cases ofValue v item with
    | error problem => rfl
    | ok value => exact ih (insertEntry entries key value)

theorem toOption_ofMembers (members : List (String × Value)) (fields : List Field)
    (slots : Slots fields) :
    (ofMembers members fields slots).toOption =
      members.foldlM (fun slots member =>
        (store member.1 (Field.ofValueWith (isNull member.2) (ofValue member.2)) fields
          slots).toOption) slots := by
  induction members generalizing slots with
  | nil => rfl
  | cons member members ih =>
    obtain ⟨key, v⟩ := member
    rw [ofMembers, List.foldlM_cons, toOption_bind]
    cases store key (Field.ofValueWith (isNull v) (ofValue v)) fields slots with
    | error problem => rfl
    | ok slots => exact ih slots

/-! ## Fields -/

/-- Wherever a value can be read with this budget, the reader comes to what the value comes to, for
every shape. -/
def ReadsAsValues (budget : Nat) (read : Reader) : Prop :=
  ∀ {text v rest}, scanned (Json.readValue budget text : Scan Problem Value text) = some (v, rest) →
    ∀ shape, scanned (read shape text) = (ofValue v shape).toOption.map fun a => (a, rest)

section
variable {budget : Nat} {read : Reader} {v : Value}

/-- A text that begins with the letter of the null value can only be read as that. -/
theorem ne_of_not_null (h : ValueRead Problem budget text v rest) (hv : v ≠ .null)
    (left : List Char) : skipBlanks text ≠ 'n' :: left := by
  intro hn
  cases h with
  | array htext => cases htext.symm.trans hn
  | object htext => cases htext.symm.trans hn
  | scalar htext _ _ hscalar =>
    cases hscalar with
    | null => exact hv rfl
    | true => cases htext.symm.trans hn
    | false => cases htext.symm.trans hn
    | string => cases htext.symm.trans hn
    | number hc =>
      have hletter := (List.cons.inj (htext.symm.trans hn)).1
      exact Json.ne_of_number hc (by decide) (by decide) hletter

theorem skipBlanks_of_null (h : ValueRead Problem budget text .null rest) :
    skipBlanks text = 'n' :: 'u' :: 'l' :: 'l' :: rest := by
  cases h with
  | scalar htext _ _ hscalar =>
    generalize hnull : Value.null = v at hscalar
    cases hscalar with
    | null => exact htext
    | _ => cases hnull

theorem scanned_nullable_null {key : String} {shape : Shape}
    (h : skipBlanks text = 'n' :: 'u' :: 'l' :: 'l' :: rest) :
    scanned ((Field.nullable key shape).ofTextWith read text) = some (none, rest) := by
  rw [Field.ofTextWith]
  split
  · rename_i left hskip
    obtain ⟨-, rfl⟩ := List.cons.inj (h.symm.trans hskip)
    rfl
  · rename_i hother
    exact absurd h (hother _)

theorem scanned_nullable_other {key : String} {shape : Shape}
    (hn : ∀ left, skipBlanks text ≠ 'n' :: left) :
    scanned ((Field.nullable key shape).ofTextWith read text) =
      (scanned (read shape text)).map (Prod.map some id) := by
  rw [Field.ofTextWith]
  split
  · rename_i left hskip
    exact absurd hskip (hn left)
  · exact Json.scanned_map some

theorem scanned_fieldOfText (hread : ReadsAsValues budget read)
    (h : scanned (Json.readValue budget text : Scan Problem Value text) = some (v, rest))
    (f : Field) :
    scanned (f.ofTextWith read text) =
      (f.ofValueWith (isNull v) (ofValue v)).toOption.map fun a => (a, rest) := by
  cases f with
  | required key shape => exact hread h shape
  | optional key shape default => exact hread h shape
  | nullable key shape =>
    have hvalue := Json.scanned_readValue_iff.1 h
    by_cases hv : v = .null
    · subst hv
      exact scanned_nullable_null (skipBlanks_of_null hvalue)
    · have hnull : isNull v = false := by
        cases v with
        | null => exact absurd rfl hv
        | _ => rfl
      rw [scanned_nullable_other (ne_of_not_null hvalue hv), hread h shape, Field.ofValueWith, hnull,
        if_neg Bool.false_ne_true, toOption_map]
      cases (ofValue v shape).toOption <;> rfl

/-! ## Members and items of records -/

/-- The value of a key is stored where it is stored from a value; that of an unknown key is
skipped. -/
theorem scanned_storeText (hread : ReadsAsValues budget read) {key : String} {value : List Char}
    (hcolon : skipBlanks text = ':' :: value)
    (h : scanned (Json.readValue budget value : Scan Problem Value value) = some (v, rest))
    (fields : List Field) (slots : Slots fields) :
    scanned (storeText read fields key slots text) =
      (store key (Field.ofValueWith (isNull v) (ofValue v)) fields slots).toOption.map
        fun slots => (slots, rest) := by
  induction fields with
  | nil =>
    have hskip := Json.looked_skipValue (Json.scanned_readValue_iff.1 h)
    obtain ⟨_, hskip⟩ := Json.looked_eq_some_iff.1 hskip
    obtain ⟨_, hcolon⟩ := Json.scanned_eq_some_iff.1 ((Json.scanned_readColon_iff (π := Problem)).2 hcolon)
    rw [storeText, hcolon]
    dsimp only [bind, Except.bind]
    rw [hskip]
    rfl
  | cons f fields ih =>
    obtain ⟨slot, slots⟩ := slots
    rw [storeText.eq_def, store.eq_def]
    dsimp only
    by_cases hkey : f.key = key
    · rw [if_pos hkey, if_pos hkey]
      cases slot with
      | some _ => rfl
      | none =>
        dsimp only
        rw [Json.scanned_map, Json.scanned_afterColon,
          Json.scanned_readColon_iff.2 hcolon, Option.bind_some, scanned_fieldOfText hread h f,
          toOption_map]
        cases (f.ofValueWith (isNull v) (ofValue v)).toOption <;> rfl
    · rw [if_neg hkey, if_neg hkey, Json.scanned_map, ih slots, toOption_map]
      cases (store key (Field.ofValueWith (isNull v) (ofValue v)) fields slots).toOption <;> rfl

/-- The items of a record that is written as an array, one after another. -/
theorem looked_tupleText_cons {kind : RecordKind} {number : Nat} {f : Field} {fields : List Field} :
    looked (tupleText read kind number (f :: fields) text) =
      (coming (Json.nextElement (number = 0) text : Except (Json.Failure Problem) _)).bind fun
        | (none, rest) => (fillRest kind number (f :: fields)).toOption.map fun vs => (vs, rest)
        | (some (), rest) => (scanned (f.ofTextWith read rest)).bind fun r =>
            (looked (tupleText read kind (number + 1) fields r.2)).map
              fun rs => ((r.1, rs.1), rs.2) := by
  rw [tupleText]
  cases (Json.nextElement (number = 0) text : Except (Json.Failure Problem) _) with
  | error problem => rfl
  | ok next =>
    cases next with
    | close left h =>
      dsimp only [bind, Except.bind]
      cases fillRest kind number (f :: fields) <;> rfl
    | item _ left h =>
      dsimp only [bind, Except.bind]
      show looked _ = (scanned (f.ofTextWith read left)).bind _
      cases f.ofTextWith read left with
      | error problem => rfl
      | ok r =>
        dsimp only [scanned, Option.bind_some]
        cases tupleText read kind (number + 1) fields r.rest <;> rfl

/-- A record that is written as an array is read item by item. One with too many items is noticed
when the array cannot be closed. -/
theorem looked_closed_tupleText (hread : ReadsAsValues budget read) (kind : RecordKind)
    {items : List Value} {after : List Char} (length : Nat)
    (hclose : skipBlanks after = ']' :: rest) (fields : List Field) (number : Nat)
    (h : ElementsRead (fun t v r => scanned (Json.readValue budget t : Scan Problem Value t) =
      some (v, r)) (decide (number = 0)) text items after) :
    looked (Json.closed Json.closeArray (tupleText read kind number fields text)) =
      (ofTuple items length kind number fields).toOption.map fun vs => (vs, rest) := by
  induction fields generalizing number text items with
  | nil =>
    rw [Json.looked_closed, tupleText.eq_def]
    show (ended (Json.closeArray text)).map _ = _
    cases h with
    | close htext =>
      cases (Json.skipBlanks_of_eq htext).symm.trans hclose
      rw [Json.ended_closeArray_iff.2 htext, ofTuple.eq_def]
      rfl
    | item hfollows =>
      rw [Json.ended_closeArray_of_follows hfollows, ofTuple.eq_def]
      rfl
  | cons f fields ih =>
    rw [Json.looked_closed, looked_tupleText_cons]
    cases h with
    | close htext =>
      cases (Json.skipBlanks_of_eq htext).symm.trans hclose
      rw [Json.coming_nextElement_close htext, ofTuple.eq_def]
      dsimp only [Option.bind_some]
      cases (fillRest kind number (f :: fields)).toOption with
      | none => rfl
      | some values =>
        dsimp only [Option.map_some, Option.bind_some]
        rw [Json.ended_closeArray_iff.2 hclose]
        rfl
    | @item _ _ _ middle _ v items hfollows hitem hrest =>
      rw [Json.coming_nextElement_item hfollows]
      dsimp only [Option.bind_some]
      rw [scanned_fieldOfText hread hitem f, ofTuple.eq_def]
      dsimp only
      rw [toOption_bind]
      cases (f.ofValueWith (isNull v) (ofValue v)).toOption with
      | none => rfl
      | some value =>
        have hlater := ih (number + 1) hrest
        rw [Json.looked_closed] at hlater
        dsimp only [Option.map_some, Option.bind_some]
        have hfirst (later : Option (Filled fields × List Char)) :
            ((later.map fun rs => ((value, rs.1), rs.2)).bind fun r =>
              (ended (Json.closeArray r.2)).map fun left => (r.1, left)) =
            (later.bind fun r => (ended (Json.closeArray r.2)).map fun left => (r.1, left)).map
              fun rs => ((value, rs.1), rs.2) := by
          cases later with
          | none => rfl
          | some rs => cases hended : ended (Json.closeArray rs.2) <;> simp [hended]
        rw [hfirst, hlater, toOption_bind]
        cases (ofTuple items length kind (number + 1) fields).toOption <;> rfl

/-- The members of a record are read first, and then the fields that are absent are added. -/
theorem looked_membersText_eq {fields : List Field} :
    looked (membersText read fields text) =
      (looked (Json.readMembers (storeText read fields) true (Slots.empty fields) text)).bind fun r =>
        (complete fields r.1).toOption.map fun vs => (vs, r.2) := by
  rw [membersText]
  refine Json.looked_bind ?_
  intro r
  dsimp only
  cases complete fields r.value <;> rfl

/-- A record that is written as an object is read member by member. -/
theorem looked_membersText (hread : ReadsAsValues budget read) {fields : List Field}
    {members : List (String × Value)}
    (h : MembersRead Problem (fun t v r => scanned (Json.readValue budget t : Scan Problem Value t) =
      some (v, r)) true text members rest) :
    looked (membersText read fields text) =
      (do
        let slots ← ofMembers members fields (Slots.empty fields)
        complete fields slots).toOption.map fun vs => (vs, rest) := by
  have hmembers : looked (Json.readMembers (storeText read fields) true (Slots.empty fields) text) =
      (ofMembers members fields (Slots.empty fields)).toOption.map fun slots => (slots, rest) := by
    rw [toOption_ofMembers]
    refine Json.looked_readMembers_of h ?_
    intro key slots after value v middle hcolon hvalue
    exact scanned_storeText hread hcolon hvalue fields slots
  rw [toOption_bind, looked_membersText_eq, hmembers]
  cases (ofMembers members fields (Slots.empty fields)).toOption <;> rfl

/-- The fields of a record are read first, as an array or as an object, and then the record is put
together from them. -/
theorem looked_recordText_eq {kind : RecordKind} {asArray : Bool} :
    looked (recordText read kind asArray text) =
      (looked (if asArray then Json.closed Json.closeArray (tupleText read kind 0 kind.fields text)
        else Json.closed Json.closeObject (membersText read kind.fields text))).bind fun r =>
          (kind.build r.1).toOption.map fun a => (a, r.2) := by
  rw [recordText]
  split
  · refine Json.looked_bind ?_
    intro r
    dsimp only
    cases kind.build r.value <;> rfl
  · refine Json.looked_bind ?_
    intro r
    dsimp only
    cases kind.build r.value <;> rfl

/-- A record that can be read, as an array or as an object, is put together from what its fields come
to. -/
theorem looked_recordText {kind : RecordKind} {asArray : Bool} {values : Option (Filled kind.fields)}
    (hvalues : looked (if asArray then Json.closed Json.closeArray (tupleText read kind 0 kind.fields text)
      else Json.closed Json.closeObject (membersText read kind.fields text)) =
        values.map fun vs => (vs, rest)) :
    looked (recordText read kind asArray text) =
      (values.bind fun vs => (kind.build vs).toOption).map fun a => (a, rest) := by
  rw [looked_recordText_eq, hvalues]
  cases values <;> rfl

end

/-! ## All shapes -/

/-- The characters with which a text of a shape may begin. -/
def Shape.begins : Shape → Char → Bool
  | .text, c => c = '"'
  | .pinValue, _ => true
  | .list _, c => c = '['
  | .table _, c => c = '\x7b'
  | .record _, c => c = '[' || c = '\x7b'

theorem exists_refuseType {α : Type} (shape : Shape) (text : List Char) :
    ∃ f, (refuseType shape text : Except (Json.Failure Problem) α) = .error f := by
  rw [refuseType]
  split
  · exact ⟨_, rfl⟩
  · split
    · exact ⟨_, rfl⟩
    · split
      · exact ⟨_, rfl⟩
      · exact ⟨_, rfl⟩

section
variable {budget : Nat} {after inside : List Char} {c : Char}

/-- A text that begins otherwise is refused. -/
theorem scanned_ofText_refused {shape : Shape} (h : skipBlanks text = c :: after)
    (hc : shape.begins c = false) : scanned (ofText budget shape text) = none := by
  rw [Json.scanned_eq_none_iff, ofText.eq_def]
  split
  · rename_i hskip
    cases h.symm.trans hskip
  · rename_i hskip
    cases h.symm.trans hskip
    cases shape with
    | text =>
      dsimp only
      rw [if_neg (of_decide_eq_false hc)]
      exact exists_refuseType _ _
    | pinValue => cases hc
    | list item =>
      dsimp only
      rw [if_neg (of_decide_eq_false hc)]
      exact exists_refuseType _ _
    | table item =>
      dsimp only
      rw [if_neg (of_decide_eq_false hc)]
      exact exists_refuseType _ _
    | record kind =>
      dsimp only
      rw [if_neg (by simpa [Shape.begins] using hc)]
      exact exists_refuseType _ _

theorem scanned_ofText_text (h : skipBlanks text = '"' :: after) :
    scanned (ofText budget .text text) =
      scanned (Json.readString after : Scan Problem String after) := by
  rw [ofText.eq_def]
  split
  · rename_i hskip
    cases h.symm.trans hskip
  · rename_i hskip
    cases h.symm.trans hskip
    dsimp only
    rw [if_pos rfl]
    cases (Json.readString after : Scan Problem String after) <;> rfl

theorem scanned_ofText_pinValue (h : skipBlanks text = c :: after) :
    scanned (ofText budget .pinValue text) =
      (scanned (Json.readValue budget text : Scan Problem Value text)).bind fun r =>
        (pinValueOf r.1).toOption.map fun a => (a, r.2) := by
  rw [ofText.eq_def]
  split
  · rename_i hskip
    cases h.symm.trans hskip
  · dsimp only
    refine Json.scanned_bind ?_
    intro r
    dsimp only
    cases pinValueOf r.value <;> rfl

theorem scanned_ofText_list {item : Shape} (h : skipBlanks text = '[' :: inside) :
    scanned (ofText (budget + 1) (.list item) text) =
      looked (Json.closed Json.closeArray (Json.readElements (ofText budget item) true inside)) := by
  rw [ofText.eq_def]
  split
  · rename_i hskip
    cases h.symm.trans hskip
  · rename_i hskip
    cases h.symm.trans hskip
    dsimp only
    rw [if_pos rfl]
    cases (Json.closed Json.closeArray (Json.readElements (ofText budget item) true inside)) <;> rfl

theorem scanned_ofText_table {item : Shape} (h : skipBlanks text = '\x7b' :: inside) :
    scanned (ofText (budget + 1) (.table item) text) =
      looked (tableText (ofText budget) item inside) := by
  rw [ofText.eq_def]
  split
  · rename_i hskip
    cases h.symm.trans hskip
  · rename_i hskip
    cases h.symm.trans hskip
    dsimp only
    rw [if_pos rfl]
    cases tableText (ofText budget) item inside <;> rfl

theorem scanned_ofText_record {kind : RecordKind} (h : skipBlanks text = c :: inside)
    (hc : c = '[' ∨ c = '\x7b') :
    scanned (ofText (budget + 1) (.record kind) text) =
      looked (recordText (ofText budget) kind (c = '[') inside) := by
  rw [ofText.eq_def]
  split
  · rename_i hskip
    cases h.symm.trans hskip
  · rename_i hskip
    cases h.symm.trans hskip
    dsimp only
    rw [if_pos hc]
    cases recordText (ofText budget) kind (c = '[') inside <;> rfl

end

/-! ## Reading documents -/

section
variable {budget : Nat} {after inside : List Char}

/-- An array as a list. -/
theorem scanned_ofText_items (hread : ReadsAsValues budget (ofText budget)) {items : List Value}
    (item : Shape) (htext : skipBlanks text = '[' :: inside)
    (helements : ElementsRead (fun t v r =>
      scanned (Json.readValue budget t : Scan Problem Value t) = some (v, r)) true inside items after)
    (hclose : skipBlanks after = ']' :: rest) :
    scanned (ofText (budget + 1) (.list item) text) =
      (ofItems items item).toOption.map fun a => (a, rest) := by
  have hitems := Json.looked_readElements_of helements fun h => hread h item
  rw [scanned_ofText_list htext, toOption_ofItems]
  exact Json.looked_closed_of hitems (Json.ended_closeArray_iff.2 hclose)

/-- An array as a record. -/
theorem scanned_ofText_tuple (hread : ReadsAsValues budget (ofText budget)) {items : List Value}
    (kind : RecordKind) (htext : skipBlanks text = '[' :: inside)
    (helements : ElementsRead (fun t v r =>
      scanned (Json.readValue budget t : Scan Problem Value t) = some (v, r)) true inside items after)
    (hclose : skipBlanks after = ']' :: rest) :
    scanned (ofText (budget + 1) (.record kind) text) =
      (ofValue (.array items) (.record kind)).toOption.map fun a => (a, rest) := by
  have hvalues := looked_closed_tupleText hread kind items.length hclose kind.fields 0 helements
  have hrecord : looked (recordText (ofText budget) kind true inside) = _ := looked_recordText hvalues
  rw [ofValue.eq_def]
  dsimp only
  rw [toOption_bind, scanned_ofText_record htext (.inl rfl)]
  exact hrecord

/-- An object as a table. -/
theorem scanned_ofText_entries (hread : ReadsAsValues budget (ofText budget))
    {members : List (String × Value)} (item : Shape) (htext : skipBlanks text = '\x7b' :: inside)
    (hmembers : MembersRead Problem (fun t v r =>
      scanned (Json.readValue budget t : Scan Problem Value t) = some (v, r)) true inside members after)
    (hclose : skipBlanks after = '\x7d' :: rest) :
    scanned (ofText (budget + 1) (.table item) text) =
      (ofTable members item []).toOption.map fun a => (a, rest) := by
  have hentries : looked (Json.readMembers (fun key entries t =>
      (Json.afterColon (ofText budget item) t).map (·.map (insertEntry entries key))) true []
        inside : Look Problem (List (String × item.Value)) inside) =
      (ofTable members item []).toOption.map fun entries => (entries, after) := by
    rw [toOption_ofTable]
    refine Json.looked_readMembers_of hmembers ?_
    intro key entries colon value v middle hcolon hvalue
    rw [Json.scanned_map, Json.scanned_afterColon, Json.scanned_readColon_iff.2 hcolon,
      Option.bind_some, hread hvalue item]
    cases (ofValue v item).toOption <;> rfl
  rw [scanned_ofText_table htext]
  exact Json.looked_closed_of hentries (Json.ended_closeObject_iff.2 hclose)

/-- An object as a record. -/
theorem scanned_ofText_members (hread : ReadsAsValues budget (ofText budget))
    {members : List (String × Value)} (kind : RecordKind) (htext : skipBlanks text = '\x7b' :: inside)
    (hmembers : MembersRead Problem (fun t v r =>
      scanned (Json.readValue budget t : Scan Problem Value t) = some (v, r)) true inside members after)
    (hclose : skipBlanks after = '\x7d' :: rest) :
    scanned (ofText (budget + 1) (.record kind) text) =
      (ofValue (.object members) (.record kind)).toOption.map fun a => (a, rest) := by
  have hmembers : looked (membersText (ofText budget) kind.fields inside) = _ :=
    looked_membersText hread hmembers
  have hvalues := Json.looked_closed_of hmembers (Json.ended_closeObject_iff.2 hclose)
  have hrecord : looked (recordText (ofText budget) kind false inside) = _ := looked_recordText hvalues
  rw [ofValue.eq_def]
  dsimp only
  rw [← bind_assoc, toOption_bind, scanned_ofText_record htext (.inr rfl)]
  exact hrecord

/-- A pin value is read whole before it is looked at. -/
theorem scanned_ofText_pinValue_of {v : Value}
    (h : scanned (Json.readValue budget text : Scan Problem Value text) = some (v, rest)) :
    scanned (ofText budget .pinValue text) =
      (ofValue v .pinValue).toOption.map fun a => (a, rest) := by
  have hpin : ofValue v .pinValue = pinValueOf v := by cases v <;> rfl
  obtain ⟨c, left, htext⟩ := (Json.scanned_readValue_iff.1 h).begins
  rw [scanned_ofText_pinValue htext, h, hpin]
  rfl

/-- A word, a number or a string. -/
theorem scanned_ofText_scalar {v : Value} {c : Char} (shape : Shape) (hpin : shape ≠ .pinValue)
    (htext : skipBlanks text = c :: after) (harray : c ≠ '[') (hobject : c ≠ '\x7b')
    (hscalar : ScalarRead Problem (c :: after) v rest) :
    scanned (ofText budget shape text) = (ofValue v shape).toOption.map fun a => (a, rest) := by
  cases shape with
  | pinValue => exact absurd rfl hpin
  | list item =>
    have hbegins : (Shape.list item).begins c = false := decide_eq_false harray
    rw [scanned_ofText_refused htext hbegins]
    cases hscalar <;> rfl
  | table item =>
    have hbegins : (Shape.table item).begins c = false := decide_eq_false hobject
    rw [scanned_ofText_refused htext hbegins]
    cases hscalar <;> rfl
  | record kind =>
    have hbegins : (Shape.record kind).begins c = false := by simp [Shape.begins, harray, hobject]
    rw [scanned_ofText_refused htext hbegins]
    cases hscalar <;> rfl
  | text =>
    cases hscalar with
    | null | true | false =>
      rw [scanned_ofText_refused htext rfl]
      rfl
    | string hread =>
      rw [scanned_ofText_text htext, hread]
      rfl
    | number hc =>
      have hbegins : Shape.text.begins c = false :=
        decide_eq_false (Json.ne_of_number hc (by decide) (by decide))
      rw [scanned_ofText_refused htext hbegins]
      rfl

/-- Where a value can be read, a text comes to what the value comes to, for every shape. -/
theorem readsAsValues_ofText (budget : Nat) : ReadsAsValues budget (ofText budget) := by
  induction budget with
  | zero =>
    intro text v rest h shape
    by_cases hpin : shape = .pinValue
    · subst hpin
      exact scanned_ofText_pinValue_of h
    · cases Json.scanned_readValue_iff.1 h with
      | scalar htext harray hobject hscalar =>
        exact scanned_ofText_scalar shape hpin htext harray hobject hscalar
  | succ budget ih =>
    intro text v rest h shape
    by_cases hpin : shape = .pinValue
    · subst hpin
      exact scanned_ofText_pinValue_of h
    · cases Json.scanned_readValue_iff.1 h with
      | scalar htext harray hobject hscalar =>
        exact scanned_ofText_scalar shape hpin htext harray hobject hscalar
      | array htext helements hclose =>
        cases shape with
        | pinValue => exact absurd rfl hpin
        | list item => exact scanned_ofText_items ih item htext helements hclose
        | record kind => exact scanned_ofText_tuple ih kind htext helements hclose
        | text | table =>
          rw [scanned_ofText_refused htext rfl]
          rfl
      | object htext hmembers hclose =>
        cases shape with
        | pinValue => exact absurd rfl hpin
        | table item => exact scanned_ofText_entries ih item htext hmembers hclose
        | record kind => exact scanned_ofText_members ih kind htext hmembers hclose
        | text | list =>
          rw [scanned_ofText_refused htext rfl]
          rfl

end

end Document

end BlockCircuit
