import BlockCircuit.Proofs.Document.Parts
import BlockCircuit.Proofs.Json.Grammar
import BlockCircuit.Proofs.Json.Printing
import Mathlib.Data.List.Forall2

/-!
# Objects and arrays as texts of their parts

An object is written with its keys, and an array with commas, around texts that stand for themselves.
Here the texts of objects and arrays are described with the texts of their values left as they are, and
reading them is reading those texts one by one, each alone.

* `IsPart` — the text of a value without blanks around it;
* `MembersText`, `ObjectText`, `ItemsText`, `ArrayText` — objects and arrays of such texts;
* `Chain` — what changes a state step by step;
* `MembersText.run_iff`, `ItemsText.tupleRead_iff`, `ItemsText.elementsRead_iff` — their insides are read
  part by part;
* `StandsFor`, `ObjectText.standsFor_table_iff`, `ObjectText.standsFor_record_iff`,
  `ArrayText.standsFor_record_iff` — so tables and records stand for what their parts stand for;
* `StandsFor.exists_objectText`, `StandsFor.exists_objectText_or_arrayText` — tables and records have no
  other texts;
* `writtenObject`, `objectText_writtenObject`, `writtenArray`, `arrayText_writtenArray` — objects and
  arrays that are put together.
-/

namespace BlockCircuit

open Json (scanned skipBlanks MembersRun SkipsTo Delimited IsValueText ReadsValues Blanks Separator
  SpellsString KeyFollows ElementFollows ElementsRead)

namespace Document

variable {text rest : List Char}

/-! ## Texts of parts -/

/-- The text of a value, without blanks around it. Nothing is said of how deeply it is nested, nor of
how large its numbers are: it can be passed over. -/
structure IsPart (w : List Char) : Prop where
  bare : skipBlanks w = w
  whole : IsValueText Problem w

/-- Every text of a value is a part. -/
theorem isPart_of_spells {v : Json.Value} {w : List Char} (h : Json.Spells v w) : IsPart w where
  bare := by
    obtain ⟨c, left, rfl, hblank, -⟩ := h.begins
    exact Json.skipBlanks_of_not_blank hblank
  whole := Json.looked_skipValue (h.valueRead (Nat.le_refl v.depth))

/-- A part begins neither with a blank nor with the end of an array. -/
theorem IsPart.begins {w : List Char} (h : IsPart w) :
    ∃ c left, w = c :: left ∧ Json.isBlank c = false ∧ c ≠ ']' := by
  have hbegins {c : Char} {left : List Char} (hskip : skipBlanks w = c :: left) (hc : c ≠ ']') :
      ∃ c left, w = c :: left ∧ Json.isBlank c = false ∧ c ≠ ']' :=
    ⟨c, left, h.bare.symm.trans hskip, Json.isBlank_of_skipBlanks hskip, hc⟩
  cases Json.looked_skipOpen_iff.1 h.whole with
  | empty frame htext => exact hbegins htext (by cases frame <;> decide)
  | opened frame htext => exact hbegins htext (by cases frame <;> decide)
  | scalar htext _ _ hscalar =>
    refine hbegins htext ?_
    cases hscalar with
    | null | true | false | string => decide
    | number hc => exact Json.ne_of_number hc (by decide) (by decide)

/-- The members of an object, each a key and the text of its value, as they are written. -/
inductive MembersText : (first : Bool) → List (String × String) → List Char → Prop
  | nil {first : Bool} : MembersText first [] []
  | cons {first : Bool} {key w : String} {members : List (String × String)}
      {s k before after ws : List Char} :
      Separator first s → SpellsString key k → Blanks before → Blanks after → IsPart w.toList →
        MembersText false members ws →
          MembersText first ((key, w) :: members)
            (s ++ k ++ before ++ ':' :: after ++ w.toList ++ ws)

/-- The texts of an object with these members. -/
inductive ObjectText : List (String × String) → List Char → Prop
  | braces {members : List (String × String)} {before w blanks after : List Char} :
      Blanks before → MembersText true members w → Blanks blanks → Blanks after →
        ObjectText members (before ++ '\x7b' :: (w ++ (blanks ++ '\x7d' :: after)))

/-- The items of an array, each a text, as they are written. -/
inductive ItemsText : (first : Bool) → List String → List Char → Prop
  | nil {first : Bool} : ItemsText first [] []
  | cons {first : Bool} {w : String} {items : List String} {s ws : List Char} :
      Separator first s → IsPart w.toList → ItemsText false items ws →
        ItemsText first (w :: items) (s ++ w.toList ++ ws)

/-- The texts of an array with these items. -/
inductive ArrayText : List String → List Char → Prop
  | brackets {items : List String} {before w blanks after : List Char} :
      Blanks before → ItemsText true items w → Blanks blanks → Blanks after →
        ArrayText items (before ++ '[' :: (w ++ (blanks ++ ']' :: after)))

theorem MembersText.delimited {members : List (String × String)} {w : List Char}
    (h : MembersText false members w) (hrest : Delimited rest) : Delimited (w ++ rest) := by
  cases h with
  | nil => exact hrest
  | cons hs =>
    simp only [List.append_assoc]
    exact hs.delimited

theorem ItemsText.delimited {items : List String} {w : List Char} (h : ItemsText false items w)
    (hrest : Delimited rest) : Delimited (w ++ rest) := by
  cases h with
  | nil => exact hrest
  | cons hs =>
    simp only [List.append_assoc]
    exact hs.delimited

theorem MembersText.isPart_of_mem {first : Bool} {members : List (String × String)} {w : List Char}
    (h : MembersText first members w) {member : String × String} (hmember : member ∈ members) :
    IsPart member.2.toList := by
  induction h with
  | nil => exact absurd hmember List.not_mem_nil
  | cons _ _ _ _ hw _ ih =>
    rcases List.mem_cons.1 hmember with rfl | hmember
    · exact hw
    · exact ih hmember

theorem ObjectText.isPart_of_mem {members : List (String × String)} (h : ObjectText members text)
    {member : String × String} (hmember : member ∈ members) : IsPart member.2.toList := by
  cases h with
  | braces _ hmembers => exact hmembers.isPart_of_mem hmember

theorem ItemsText.isPart_of_mem {first : Bool} {items : List String} {w : List Char}
    (h : ItemsText first items w) {item : String} (hitem : item ∈ items) : IsPart item.toList := by
  induction h with
  | nil => exact absurd hitem List.not_mem_nil
  | cons _ hw _ ih =>
    rcases List.mem_cons.1 hitem with rfl | hitem
    · exact hw
    · exact ih hitem

theorem ArrayText.isPart_of_mem {items : List String} (h : ArrayText items text) {item : String}
    (hitem : item ∈ items) : IsPart item.toList := by
  cases h with
  | brackets _ hitems => exact hitems.isPart_of_mem hitem

/-- The first item of an array is the only item of another one. -/
theorem ArrayText.exists_singleton {w : String} {items : List String} (h : ArrayText (w :: items) text) :
    ∃ single : String, ArrayText [w] single.toList := by
  cases h with
  | @brackets before _ blanks after hbefore hitems hblanks hafter =>
    cases hitems with
    | @cons _ _ _ s _ hs hw =>
      refine ⟨String.ofList (before ++ '[' :: (s ++ w.toList ++ [] ++ (blanks ++ ']' :: after))), ?_⟩
      rw [String.toList_ofList]
      exact .brackets hbefore (.cons hs hw .nil) hblanks hafter

/-! ## Steps -/

/-- What changes a state step by step, once for each of some things. -/
inductive Chain {β σ : Type} (step : β → σ → σ → Prop) : List β → σ → σ → Prop
  | nil {state : σ} : Chain step [] state state
  | cons {b : β} {bs : List β} {state state' final : σ} :
      step b state state' → Chain step bs state' final → Chain step (b :: bs) state final

theorem chain_append_iff {β σ : Type} {step : β → σ → σ → Prop} {front back : List β}
    {state final : σ} :
    Chain step (front ++ back) state final ↔
      ∃ middle, Chain step front state middle ∧ Chain step back middle final := by
  induction front generalizing state with
  | nil =>
    constructor
    · intro h
      exact ⟨state, .nil, h⟩
    · rintro ⟨middle, hfront, hback⟩
      cases hfront
      exact hback
  | cons b front ih =>
    constructor
    · intro h
      cases h with
      | cons hstep hrest =>
        obtain ⟨middle, hfront, hback⟩ := ih.1 hrest
        exact ⟨middle, .cons hstep hfront, hback⟩
    · rintro ⟨middle, hfront, hback⟩
      cases hfront with
      | cons hstep hfront => exact .cons hstep (ih.2 ⟨middle, hfront, hback⟩)

/-- Steps that keep a state. -/
theorem chain_of_forall {β σ : Type} {step : β → σ → σ → Prop} {bs : List β} {state : σ}
    (h : ∀ b ∈ bs, step b state state) : Chain step bs state state := by
  induction bs with
  | nil => exact .nil
  | cons b bs ih =>
    rw [List.forall_mem_cons] at h
    exact .cons h.1 (ih h.2)

/-! ## Members of an object -/

section
variable {σ : Type} {R : String → σ → List Char → σ → List Char → Prop}

theorem not_close_of_keyFollows {first : Bool} {key : String} {after : List Char}
    (h : KeyFollows Problem first text key after) : skipBlanks text ≠ '\x7d' :: rest := by
  intro hclose
  have hcoming := (Json.coming_nextKey_item h).symm.trans (Json.coming_nextKey_close hclose)
  cases hcoming

theorem keyFollows_unique {first : Bool} {key key' : String} {after after' : List Char}
    (h : KeyFollows Problem first text key after) (h' : KeyFollows Problem first text key' after') :
    key = key' ∧ after = after' := by
  have hcoming := (Json.coming_nextKey_item h).symm.trans (Json.coming_nextKey_item h')
  cases hcoming
  exact ⟨rfl, rfl⟩

/-- What a member does to the state, if its value stands alone. -/
def StepAlone (R : String → σ → List Char → σ → List Char → Prop) (member : String × String)
    (state state' : σ) : Prop :=
  R member.1 state member.2.toList state' []

/-- Reading the members of an object is reading the text of each value alone. -/
theorem MembersText.run_iff
    (hR : ∀ key state state', ReadsValues Problem fun t r => R key state t state' r) {first : Bool}
    {members : List (String × String)} {w blanks left : List Char} {state final : σ}
    (h : MembersText first members w) (hblanks : Blanks blanks) :
    MembersRun Problem R first state (w ++ (blanks ++ '\x7d' :: rest)) final left ↔
      left = '\x7d' :: rest ∧ Chain (StepAlone R) members state final := by
  induction h generalizing state with
  | nil =>
    have htext : skipBlanks ([] ++ (blanks ++ '\x7d' :: rest)) = '\x7d' :: rest :=
      hblanks.skipBlanks rfl
    constructor
    · intro h
      cases h with
      | close hskip =>
        cases htext.symm.trans hskip
        exact ⟨rfl, .nil⟩
      | item hfollows => exact absurd htext (not_close_of_keyFollows hfollows)
    · rintro ⟨rfl, hchain⟩
      cases hchain
      exact .close htext
  | @cons first key w members s k before after ws hs hkey hbefore hafter hw hmembers ih =>
    have hend : Delimited (ws ++ (blanks ++ '\x7d' :: rest)) :=
      hmembers.delimited (hblanks.delimited (Json.delimited_cons rfl))
    have hcolon : skipBlanks (before ++ ':' :: (after ++ (w.toList ++ (ws ++ (blanks ++ '\x7d' :: rest)))))
        = ':' :: (after ++ (w.toList ++ (ws ++ (blanks ++ '\x7d' :: rest)))) :=
      hbefore.skipBlanks rfl
    have hvalue (state' : σ) := (hR key state state').iff_alone hafter hw.whole hend
    simp only [List.append_assoc, List.cons_append]
    have hfollows : KeyFollows Problem first (s ++ (k ++ (before ++ ':' :: (after ++ (w.toList ++
        (ws ++ (blanks ++ '\x7d' :: rest))))))) key _ := hs.keyFollows hkey
    constructor
    · intro h
      cases h with
      | close hskip => exact absurd hskip (not_close_of_keyFollows hfollows)
      | item hfollows' hcolon' hread hrun =>
        obtain ⟨rfl, rfl⟩ := keyFollows_unique hfollows hfollows'
        cases hcolon.symm.trans hcolon'
        obtain ⟨rfl, hstep⟩ := (hvalue _ _).1 hread
        obtain ⟨hleft, hchain⟩ := ih.1 hrun
        exact ⟨hleft, .cons hstep hchain⟩
    · rintro ⟨hleft, hchain⟩
      cases hchain with
      | cons hstep hchain =>
        exact .item hfollows hcolon ((hvalue _ _).2 ⟨rfl, hstep⟩) (ih.2 ⟨hleft, hchain⟩)

end

/-! ## Items of an array -/

/-- What the fields of a record are read as from texts that stand alone. -/
inductive FillsAlone (read : Reader) (kind : RecordKind) : (number : Nat) → (fields : List Field) →
    List String → Filled fields → Prop
  | full {number : Nat} : FillsAlone read kind number [] [] ()
  | short {number : Nat} {f : Field} {fields : List Field} {values : Filled (f :: fields)} :
      fillRest kind number (f :: fields) = .ok values →
        FillsAlone read kind number (f :: fields) [] values
  | item {number : Nat} {f : Field} {fields : List Field} {w : String} {items : List String}
      {a : f.Value} {values : Filled fields} :
      scanned (f.ofTextWith read w.toList) = some (a, []) →
        FillsAlone read kind (number + 1) fields items values →
          FillsAlone read kind number (f :: fields) (w :: items) (a, values)

theorem not_close_of_elementFollows {first : Bool} {next : List Char}
    (h : ElementFollows first text next) : skipBlanks text ≠ ']' :: rest := by
  intro hclose
  have hcoming := (Json.coming_nextElement_item (π := Problem) h).symm.trans
    (Json.coming_nextElement_close hclose)
  cases hcoming

theorem elementFollows_unique {first : Bool} {next next' : List Char}
    (h : ElementFollows first text next) (h' : ElementFollows first text next') : next = next' := by
  have hcoming := (Json.coming_nextElement_item (π := Problem) h).symm.trans
    (Json.coming_nextElement_item h')
  cases hcoming
  rfl

/-- A part follows what separates it from the part before. -/
theorem IsPart.elementFollows {first : Bool} {w s : List Char} (hw : IsPart w)
    (hs : Separator first s) (rest : List Char) :
    ElementFollows first (s ++ (w ++ rest)) (w ++ rest) := by
  obtain ⟨c, left, rfl, hblank, hc⟩ := hw.begins
  exact hs.elementFollows hblank hc

/-- Reading the items of a record is reading the text of each item alone. -/
theorem ItemsText.tupleRead_iff {budget number : Nat} {kind : RecordKind} {fields : List Field}
    {values : Filled fields} {first : Bool} {items : List String} {w blanks left : List Char}
    (h : ItemsText first items w) (hfirst : first = decide (number = 0)) (hblanks : Blanks blanks) :
    TupleRead (ofText budget) kind number fields (w ++ (blanks ++ ']' :: rest)) values left ↔
      left = rest ∧ FillsAlone (ofText budget) kind number fields items values := by
  induction h generalizing number fields with
  | nil =>
    have htext : skipBlanks ([] ++ (blanks ++ ']' :: rest)) = ']' :: rest := hblanks.skipBlanks rfl
    constructor
    · intro h
      cases h with
      | full hskip =>
        cases htext.symm.trans hskip
        exact ⟨rfl, .full⟩
      | short hskip hfill =>
        cases htext.symm.trans hskip
        exact ⟨rfl, .short hfill⟩
      | item hfollows => exact absurd htext (not_close_of_elementFollows hfollows)
    · rintro ⟨rfl, hfills⟩
      cases hfills with
      | full => exact .full htext
      | short hfill => exact .short htext hfill
  | @cons first w items s ws hs hw hitems ih =>
    have hend : Delimited (ws ++ (blanks ++ ']' :: rest)) :=
      hitems.delimited (hblanks.delimited (Json.delimited_cons rfl))
    have hvalue (f : Field) (a : f.Value) :=
      (readsValues_field budget f a).iff_alone Json.blanks_nil hw.whole hend
    have hfollows := hw.elementFollows hs (ws ++ (blanks ++ ']' :: rest))
    simp only [List.append_assoc]
    constructor
    · intro h
      cases h with
      | full hskip => exact absurd hskip (not_close_of_elementFollows hfollows)
      | short hskip => exact absurd hskip (not_close_of_elementFollows hfollows)
      | item hfollows' hread hrest =>
        rw [← hfirst] at hfollows'
        obtain rfl := elementFollows_unique hfollows hfollows'
        obtain ⟨rfl, halone⟩ := (hvalue _ _ _).1 hread
        obtain ⟨hleft, hfills⟩ := (ih rfl).1 hrest
        exact ⟨hleft, .item halone hfills⟩
    · rintro ⟨hleft, hfills⟩
      cases hfills with
      | item halone hfills =>
        rw [hfirst] at hfollows
        exact .item hfollows ((hvalue _ _ _).2 ⟨rfl, halone⟩) ((ih rfl).2 ⟨hleft, hfills⟩)

/-- Reading the items of a list is reading the text of each item alone. -/
theorem ItemsText.elementsRead_iff {β : Type} {R : List Char → β → List Char → Prop}
    (hR : ∀ b, ReadsValues Problem fun t r => R t b r) {first : Bool} {items : List String}
    {values : List β} {w blanks left : List Char} (h : ItemsText first items w)
    (hblanks : Blanks blanks) :
    ElementsRead R first (w ++ (blanks ++ ']' :: rest)) values (']' :: left) ↔
      left = rest ∧ List.Forall₂ (fun w b => R w.toList b []) items values := by
  induction h generalizing values with
  | nil =>
    have htext : skipBlanks ([] ++ (blanks ++ ']' :: rest)) = ']' :: rest := hblanks.skipBlanks rfl
    constructor
    · intro h
      cases h with
      | close hskip =>
        cases htext.symm.trans hskip
        exact ⟨rfl, .nil⟩
      | item hfollows => exact absurd htext (not_close_of_elementFollows hfollows)
    · rintro ⟨rfl, hvalues⟩
      cases hvalues
      exact .close htext
  | @cons first w items s ws hs hw hitems ih =>
    have hend : Delimited (ws ++ (blanks ++ ']' :: rest)) :=
      hitems.delimited (hblanks.delimited (Json.delimited_cons rfl))
    have hvalue (b : β) := (hR b).iff_alone Json.blanks_nil hw.whole hend
    have hfollows := hw.elementFollows hs (ws ++ (blanks ++ ']' :: rest))
    simp only [List.append_assoc]
    constructor
    · intro h
      cases h with
      | close hskip => exact absurd hskip (not_close_of_elementFollows hfollows)
      | item hfollows' hread hrest =>
        obtain rfl := elementFollows_unique hfollows hfollows'
        obtain ⟨rfl, halone⟩ := (hvalue _ _).1 hread
        obtain ⟨hleft, hvalues⟩ := ih.1 hrest
        exact ⟨hleft, .cons halone hvalues⟩
    · rintro ⟨hleft, hvalues⟩
      cases hvalues with
      | cons halone hvalues =>
        exact .item hfollows ((hvalue _ _).2 ⟨rfl, halone⟩) (ih.2 ⟨hleft, hvalues⟩)

/-! ## Whole texts -/

/-- A text is a document of this shape, which stands for this. -/
def StandsFor (budget : Nat) (shape : Shape) (text : List Char) (a : shape.Value) : Prop :=
  ∃ rest, scanned (ofText budget shape text) = some (a, rest) ∧ skipBlanks rest = []

section
variable {budget : Nat}

/-- Nothing is left of a part. -/
theorem IsPart.standsFor_iff {shape : Shape} {w : List Char} {a : shape.Value} (hw : IsPart w) :
    StandsFor budget shape w a ↔ scanned (ofText budget shape w) = some (a, []) := by
  constructor
  · rintro ⟨rest, hread, -⟩
    have hend := hw.whole.skipsTo Json.delimited_nil
    rw [List.append_nil] at hend
    obtain rfl := (skipsTo_ofText hread).eq hend
    exact hread
  · intro hread
    exact ⟨[], hread, rfl⟩

theorem blanks_of_skipBlanks (h : skipBlanks rest = []) : Blanks rest :=
  List.all_eq_true.2 (List.dropWhile_eq_nil_iff.1 h)

/-- A larger budget makes no difference. -/
theorem StandsFor.of_le {shape : Shape} {a : shape.Value} {budget' : Nat} (hbudget : budget ≤ budget')
    (h : StandsFor budget shape text a) : StandsFor budget' shape text a := by
  obtain ⟨rest, hread, hrest⟩ := h
  have hdelimited : Delimited rest := by
    have hend := (blanks_of_skipBlanks hrest).delimited Json.delimited_nil
    rwa [List.append_nil] at hend
  obtain ⟨w, -, rfl, hother⟩ := framed_ofText hbudget hread hdelimited
  exact ⟨rest, hother rest hdelimited, hrest⟩

/-- What is inside an object, and what is after it. -/
theorem ObjectText.exists_inside {members : List (String × String)} (h : ObjectText members text) :
    ∃ inside after, skipBlanks text = '\x7b' :: inside ∧ skipBlanks after = [] ∧
      ∀ {σ : Type} {R : String → σ → List Char → σ → List Char → Prop},
        (∀ key state state', ReadsValues Problem fun t r => R key state t state' r) →
          ∀ state final left, MembersRun Problem R true state inside final ('\x7d' :: left) ↔
            left = after ∧ Chain (StepAlone R) members state final := by
  cases h with
  | @braces before w blanks after hbefore hmembers hblanks hafter =>
    have hend : skipBlanks (after ++ []) = [] := hafter.skipBlanks_append
    rw [List.append_nil] at hend
    refine ⟨w ++ (blanks ++ '\x7d' :: after), after, hbefore.skipBlanks rfl, hend, ?_⟩
    intro σ R hR state final left
    rw [hmembers.run_iff hR hblanks, List.cons_inj_right]

/-- A text of a value stands for what the value stands for. -/
theorem standsFor_of_spells {shape : Shape} {v : Json.Value} {w : List Char} {a : shape.Value}
    (h : Json.Spells v w) (hdepth : v.depth ≤ budget) (hvalue : ofValue v shape = .ok a) :
    StandsFor budget shape w a := by
  have hread : Json.ValueRead Problem budget w v [] := h.valueRead hdepth
  have hagree := readsAsValues_ofText budget (Json.scanned_readValue_iff.2 hread) shape
  rw [hvalue] at hagree
  exact ⟨[], hagree, rfl⟩

/-- A table stands for what its entries stand for, each alone. -/
theorem ObjectText.standsFor_table_iff {members : List (String × String)} {item : Shape}
    {entries : List (String × item.Value)} (h : ObjectText members text) :
    StandsFor (budget + 1) (.table item) text entries ↔
      Chain (StepAlone (EntryRead budget item)) members [] entries := by
  obtain ⟨inside, after, htext, hend, hinside⟩ := h.exists_inside
  have hrun := hinside (readsValues_entry budget item)
  constructor
  · rintro ⟨rest, hread, -⟩
    cases scanned_ofText_iff.1 hread with
    | table htext' hentries =>
      cases htext.symm.trans htext'
      exact ((hrun ..).1 hentries).2
  · intro hchain
    exact ⟨after, scanned_ofText_iff.2 (.table htext ((hrun ..).2 ⟨rfl, hchain⟩)), hend⟩

/-- A record that is written as an object stands for what its fields stand for, each alone. -/
theorem ObjectText.standsFor_record_iff {members : List (String × String)} {kind : RecordKind}
    {a : kind.Value} (h : ObjectText members text) :
    StandsFor (budget + 1) (.record kind) text a ↔
      ∃ slots values, Chain (StepAlone fun key => StoreRead (ofText budget) key kind.fields) members
        (Slots.empty kind.fields) slots ∧ complete kind.fields slots = .ok values ∧
          kind.build values = .ok a := by
  obtain ⟨inside, after, htext, hend, hinside⟩ := h.exists_inside
  have hrun := hinside (readsValues_store budget kind.fields)
  constructor
  · rintro ⟨rest, hread, -⟩
    cases scanned_ofText_iff.1 hread with
    | items htext' => cases htext.symm.trans htext'
    | members htext' hmembers hcomplete hbuild =>
      cases htext.symm.trans htext'
      exact ⟨_, _, ((hrun ..).1 hmembers).2, hcomplete, hbuild⟩
  · rintro ⟨slots, values, hchain, hcomplete, hbuild⟩
    have hmembers := (hrun ..).2 ⟨rfl, hchain⟩
    exact ⟨after, scanned_ofText_iff.2 (.members htext hmembers hcomplete hbuild), hend⟩

/-- A record that is written as an array stands for what its items stand for, each alone. -/
theorem ArrayText.standsFor_record_iff {items : List String} {kind : RecordKind} {a : kind.Value}
    (h : ArrayText items text) :
    StandsFor (budget + 1) (.record kind) text a ↔
      ∃ values, FillsAlone (ofText budget) kind 0 kind.fields items values ∧
        kind.build values = .ok a := by
  cases h with
  | @brackets before w blanks after hbefore hitems hblanks hafter =>
    have htext : skipBlanks (before ++ '[' :: (w ++ (blanks ++ ']' :: after))) =
        '[' :: (w ++ (blanks ++ ']' :: after)) := hbefore.skipBlanks rfl
    have hend : skipBlanks (after ++ []) = [] := hafter.skipBlanks_append
    rw [List.append_nil] at hend
    constructor
    · rintro ⟨rest, hread, -⟩
      cases scanned_ofText_iff.1 hread with
      | items htext' hfields hbuild =>
        cases htext.symm.trans htext'
        exact ⟨_, ((hitems.tupleRead_iff rfl hblanks).1 hfields).2, hbuild⟩
      | members htext' => cases htext.symm.trans htext'
    · rintro ⟨values, hfills, hbuild⟩
      refine ⟨after, scanned_ofText_iff.2 (.items htext ?_ hbuild), hend⟩
      exact (hitems.tupleRead_iff rfl hblanks).2 ⟨rfl, hfills⟩

end

/-! ## Texts that are read -/

/-- What is read as a value is a part, after blanks. -/
theorem exists_part {R : List Char → List Char → Prop} (hR : ReadsValues Problem R) (h : R text rest)
    (hrest : Delimited rest) :
    ∃ (blanks : List Char) (w : String), Blanks blanks ∧ IsPart w.toList ∧
      text = blanks ++ (w.toList ++ rest) := by
  obtain ⟨v, -, rfl, hv⟩ := hR.framed h hrest
  obtain ⟨blanks, hblanks, hsplit⟩ := Json.exists_blanks v
  have hbare : skipBlanks (skipBlanks v) = skipBlanks v := by
    cases hskip : skipBlanks v with
    | nil => rfl
    | cons c left => exact Json.skipBlanks_of_not_blank (Json.isBlank_of_skipBlanks hskip)
  have halone := hR.skipsTo (hv [] Json.delimited_nil)
  rw [List.append_nil] at halone
  have hwhole : IsValueText Problem (skipBlanks v) :=
    Json.looked_skipOpen_iff.2 (halone.of_skipBlanks hbare).skips
  refine ⟨blanks, String.ofList (skipBlanks v), hblanks, ?_, ?_⟩
  · rw [String.toList_ofList]
    exact ⟨hbare, hwhole⟩
  · rw [String.toList_ofList, ← List.append_assoc, ← hsplit]

/-- The members that are read are the members of an object. -/
theorem exists_membersText {σ : Type} {R : String → σ → List Char → σ → List Char → Prop}
    (hR : ∀ key state state', ReadsValues Problem fun t r => R key state t state' r) {first : Bool}
    {state final : σ} (h : MembersRun Problem R first state text final rest) :
    ∃ members w blanks, MembersText first members w ∧ Blanks blanks ∧ text = w ++ (blanks ++ rest) := by
  induction h with
  | @close _ _ text rest htext =>
    obtain ⟨blanks, hblanks, hsplit⟩ := Json.exists_blanks text
    rw [htext] at hsplit
    exact ⟨[], [], blanks, .nil, hblanks, hsplit⟩
  | @item _ state state' _ _ after value _ _ key hfollows hcolon hvalue hrest ih =>
    obtain ⟨members, ws, blanks, hmembers, hblanks, rfl⟩ := ih
    obtain ⟨s, k, hs, hkey, rfl⟩ := hfollows.exists_separator
    obtain ⟨before, hbefore, hsplit⟩ := Json.exists_blanks after
    obtain ⟨behind, w, hbehind, hw, rfl⟩ := exists_part (hR key state state') hvalue hrest.delimited
    rw [hcolon] at hsplit
    refine ⟨(key, w) :: members, _, blanks, .cons hs hkey hbefore hbehind hw hmembers, hblanks, ?_⟩
    rw [hsplit]
    simp

/-- The items of a record that are read are the items of an array. -/
theorem TupleRead.exists_itemsText {budget number : Nat} {kind : RecordKind} {fields : List Field}
    {values : Filled fields} (h : TupleRead (ofText budget) kind number fields text values rest) :
    ∃ items w blanks, ItemsText (decide (number = 0)) items w ∧ Blanks blanks ∧
      text = w ++ (blanks ++ ']' :: rest) := by
  induction h with
  | @full _ text _ htext | @short _ _ _ _ text _ htext =>
    obtain ⟨blanks, hblanks, hsplit⟩ := Json.exists_blanks text
    rw [htext] at hsplit
    exact ⟨[], [], blanks, .nil, hblanks, hsplit⟩
  | @item _ f _ a _ _ next middle _ hfollows hvalue hrest ih =>
    obtain ⟨items, ws, blanks, hitems, hblanks, rfl⟩ := ih
    obtain ⟨s, hs, rfl⟩ := hfollows.exists_separator
    obtain ⟨before, w, hbefore, hw, rfl⟩ :=
      exists_part (readsValues_field budget f a) hvalue hrest.delimited
    exact ⟨w :: items, _, blanks, .cons (hs.append hbefore) hw hitems, hblanks, by simp⟩

/-- The texts of a table are objects. -/
theorem StandsFor.exists_objectText {budget : Nat} {item : Shape} {entries : List (String × item.Value)}
    (h : StandsFor (budget + 1) (.table item) text entries) : ∃ members, ObjectText members text := by
  obtain ⟨rest, hread, hrest⟩ := h
  cases scanned_ofText_iff.1 hread with
  | @table _ _ _ inside _ _ htext hentries =>
    obtain ⟨before, hbefore, hsplit⟩ := Json.exists_blanks text
    obtain ⟨members, w, blanks, hmembers, hblanks, rfl⟩ :=
      exists_membersText (readsValues_entry budget item) hentries
    rw [htext] at hsplit
    rw [hsplit]
    exact ⟨members, .braces hbefore hmembers hblanks (blanks_of_skipBlanks hrest)⟩

/-- The texts of a record are objects or arrays. -/
theorem StandsFor.exists_objectText_or_arrayText {budget : Nat} {kind : RecordKind} {a : kind.Value}
    (h : StandsFor (budget + 1) (.record kind) text a) :
    (∃ members, ObjectText members text) ∨ ∃ items, ArrayText items text := by
  obtain ⟨rest, hread, hrest⟩ := h
  obtain ⟨before, hbefore, hsplit⟩ := Json.exists_blanks text
  cases scanned_ofText_iff.1 hread with
  | items htext hfields =>
    obtain ⟨items, w, blanks, hitems, hblanks, rfl⟩ := hfields.exists_itemsText
    rw [htext] at hsplit
    rw [hsplit]
    exact .inr ⟨items, .brackets hbefore hitems hblanks (blanks_of_skipBlanks hrest)⟩
  | members htext hrun =>
    obtain ⟨members, w, blanks, hmembers, hblanks, rfl⟩ :=
      exists_membersText (readsValues_store budget kind.fields) hrun
    rw [htext] at hsplit
    rw [hsplit]
    exact .inl ⟨members, .braces hbefore hmembers hblanks (blanks_of_skipBlanks hrest)⟩

/-! ## Objects that are put together -/

theorem separator_written (first : Bool) : Separator first (if first then [] else [',']) := by
  cases first with
  | true => exact .first Json.blanks_nil
  | false => exact .comma Json.blanks_nil Json.blanks_nil

/-- Members with nothing but commas between them. -/
def writtenMembers : (first : Bool) → List (String × String) → List Char
  | _, [] => []
  | first, (key, w) :: members =>
      (if first then [] else [',']) ++ Json.printedString key ++ [] ++ ':' :: [] ++ w.toList ++
        writtenMembers false members

/-- The text of an object with these members and no blanks. -/
def writtenObject (members : List (String × String)) : String :=
  String.ofList ('\x7b' :: (writtenMembers true members ++ ['\x7d']))

section
variable {members : List (String × String)} (hparts : ∀ member ∈ members, IsPart member.2.toList)
include hparts

theorem membersText_writtenMembers (first : Bool) :
    MembersText first members (writtenMembers first members) := by
  induction members generalizing first with
  | nil => exact .nil
  | cons member members ih =>
    obtain ⟨hpart, hparts⟩ := List.forall_mem_cons.1 hparts
    exact .cons (separator_written first) (Json.spellsString_printedString _) Json.blanks_nil
      Json.blanks_nil hpart (ih hparts false)

theorem objectText_writtenObject : ObjectText members (writtenObject members).toList := by
  rw [writtenObject, String.toList_ofList]
  exact .braces Json.blanks_nil (membersText_writtenMembers hparts true) Json.blanks_nil
    Json.blanks_nil

/-- An object of parts is a part. -/
theorem isPart_writtenObject : IsPart (writtenObject members).toList := by
  rw [writtenObject, String.toList_ofList]
  refine ⟨Json.skipBlanks_of_not_blank rfl, ?_⟩
  have hchain : Chain (StepAlone fun _ _ t _ r => SkipsTo Problem t r) members () () :=
    chain_of_forall fun member hmember => Json.skipsTo_of_skipValue (hparts member hmember).whole
  have hmembers := membersText_writtenMembers hparts true
  have hrun : MembersRun Problem (fun _ (_ : Unit) t _ r => SkipsTo Problem t r) true ()
      (writtenMembers true members ++ ['\x7d']) () ['\x7d'] :=
    (hmembers.run_iff (fun _ _ _ => Json.readsValues_skipsTo) Json.blanks_nil).2 ⟨rfl, hchain⟩
  obtain ⟨skipped, hread⟩ := hrun.membersRead (V := fun t (_ : Unit) r => SkipsTo Problem t r)
    fun h => ⟨(), h⟩
  have hskips := Json.skipsTo_object (fun h hskip => h.of_skipBlanks hskip)
    (Json.skipBlanks_of_not_blank rfl) hread (Json.skipBlanks_of_not_blank rfl)
  exact Json.looked_skipOpen_iff.2 hskips.skips

end

/-! ## Arrays that are put together -/

/-- Items with nothing but commas between them. -/
def writtenItems : (first : Bool) → List String → List Char
  | _, [] => []
  | first, w :: items => (if first then [] else [',']) ++ w.toList ++ writtenItems false items

/-- The text of an array with these items and no blanks. -/
def writtenArray (items : List String) : String :=
  String.ofList ('[' :: (writtenItems true items ++ [']']))

section
variable {items : List String} (hparts : ∀ item ∈ items, IsPart item.toList)
include hparts

theorem itemsText_writtenItems (first : Bool) : ItemsText first items (writtenItems first items) := by
  induction items generalizing first with
  | nil => exact .nil
  | cons w items ih =>
    obtain ⟨hpart, hparts⟩ := List.forall_mem_cons.1 hparts
    exact .cons (separator_written first) hpart (ih hparts false)

theorem arrayText_writtenArray : ArrayText items (writtenArray items).toList := by
  rw [writtenArray, String.toList_ofList]
  exact .brackets Json.blanks_nil (itemsText_writtenItems hparts true) Json.blanks_nil Json.blanks_nil

end

/-- An array of texts of values is a text of the array. -/
theorem spells_writtenArray {values : List Json.Value} {items : List String}
    (h : List.Forall₂ (fun v w => Json.Spells v w.toList) values items) :
    Json.Spells (.array values) (writtenArray items).toList := by
  have hitems (first : Bool) : Json.SpellsItems first values (writtenItems first items) := by
    induction h generalizing first with
    | nil => exact .nil
    | cons hw _ ih => exact .cons (separator_written first) hw (ih false)
  rw [writtenArray, String.toList_ofList]
  simpa using Json.Spells.array (hitems true) Json.blanks_nil

end Document

end BlockCircuit
