import BlockCircuit.Json.Printer
import BlockCircuit.Json.Reader
import BlockCircuit.Proofs.Json.Spelling

/-!
# Printed values are read back

What is printed is worth nothing if a reader makes something else of it. A quote, a backslash or a
line break in a string would end the string too early or make the text unreadable, had it not been
written as an escape; and an escape that is written wrongly is another character. Here the printer is
held against the grammar of JSON and not against one reader: what it writes is a text of the value, and
a text is a text of one value only.

* `spellsChar_escapedChar`, `spellsString_printedString` — characters and strings are written in one of
  the ways that the grammar has for them;
* `Value.partsInduction`, `spells_printed` — what is printed of a value is a text of it, if its numbers
  are printed as numerals;
* `Spells.depth_le_length` — a text of a value is at least as long as the value is deep;
* `IsTextOf.parse`, `IsTextOf.unique` — the texts of a value are read as that value, and are texts of
  no other;
* `parse_pretty` — printing and reading.
-/

namespace BlockCircuit.Json

/-! ## Characters and strings -/

theorem hexValue?_digitChar {n : Nat} (h : n < 16) : hexValue? (Nat.digitChar n) = some n := by
  decide +revert

/-- The digits of a control character give back its code. -/
theorem hexQuad?_digitChar {n : Nat} (h : n < 0x100) :
    hexQuad? '0' '0' (Nat.digitChar (n / 16)) (Nat.digitChar (n % 16)) = some n := by
  have hzero : hexValue? '0' = some 0 := rfl
  have hhigh : hexValue? (Nat.digitChar (n / 16)) = some (n / 16) := hexValue?_digitChar (by omega)
  have hlow : hexValue? (Nat.digitChar (n % 16)) = some (n % 16) := hexValue?_digitChar (by omega)
  have hcode : n / 16 * 16 + n % 16 = n := by omega
  simp [hexQuad?, hzero, hhigh, hlow, hcode]

/-- Every character is written in one of the ways to write it: the quote and the backslash never stand
as they are, and neither does a control character. -/
theorem spellsChar_escapedChar (c : Char) : SpellsChar c (escapedChar c) := by
  unfold escapedChar
  split
  case h_8 hquote hbackslash _ _ _ _ _ =>
    split
    · rename_i hcontrol
      exact .code (hexQuad?_digitChar (by omega))
    · rename_i hcontrol
      refine .bare ?_
      simp only [isBare, ne_eq, decide_not, Bool.and_eq_true, Bool.not_eq_true',
        decide_eq_false_iff_not, decide_eq_true_eq]
      exact ⟨⟨hquote, hbackslash⟩, Nat.le_of_not_lt hcontrol⟩
  all_goals exact .letter rfl

theorem spellsChars_flatMap (cs : List Char) : SpellsChars cs (cs.flatMap escapedChar) := by
  induction cs with
  | nil => exact .nil
  | cons c cs ih =>
    rw [List.flatMap_cons]
    exact .cons (spellsChar_escapedChar c) ih

theorem spellsString_printedString (s : String) : SpellsString s (printedString s) :=
  .quoted (spellsChars_flatMap s.toList)

/-- A control character is written by its code, while delete stands as it is. -/
example : printedString "\"\n\x1f\x7f" =
    ['"', '\\', '"', '\\', 'n', '\\', 'u', '0', '0', '1', 'f', '\x7f', '"'] :=
  rfl

/-! ## Values -/

/-- Induction on how a value is built: an array from its items, and an object from the values of its
members. -/
theorem Value.partsInduction {holds : Value → Prop} (null : holds .null)
    (boolean : ∀ b, holds (.boolean b)) (number : ∀ n, holds (.number n))
    (string : ∀ s, holds (.string s))
    (array : ∀ items, (∀ v ∈ items, holds v) → holds (.array items))
    (object : ∀ members, (∀ m ∈ members, holds m.2) → holds (.object members)) :
    ∀ v, holds v := by
  refine Value.rec (motive_1 := holds) (motive_2 := fun items => ∀ v ∈ items, holds v)
    (motive_3 := fun members => ∀ m ∈ members, holds m.2) (motive_4 := fun m => holds m.2)
    null boolean number string array object ?nil ?cons ?mnil ?mcons ?mk
  case nil | mnil => exact nofun
  case cons | mcons =>
    intro first others ihFirst ihOthers
    exact List.forall_mem_cons.2 ⟨ihFirst, ihOthers⟩
  case mk =>
    intro key v ih
    exact ih

/-- The numbers in a value, however deep they stand. -/
inductive Value.HasNumber (n : Number) : Value → Prop
  | number : HasNumber n (.number n)
  | item {v : Value} {items : List Value} : v ∈ items → HasNumber n v → HasNumber n (.array items)
  | member {key : String} {v : Value} {members : List (String × Value)} :
      (key, v) ∈ members → HasNumber n v → HasNumber n (.object members)

theorem blanks_newLine (level : Nat) : Blanks (newLine level) := by
  simp [Blanks, newLine, isBlank]

section
variable {level : Nat}

theorem spellsItems_printedItems {items : List Value}
    (h : ∀ v ∈ items, Spells v (printed level v)) :
    SpellsItems false items (printedItems level items) := by
  induction items with
  | nil =>
    rw [printedItems]
    exact .nil
  | cons v items ih =>
    rw [List.forall_mem_cons] at h
    rw [printedItems]
    exact .cons (.comma blanks_nil (blanks_newLine level)) h.1 (ih h.2)

theorem spellsMembers_printedMembers {members : List (String × Value)}
    (h : ∀ m ∈ members, Spells m.2 (printed level m.2)) :
    SpellsMembers false members (printedMembers level members) := by
  induction members with
  | nil =>
    rw [printedMembers]
    exact .nil
  | cons m members ih =>
    obtain ⟨key, v⟩ := m
    rw [List.forall_mem_cons] at h
    have hkey := spellsString_printedString key
    have hspace : Blanks [' '] := rfl
    have hall := SpellsMembers.cons (.comma blanks_nil (blanks_newLine level)) hkey blanks_nil hspace
      h.1 (ih h.2)
    rw [printedMembers]
    simpa using hall

theorem spells_printed_array {items : List Value}
    (h : ∀ v ∈ items, Spells v (printed (level + 1) v)) :
    Spells (.array items) (printed level (.array items)) := by
  cases items with
  | nil =>
    rw [printed]
    exact .array .nil blanks_nil
  | cons v items =>
    rw [List.forall_mem_cons] at h
    have hitems := SpellsItems.cons (.first (blanks_newLine (level + 1))) h.1
      (spellsItems_printedItems h.2)
    have hall := Spells.array hitems (blanks_newLine level)
    rw [printed]
    simpa using hall

theorem spells_printed_object {members : List (String × Value)}
    (h : ∀ m ∈ members, Spells m.2 (printed (level + 1) m.2)) :
    Spells (.object members) (printed level (.object members)) := by
  cases members with
  | nil =>
    rw [printed]
    exact .object .nil blanks_nil
  | cons m members =>
    obtain ⟨key, v⟩ := m
    rw [List.forall_mem_cons] at h
    have hkey := spellsString_printedString key
    have hspace : Blanks [' '] := rfl
    have hmembers := SpellsMembers.cons (.first (blanks_newLine (level + 1))) hkey blanks_nil hspace
      h.1 (spellsMembers_printedMembers h.2)
    have hall := Spells.object hmembers (blanks_newLine level)
    rw [printed]
    simpa using hall

end

/-- What is printed of a value is a text of it, at any level. That a number is printed as a numeral is
asked for, since the printer of doubles is not looked into here. -/
theorem spells_printed {v : Value} (h : ∀ n, v.HasNumber n → Numeral n n.text.toList)
    (level : Nat) : Spells v (printed level v) := by
  induction v using Value.partsInduction generalizing level with
  | null =>
    rw [printed]
    exact .null
  | boolean b =>
    cases b with
    | false =>
      rw [printed]
      exact .false
    | true =>
      rw [printed]
      exact .true
  | number n =>
    rw [printed]
    exact .number (h n .number)
  | string s =>
    rw [printed]
    exact .string (spellsString_printedString s)
  | array items ih =>
    refine spells_printed_array ?_
    intro v hv
    exact ih v hv (fun n hn => h n (.item hv hn)) (level + 1)
  | object members ih =>
    refine spells_printed_object ?_
    intro m hm
    exact ih m hm (fun n hn => h n (.member hm hn)) (level + 1)

theorem spells_pretty {v : Value} (h : ∀ n, v.HasNumber n → Numeral n n.text.toList) :
    Spells v v.pretty.toList := by
  rw [Value.pretty, String.toList_ofList]
  exact spells_printed h 0

/-! ## Reading back -/

theorem SpellsItems.depth_le_length {first : Bool} {items : List Value} {w : List Char}
    (h : SpellsItems first items w) (hitems : ∀ v ∈ items, ∀ u, Spells v u → v.depth ≤ u.length) :
    depthOfItems items ≤ w.length := by
  induction items generalizing first w with
  | nil => simp [depthOfItems]
  | cons v items ih =>
    cases h with
    | cons hs hv hrest =>
      rw [List.forall_mem_cons] at hitems
      have hfirst := hitems.1 _ hv
      have hothers := ih hrest hitems.2
      simp only [depthOfItems, List.length_append]
      omega

theorem SpellsMembers.depth_le_length {first : Bool} {members : List (String × Value)}
    {w : List Char} (h : SpellsMembers first members w)
    (hmembers : ∀ m ∈ members, ∀ u, Spells m.2 u → m.2.depth ≤ u.length) :
    depthOfMembers members ≤ w.length := by
  induction members generalizing first w with
  | nil => simp [depthOfMembers]
  | cons m members ih =>
    obtain ⟨key, v⟩ := m
    cases h with
    | @cons _ _ _ _ _ _ _ _ w _ hs hkey hbefore hafter hv hrest =>
      rw [List.forall_mem_cons] at hmembers
      have hfirst : v.depth ≤ w.length := hmembers.1 w hv
      have hothers := ih hrest hmembers.2
      simp only [depthOfMembers, List.length_append, List.length_cons]
      omega

/-- A text of a value is at least as long as the value is deep: each array and object adds its
brackets. -/
theorem Spells.depth_le_length {v : Value} {w : List Char} (h : Spells v w) :
    v.depth ≤ w.length := by
  induction v using Value.partsInduction generalizing w with
  | null | boolean | number | string => simp [Value.depth]
  | array items ih =>
    cases h with
    | array hitems hblanks =>
      have hdepth := hitems.depth_le_length fun v hv u hu => ih v hv hu
      simp only [Value.depth, List.length_cons, List.length_append]
      omega
  | object members ih =>
    cases h with
    | object hmembers hblanks =>
      have hdepth := hmembers.depth_le_length fun m hm u hu => ih m hm hu
      simp only [Value.depth, List.length_cons, List.length_append]
      omega

theorem IsTextOf.depth_le_length {v : Value} {text : List Char} (h : IsTextOf v text) :
    v.depth ≤ text.length := by
  cases h with
  | spelled hbefore hv hafter =>
    have hdepth := hv.depth_le_length
    simp only [List.length_append]
    omega

/-- A text of a value is read as that value: its length is budget enough. -/
theorem IsTextOf.parse {v : Value} {text : String} (h : IsTextOf v text.toList) :
    parse text = .ok v := by
  have hdepth : v.depth ≤ text.length := by
    rw [← String.length_toList]
    exact h.depth_le_length
  obtain ⟨after, hread, hafter⟩ := h.valueRead (π := Empty) hdepth
  obtain ⟨hshorter, hread⟩ := scanned_eq_some_iff.1 (scanned_readValue_iff.2 hread)
  rw [Json.parse, hread]
  show atEnd _ = _
  rw [atEnd, hafter]

/-- No text is a text of two values. -/
theorem IsTextOf.unique {u v : Value} {text : List Char} (hu : IsTextOf u text)
    (hv : IsTextOf v text) : u = v := by
  rw [← String.toList_ofList (l := text)] at hu hv
  have hparse := hu.parse.symm.trans hv.parse
  cases hparse
  rfl

/-- What is printed of a value is read as that value. -/
theorem parse_pretty {v : Value} (h : ∀ n, v.HasNumber n → Numeral n n.text.toList) :
    parse v.pretty = .ok v := by
  have htext : IsTextOf v ([] ++ v.pretty.toList ++ []) :=
    .spelled blanks_nil (spells_pretty h) blanks_nil
  rw [List.nil_append, List.append_nil] at htext
  exact htext.parse

end BlockCircuit.Json
