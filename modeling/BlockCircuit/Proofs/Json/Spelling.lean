import BlockCircuit.Proofs.Json.Numerals

/-!
# Texts of values

A value has many texts: blanks may stand between tokens, a character of a string may be written as an
escape, and a number in many ways. Here the texts of a value are described as they are written, with no
reader in sight, and every one of them is read as that value, if the budget allows for its depth.

* `SpellsChar`, `SpellsString` — characters and strings;
* `Spells`, `IsTextOf` — the texts of a value;
* `Value.depth` — how deeply arrays and objects are nested;
* `Spells.valueRead` — a text of a value is read as that value.
-/

namespace BlockCircuit.Json

variable {π : Type} {text rest : List Char}

/-! ## Texts -/

/-- A text of blanks. -/
def Blanks (text : List Char) : Prop :=
  text.all isBlank = true

instance (text : List Char) : Decidable (Blanks text) :=
  inferInstanceAs (Decidable (text.all isBlank = true))

/-- Whether a character may stand in a string as it is. -/
def isBare (c : Char) : Bool :=
  c ≠ '"' && c ≠ '\\' && 0x20 ≤ c.toNat

/-- The ways to write a character in a string: as it is, after a backslash, or by its code, which may
need a pair of surrogates. -/
inductive SpellsChar : Char → List Char → Prop
  | bare {c : Char} : isBare c = true → SpellsChar c [c]
  | letter {c l : Char} : simpleEscape? l = some c → SpellsChar c ['\\', l]
  | code {c h₁ h₂ h₃ h₄ : Char} :
      hexQuad? h₁ h₂ h₃ h₄ = some c.toNat → SpellsChar c ['\\', 'u', h₁, h₂, h₃, h₄]
  | pair {c h₁ h₂ h₃ h₄ l₁ l₂ l₃ l₄ : Char} : 0x10000 ≤ c.toNat →
      hexQuad? h₁ h₂ h₃ h₄ = some (0xD800 + (c.toNat - 0x10000) / 0x400) →
        hexQuad? l₁ l₂ l₃ l₄ = some (0xDC00 + (c.toNat - 0x10000) % 0x400) →
          SpellsChar c ['\\', 'u', h₁, h₂, h₃, h₄, '\\', 'u', l₁, l₂, l₃, l₄]

/-- The characters of a string, one after another. -/
inductive SpellsChars : List Char → List Char → Prop
  | nil : SpellsChars [] []
  | cons {c : Char} {cs w ws : List Char} :
      SpellsChar c w → SpellsChars cs ws → SpellsChars (c :: cs) (w ++ ws)

/-- A string between its quotes. -/
inductive SpellsString : String → List Char → Prop
  | quoted {s : String} {w : List Char} :
      SpellsChars s.toList w → SpellsString s ('"' :: (w ++ ['"']))

/-- What stands before an item of an array or object: a comma, unless it is the first. -/
inductive Separator : (first : Bool) → List Char → Prop
  | first {before : List Char} : Blanks before → Separator true before
  | comma {before after : List Char} :
      Blanks before → Blanks after → Separator false (before ++ ',' :: after)

mutual

/-- The texts of a value, without blanks around them. -/
inductive Spells : Value → List Char → Prop
  | null : Spells .null ['n', 'u', 'l', 'l']
  | true : Spells (.boolean .true) ['t', 'r', 'u', 'e']
  | false : Spells (.boolean .false) ['f', 'a', 'l', 's', 'e']
  | number {n : Number} {w : List Char} : Numeral n w → Spells (.number n) w
  | string {s : String} {w : List Char} : SpellsString s w → Spells (.string s) w
  | array {items : List Value} {w blanks : List Char} :
      SpellsItems true items w → Blanks blanks → Spells (.array items) ('[' :: (w ++ blanks ++ [']']))
  | object {members : List (String × Value)} {w blanks : List Char} :
      SpellsMembers true members w → Blanks blanks →
        Spells (.object members) ('\x7b' :: (w ++ blanks ++ ['\x7d']))

/-- The texts of the elements of an array. -/
inductive SpellsItems : (first : Bool) → List Value → List Char → Prop
  | nil {first : Bool} : SpellsItems first [] []
  | cons {first : Bool} {v : Value} {items : List Value} {s w ws : List Char} :
      Separator first s → Spells v w → SpellsItems false items ws →
        SpellsItems first (v :: items) (s ++ w ++ ws)

/-- The texts of the members of an object. -/
inductive SpellsMembers : (first : Bool) → List (String × Value) → List Char → Prop
  | nil {first : Bool} : SpellsMembers first [] []
  | cons {first : Bool} {key : String} {v : Value} {members : List (String × Value)}
      {s k before after w ws : List Char} :
      Separator first s → SpellsString key k → Blanks before → Blanks after → Spells v w →
        SpellsMembers false members ws →
          SpellsMembers first ((key, v) :: members) (s ++ k ++ before ++ ':' :: after ++ w ++ ws)

end

/-- The texts of a value. -/
inductive IsTextOf : Value → List Char → Prop
  | spelled {v : Value} {before w after : List Char} :
      Blanks before → Spells v w → Blanks after → IsTextOf v (before ++ w ++ after)

mutual

/-- How deeply arrays and objects are nested in a value. -/
def Value.depth : Value → Nat
  | .array items => depthOfItems items + 1
  | .object members => depthOfMembers members + 1
  | _ => 0

/-- The depth of the deepest of some values. -/
def depthOfItems : List Value → Nat
  | [] => 0
  | v :: items => max v.depth (depthOfItems items)

/-- The depth of the deepest value of some members. -/
def depthOfMembers : List (String × Value) → Nat
  | [] => 0
  | (_, v) :: members => max v.depth (depthOfMembers members)

end

/-! ## Blanks -/

theorem blanks_nil : Blanks [] :=
  rfl

theorem Blanks.skipBlanks_append {blanks : List Char} (h : Blanks blanks) :
    skipBlanks (blanks ++ text) = skipBlanks text :=
  List.dropWhile_append_of_pos (List.all_eq_true.1 h)

theorem Blanks.skipBlanks {blanks : List Char} {c : Char} (h : Blanks blanks)
    (hc : isBlank c = false) : skipBlanks (blanks ++ c :: rest) = c :: rest := by
  rw [h.skipBlanks_append, skipBlanks_of_not_blank hc]

theorem Blanks.delimited {blanks : List Char} (h : Blanks blanks) (hrest : Delimited rest) :
    Delimited (blanks ++ rest) := by
  cases blanks with
  | nil => exact hrest
  | cons c blanks =>
    have hc : isBlank c = true := List.all_eq_true.1 h c List.mem_cons_self
    exact delimited_cons (by simp [endsToken, hc])

/-- A comma ends the numeral before it. -/
theorem Separator.delimited {s : List Char} (h : Separator false s) : Delimited (s ++ text) := by
  cases h with
  | comma hbefore =>
    rw [List.append_assoc]
    exact hbefore.delimited (delimited_cons rfl)

/-! ## Strings -/

/-- Characters that need no escape may stand for themselves. -/
theorem spellsChars_self {cs : List Char} (h : cs.all isBare = true) : SpellsChars cs cs := by
  induction cs with
  | nil => exact .nil
  | cons c cs ih =>
    rw [List.all_cons, Bool.and_eq_true] at h
    exact .cons (.bare h.1) (ih h.2)

theorem spellsString_self {s : String} (h : s.toList.all isBare = true) :
    SpellsString s ('"' :: (s.toList ++ ['"'])) :=
  .quoted (spellsChars_self h)

theorem isLowSurrogate_toNat (c : Char) : isLowSurrogate c.toNat = false := by
  have hvalid : c.toNat < 0xD800 ∨ 0xDFFF < c.toNat ∧ c.toNat < 0x110000 := c.valid
  simp only [isLowSurrogate, Bool.and_eq_false_iff, decide_eq_false_iff_not]
  omega

theorem isHighSurrogate_toNat (c : Char) : isHighSurrogate c.toNat = false := by
  have hvalid : c.toNat < 0xD800 ∨ 0xDFFF < c.toNat ∧ c.toNat < 0x110000 := c.valid
  simp only [isHighSurrogate, Bool.and_eq_false_iff, decide_eq_false_iff_not]
  omega

section
variable {c : Char} (hc : 0x10000 ≤ c.toNat)
include hc

theorem isHighSurrogate_of_code : isHighSurrogate (0xD800 + (c.toNat - 0x10000) / 0x400) = true := by
  have hvalid : c.toNat < 0xD800 ∨ 0xDFFF < c.toNat ∧ c.toNat < 0x110000 := c.valid
  simp only [isHighSurrogate, Bool.and_eq_true, decide_eq_true_eq]
  omega

theorem pairedChar_of_code :
    pairedChar (0xD800 + (c.toNat - 0x10000) / 0x400) (0xDC00 + (c.toNat - 0x10000) % 0x400) = c := by
  have hcode : (0xD800 + (c.toNat - 0x10000) / 0x400 - 0xD800) * 0x400 +
      (0xDC00 + (c.toNat - 0x10000) % 0x400 - 0xDC00) + 0x10000 = c.toNat := by
    omega
  rw [pairedChar, hcode, Char.ofNat_toNat]

end

theorem isLowSurrogate_of_code (n : Nat) : isLowSurrogate (0xDC00 + n % 0x400) = true := by
  simp only [isLowSurrogate, Bool.and_eq_true, decide_eq_true_eq]
  omega

theorem EscapeRead.of_code {c h₁ h₂ h₃ h₄ : Char} (h : hexQuad? h₁ h₂ h₃ h₄ = some c.toNat) :
    EscapeRead ('u' :: h₁ :: h₂ :: h₃ :: h₄ :: rest) c rest := by
  have hread : EscapeRead ('u' :: h₁ :: h₂ :: h₃ :: h₄ :: rest) (Char.ofNat c.toNat) rest :=
    .single h (isLowSurrogate_toNat c) (isHighSurrogate_toNat c)
  rwa [Char.ofNat_toNat] at hread

theorem EscapeRead.of_pair {c h₁ h₂ h₃ h₄ l₁ l₂ l₃ l₄ : Char} (hc : 0x10000 ≤ c.toNat)
    (hhigh : hexQuad? h₁ h₂ h₃ h₄ = some (0xD800 + (c.toNat - 0x10000) / 0x400))
    (hlow : hexQuad? l₁ l₂ l₃ l₄ = some (0xDC00 + (c.toNat - 0x10000) % 0x400)) :
    EscapeRead ('u' :: h₁ :: h₂ :: h₃ :: h₄ :: '\\' :: 'u' :: l₁ :: l₂ :: l₃ :: l₄ :: rest) c
      rest := by
  rw [← pairedChar_of_code hc]
  exact .pair hhigh (isHighSurrogate_of_code hc) hlow (isLowSurrogate_of_code _)

theorem SpellsChar.charsRead {c : Char} {cs w : List Char} (h : SpellsChar c w)
    (hcs : CharsRead text cs rest) : CharsRead (w ++ text) (c :: cs) rest := by
  cases h with
  | bare hbare =>
    simp only [isBare, ne_eq, decide_not, Bool.and_eq_true, Bool.not_eq_true', decide_eq_false_iff_not,
      decide_eq_true_eq] at hbare
    exact .plain hbare.1.1 hbare.1.2 (Nat.not_lt.2 hbare.2) hcs
  | letter hletter => exact .escape (.letter hletter) hcs
  | code hquad => exact .escape (.of_code hquad) hcs
  | pair hc hhigh hlow => exact .escape (.of_pair hc hhigh hlow) hcs

theorem SpellsChars.charsRead {cs w : List Char} (h : SpellsChars cs w) :
    CharsRead (w ++ '"' :: rest) cs rest := by
  induction h with
  | nil => exact .quote
  | cons hchar _ ih =>
    rw [List.append_assoc]
    exact hchar.charsRead ih

/-- A string is read, however its characters are written. -/
theorem SpellsString.scanned_readString {s : String} {w : List Char} (h : SpellsString s w)
    (rest : List Char) :
    ∃ middle, w ++ rest = '"' :: middle ∧
      scanned (readString middle : Scan π String middle) = some (s, rest) := by
  cases h with
  | @quoted w hchars =>
    refine ⟨w ++ '"' :: rest, ?_, scanned_readString_iff.2 hchars.charsRead⟩
    rw [List.cons_append, List.append_assoc]
    rfl

/-! ## Arrays and objects -/

theorem not_blank_of_number {c : Char} (hc : c = '-' ∨ c.isDigit = true) : isBlank c = false := by
  refine Bool.eq_false_iff.2 ?_
  intro hblank
  rcases hc with rfl | hc
  · cases hblank
  · have hdigit := isDigit_of_endsToken (c := c) (by simp [endsToken, hblank])
    cases hdigit.symm.trans hc

/-- A value begins with a character that is neither a blank nor the end of an array. -/
theorem Spells.begins {v : Value} {w : List Char} (h : Spells v w) :
    ∃ c left, w = c :: left ∧ isBlank c = Bool.false ∧ c ≠ ']' := by
  cases h with
  | null | true | false | array | object => exact ⟨_, _, rfl, rfl, by decide⟩
  | string h =>
    cases h with
    | quoted => exact ⟨_, _, rfl, rfl, by decide⟩
  | number h =>
    obtain ⟨c, left, rfl, hc⟩ := h.begins
    exact ⟨c, left, rfl, not_blank_of_number hc, ne_of_number hc (by decide) (by decide)⟩

theorem SpellsItems.delimited {items : List Value} {w : List Char} (h : SpellsItems false items w)
    (hrest : Delimited rest) : Delimited (w ++ rest) := by
  cases h with
  | nil => exact hrest
  | cons hs =>
    rw [List.append_assoc, List.append_assoc]
    exact hs.delimited

theorem SpellsMembers.delimited {members : List (String × Value)} {w : List Char}
    (h : SpellsMembers false members w) (hrest : Delimited rest) : Delimited (w ++ rest) := by
  cases h with
  | nil => exact hrest
  | cons hs =>
    simp only [List.append_assoc]
    exact hs.delimited

/-- After what stands before it, an element follows. -/
theorem Separator.elementFollows {first : Bool} {s next : List Char} {c : Char}
    (h : Separator first s) (hblank : isBlank c = false) (hc : c ≠ ']') :
    ElementFollows first (s ++ c :: next) (c :: next) := by
  cases h with
  | first hbefore => exact .first (hbefore.skipBlanks hblank) hc
  | comma hbefore hafter =>
    rw [List.append_assoc]
    exact .further (hbefore.skipBlanks rfl) (hafter.skipBlanks hblank) hc

/-- After what stands before it, a key follows. -/
theorem Separator.keyFollows {first : Bool} {s k : List Char} {key : String}
    (h : Separator first s) (hkey : SpellsString key k) :
    KeyFollows π first (s ++ (k ++ rest)) key rest := by
  obtain ⟨middle, hk, hread⟩ := hkey.scanned_readString (π := π) rest
  rw [hk]
  cases h with
  | first hbefore => exact .first (hbefore.skipBlanks rfl) hread
  | comma hbefore hafter =>
    rw [List.append_assoc]
    exact .further (hbefore.skipBlanks rfl) (hafter.skipBlanks rfl) hread

/-- Every text of a value that is nested no deeper than the budget is read as that value. -/
def ReadsTexts (π : Type) (budget : Nat) : Prop :=
  ∀ {v : Value} {before w rest : List Char}, Spells v w → v.depth ≤ budget → Blanks before →
    Delimited rest → ValueRead π budget (before ++ (w ++ rest)) v rest

section
variable {budget : Nat} {blanks : List Char}

theorem SpellsItems.elementsRead (hread : ReadsTexts π budget) {first : Bool} {items : List Value}
    {w : List Char} (h : SpellsItems first items w) (hdepth : depthOfItems items ≤ budget)
    (hblanks : Blanks blanks) (rest : List Char) :
    ElementsRead (fun t v r => scanned (readValue budget t : Scan π Value t) = some (v, r)) first
      (w ++ (blanks ++ ']' :: rest)) items (']' :: rest) := by
  induction items generalizing first w with
  | nil =>
    cases h with
    | nil => exact .close (hblanks.skipBlanks rfl)
  | cons v items ih =>
    cases h with
    | @cons _ _ _ s w ws hs hv hitems =>
      rw [depthOfItems, Nat.max_le] at hdepth
      have hend : Delimited (']' :: rest) := delimited_cons rfl
      have hnext := hitems.delimited (hblanks.delimited hend)
      have hvalue := hread hv hdepth.1 blanks_nil hnext
      obtain ⟨c, left, rfl, hblank, hc⟩ := hv.begins
      rw [List.append_assoc, List.append_assoc]
      exact .item (hs.elementFollows hblank hc) (scanned_readValue_iff.2 hvalue) (ih hitems hdepth.2)

theorem SpellsMembers.membersRead (hread : ReadsTexts π budget) {first : Bool}
    {members : List (String × Value)} {w : List Char} (h : SpellsMembers first members w)
    (hdepth : depthOfMembers members ≤ budget) (hblanks : Blanks blanks) (rest : List Char) :
    MembersRead π (fun t v r => scanned (readValue budget t : Scan π Value t) = some (v, r)) first
      (w ++ (blanks ++ '\x7d' :: rest)) members ('\x7d' :: rest) := by
  induction members generalizing first w with
  | nil =>
    cases h with
    | nil => exact .close (hblanks.skipBlanks rfl)
  | cons member members ih =>
    cases h with
    | cons hs hkey hbefore hafter hv hmembers =>
      rw [depthOfMembers, Nat.max_le] at hdepth
      have hend : Delimited ('\x7d' :: rest) := delimited_cons rfl
      have hnext := hmembers.delimited (hblanks.delimited hend)
      have hvalue := hread hv hdepth.1 hafter hnext
      simp only [List.append_assoc]
      exact .item (hs.keyFollows hkey) (hbefore.skipBlanks rfl) (scanned_readValue_iff.2 hvalue)
        (ih hmembers hdepth.2)

end

/-! ## Values -/

/-- Words, numbers and strings are read with any budget. -/
theorem readsTexts_scalar {budget : Nat} {v : Value} {before w : List Char} (h : Spells v w)
    (harray : ∀ items, v ≠ .array items) (hobject : ∀ members, v ≠ .object members)
    (hbefore : Blanks before) (hrest : Delimited rest) :
    ValueRead π budget (before ++ (w ++ rest)) v rest := by
  cases h with
  | null => exact .scalar (hbefore.skipBlanks rfl) (by decide) (by decide) .null
  | true => exact .scalar (hbefore.skipBlanks rfl) (by decide) (by decide) .true
  | false => exact .scalar (hbefore.skipBlanks rfl) (by decide) (by decide) .false
  | number h =>
    have hread := h.scanned_readNumber (π := π) hrest
    obtain ⟨c, left, rfl, hc⟩ := h.begins
    exact .scalar (hbefore.skipBlanks (not_blank_of_number hc))
      (ne_of_number hc (by decide) (by decide)) (ne_of_number hc (by decide) (by decide))
      (.number hc hread)
  | string h =>
    obtain ⟨middle, hw, hread⟩ := h.scanned_readString (π := π) rest
    rw [hw]
    exact .scalar (hbefore.skipBlanks rfl) (by decide) (by decide) (.string hread)
  | array => exact absurd rfl (harray _)
  | object => exact absurd rfl (hobject _)

/-- A text of a value is read as that value, whatever follows. -/
theorem readsTexts (π : Type) (budget : Nat) : ReadsTexts π budget := by
  induction budget with
  | zero =>
    intro v before w rest h hdepth hbefore hrest
    refine readsTexts_scalar h ?_ ?_ hbefore hrest
    · rintro items rfl
      rw [Value.depth] at hdepth
      omega
    · rintro members rfl
      rw [Value.depth] at hdepth
      omega
  | succ budget ih =>
    intro v before w rest h hdepth hbefore hrest
    cases v with
    | array items =>
      cases h with
      | array hitems hblanks =>
        rw [Value.depth, Nat.add_le_add_iff_right] at hdepth
        have helements := hitems.elementsRead ih hdepth hblanks rest
        simp only [List.cons_append, List.append_assoc]
        exact .array (hbefore.skipBlanks rfl) helements (skipBlanks_of_not_blank rfl)
    | object members =>
      cases h with
      | object hmembers hblanks =>
        rw [Value.depth, Nat.add_le_add_iff_right] at hdepth
        have hread := hmembers.membersRead ih hdepth hblanks rest
        simp only [List.cons_append, List.append_assoc]
        exact .object (hbefore.skipBlanks rfl) hread (skipBlanks_of_not_blank rfl)
    | null | boolean | number | string => exact readsTexts_scalar h nofun nofun hbefore hrest

/-- A text of a value without blanks around it is read to its end. -/
theorem Spells.valueRead {budget : Nat} {v : Value} {w : List Char} (h : Spells v w)
    (hdepth : v.depth ≤ budget) : ValueRead π budget w v [] := by
  have hread := readsTexts π budget h hdepth blanks_nil delimited_nil
  rwa [List.nil_append, List.append_nil] at hread

/-- A text of a value is read as that value, up to the blanks at its end. -/
theorem IsTextOf.valueRead {budget : Nat} {v : Value} (h : IsTextOf v text)
    (hdepth : v.depth ≤ budget) :
    ∃ after, ValueRead π budget text v after ∧ skipBlanks after = [] := by
  cases h with
  | @spelled before w after hbefore hv hafter =>
    have hend : Delimited (after ++ []) := hafter.delimited delimited_nil
    rw [List.append_nil] at hend
    have hread := readsTexts π budget hv hdepth hbefore hend
    rw [← List.append_assoc] at hread
    have hskip : skipBlanks (after ++ []) = [] := hafter.skipBlanks_append
    rw [List.append_nil] at hskip
    exact ⟨after, hread, hskip⟩

end BlockCircuit.Json
