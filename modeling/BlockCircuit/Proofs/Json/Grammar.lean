import BlockCircuit.Proofs.Json.Spelling

/-!
# What is read is written by the grammar

The grammar of JSON says which texts there are, and each of them is read. The reader takes no others: the
text of a string that it reads is one of the ways to write the string, and so is what it takes between
the members of an object.

* `EscapeRead.exists_spells`, `CharsRead.exists_spells` — escapes and characters;
* `exists_blanks` — blanks;
* `ElementFollows.exists_separator`, `KeyFollows.exists_separator` — separators and keys.
-/

namespace BlockCircuit.Json

variable {π : Type} {text rest : List Char}

/-! ## Escapes -/

theorem hexValue?_lt {c : Char} {n : Nat} (h : hexValue? c = some n) : n < 16 := by
  have hcode : c.val.toNat = c.toNat := rfl
  unfold hexValue? at h
  split at h
  · rename_i hdigit
    cases h
    simp only [Char.isDigit, Bool.and_eq_true, decide_eq_true_eq, ge_iff_le,
      UInt32.le_iff_toNat_le] at hdigit
    have hnine : '9'.val.toNat = 57 := rfl
    have hzero : '0'.toNat = 48 := rfl
    omega
  · split at h
    · rename_i hletter
      cases h
      simp only [Char.le_def, UInt32.le_iff_toNat_le] at hletter
      have hf : 'f'.val.toNat = 102 := rfl
      have ha : 'a'.toNat = 97 := rfl
      omega
    · split at h
      · rename_i hletter
        cases h
        simp only [Char.le_def, UInt32.le_iff_toNat_le] at hletter
        have hf : 'F'.val.toNat = 70 := rfl
        have ha : 'A'.toNat = 65 := rfl
        omega
      · cases h

theorem hexQuad?_lt {a b c d : Char} {n : Nat} (h : hexQuad? a b c d = some n) : n < 0x10000 := by
  simp only [hexQuad?, Option.bind_eq_bind, Option.bind_eq_some_iff, Option.pure_def,
    Option.some.injEq] at h
  obtain ⟨a', ha, b', hb, c', hc, d', hd, rfl⟩ := h
  have ha := hexValue?_lt ha
  have hb := hexValue?_lt hb
  have hc := hexValue?_lt hc
  have hd := hexValue?_lt hd
  omega

theorem toNat_ofNat_of_isValidChar {n : Nat} (h : n.isValidChar) : (Char.ofNat n).toNat = n := by
  rw [Char.ofNat, dif_pos h]
  rfl

/-- An escape is one of the ways to write its character. -/
theorem EscapeRead.exists_spells {ch : Char} (h : EscapeRead text ch rest) :
    ∃ w, SpellsChar ch ('\\' :: w) ∧ text = w ++ rest := by
  cases h with
  | @letter l _ _ hletter => exact ⟨[l], .letter hletter, rfl⟩
  | @single a b c d _ n hquad hlow hhigh =>
    have hbound := hexQuad?_lt hquad
    have hvalid : n.isValidChar := by
      simp only [isLowSurrogate, isHighSurrogate, Bool.and_eq_false_iff, decide_eq_false_iff_not]
        at hlow hhigh
      unfold Nat.isValidChar
      omega
    refine ⟨['u', a, b, c, d], .code ?_, rfl⟩
    rw [hquad, toNat_ofNat_of_isValidChar hvalid]
  | @pair a b c d a' b' c' d' _ high low hquad hhigh hquad' hlow =>
    simp only [isLowSurrogate, isHighSurrogate, Bool.and_eq_true, decide_eq_true_eq] at hlow hhigh
    have hcode : (pairedChar high low).toNat = (high - 0xD800) * 0x400 + (low - 0xDC00) + 0x10000 := by
      apply toNat_ofNat_of_isValidChar
      unfold Nat.isValidChar
      omega
    refine ⟨['u', a, b, c, d, '\\', 'u', a', b', c', d'], .pair ?_ ?_ ?_, rfl⟩
    · omega
    · have hhalf : 0xD800 + ((high - 0xD800) * 0x400 + (low - 0xDC00) + 0x10000 - 0x10000) / 0x400 =
          high := by omega
      rw [hquad, hcode, hhalf]
    · have hhalf : 0xDC00 + ((high - 0xD800) * 0x400 + (low - 0xDC00) + 0x10000 - 0x10000) % 0x400 =
          low := by omega
      rw [hquad', hcode, hhalf]

/-! ## Strings -/

theorem CharsRead.exists_spells {cs : List Char} (h : CharsRead text cs rest) :
    ∃ w, SpellsChars cs w ∧ text = w ++ '"' :: rest := by
  induction h with
  | quote => exact ⟨[], .nil, rfl⟩
  | escape hescape _ ih =>
    obtain ⟨e, hchar, rfl⟩ := hescape.exists_spells
    obtain ⟨w, hchars, rfl⟩ := ih
    exact ⟨'\\' :: e ++ w, .cons hchar hchars, by simp⟩
  | @plain _ _ c _ hquote hslash hcontrol _ ih =>
    obtain ⟨w, hchars, rfl⟩ := ih
    have hbare : isBare c = true := by simp [isBare, hquote, hslash]; omega
    exact ⟨c :: w, .cons (.bare hbare) hchars, rfl⟩

/-- A string that is read is written between quotes. -/
theorem exists_spellsString {s : String}
    (h : scanned (readString text : Scan π String text) = some (s, rest)) :
    ∃ k, SpellsString s k ∧ '"' :: text = k ++ rest := by
  obtain ⟨w, hchars, rfl⟩ := (scanned_readString_iff.1 h).exists_spells
  exact ⟨_, .quoted hchars, by simp⟩

/-! ## What stands between members -/

theorem exists_blanks (text : List Char) : ∃ blanks, Blanks blanks ∧ text = blanks ++ skipBlanks text :=
  ⟨text.takeWhile isBlank, List.all_takeWhile, List.takeWhile_append_dropWhile.symm⟩

theorem Blanks.append {blanks more : List Char} (h : Blanks blanks) (hmore : Blanks more) :
    Blanks (blanks ++ more) := by
  unfold Blanks at *
  rw [List.all_append, h, hmore, Bool.and_self]

/-- Blanks before an item belong to what stands before it. -/
theorem Separator.append {first : Bool} {s blanks : List Char} (h : Separator first s)
    (hblanks : Blanks blanks) : Separator first (s ++ blanks) := by
  cases h with
  | first hbefore => exact .first (hbefore.append hblanks)
  | comma hbefore hafter =>
    rw [List.append_assoc, List.cons_append]
    exact .comma hbefore (hafter.append hblanks)

theorem ElementFollows.exists_separator {first : Bool} {next : List Char}
    (h : ElementFollows first text next) : ∃ s, Separator first s ∧ text = s ++ next := by
  obtain ⟨before, hbefore, htext⟩ := exists_blanks text
  cases h with
  | first hskip =>
    rw [hskip] at htext
    exact ⟨before, .first hbefore, htext⟩
  | @further _ middle _ _ hskip hmiddle =>
    obtain ⟨after, hafter, hcomma⟩ := exists_blanks middle
    rw [hskip, hcomma, hmiddle] at htext
    exact ⟨before ++ ',' :: after, .comma hbefore hafter, by simp [htext]⟩

theorem KeyFollows.exists_separator {first : Bool} {key : String} (h : KeyFollows π first text key rest) :
    ∃ s k, Separator first s ∧ SpellsString key k ∧ text = s ++ (k ++ rest) := by
  obtain ⟨before, hbefore, htext⟩ := exists_blanks text
  cases h with
  | first hskip hkey =>
    obtain ⟨k, hk, hquoted⟩ := exists_spellsString hkey
    rw [hskip, hquoted] at htext
    exact ⟨before, k, .first hbefore, hk, htext⟩
  | @further _ middle _ _ _ hskip hmiddle hkey =>
    obtain ⟨k, hk, hquoted⟩ := exists_spellsString hkey
    obtain ⟨after, hafter, hcomma⟩ := exists_blanks middle
    rw [hskip, hcomma, hmiddle, hquoted] at htext
    exact ⟨before ++ ',' :: after, k, .comma hbefore hafter, hk, by simp [htext]⟩

end BlockCircuit.Json
