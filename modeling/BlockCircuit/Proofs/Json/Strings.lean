import BlockCircuit.Proofs.Json.Steps

/-!
# How strings are read

A string is read character by character up to its quote. A character may stand for itself, or it is
written as an escape.

* `EscapeRead`, `scanned_readEscape_iff` — the escapes that can be read;
* `CharsRead`, `scanned_readChars_iff` — the characters of a string up to its quote.
-/

namespace BlockCircuit.Json

variable {π : Type} {text rest : List Char} {ch : Char}

/-! ## Escapes -/

/-- The escapes that can be read, after their backslash. -/
inductive EscapeRead : (text : List Char) → Char → (rest : List Char) → Prop
  | letter {l c : Char} {rest : List Char} : simpleEscape? l = some c → EscapeRead (l :: rest) c rest
  | single {a b c d : Char} {rest : List Char} {n : Nat} :
      hexQuad? a b c d = some n → isLowSurrogate n = false → isHighSurrogate n = false →
        EscapeRead ('u' :: a :: b :: c :: d :: rest) (Char.ofNat n) rest
  | pair {a b c d a' b' c' d' : Char} {rest : List Char} {high low : Nat} :
      hexQuad? a b c d = some high → isHighSurrogate high = true →
        hexQuad? a' b' c' d' = some low → isLowSurrogate low = true →
          EscapeRead ('u' :: a :: b :: c :: d :: '\\' :: 'u' :: a' :: b' :: c' :: d' :: rest)
            (pairedChar high low) rest

theorem isLowSurrogate_of_isHighSurrogate {n : Nat} (h : isHighSurrogate n = true) :
    isLowSurrogate n = false := by
  simp only [isHighSurrogate, isLowSurrogate, Bool.and_eq_true, decide_eq_true_eq,
    Bool.and_eq_false_iff, decide_eq_false_iff_not] at h ⊢
  omega

theorem scanned_readHexQuad_iff {n : Nat} :
    scanned (readHexQuad text : Scan π Nat text) = some (n, rest) ↔
      ∃ a b c d, text = a :: b :: c :: d :: rest ∧ hexQuad? a b c d = some n := by
  constructor
  · intro h
    unfold readHexQuad at h
    split at h
    · rename_i a b c d left
      split at h
      · rename_i hquad
        cases h
        exact ⟨a, b, c, d, rfl, hquad⟩
      · cases h
    · split at h <;> cases h
  · rintro ⟨a, b, c, d, rfl, hquad⟩
    rw [readHexQuad, hquad]
    rfl

theorem scanned_readLowSurrogate_iff {high : Nat} :
    scanned (readLowSurrogate high text : Scan π Char text) = some (ch, rest) ↔
      ∃ a b c d low, text = '\\' :: 'u' :: a :: b :: c :: d :: rest ∧
        hexQuad? a b c d = some low ∧ isLowSurrogate low = true ∧ ch = pairedChar high low := by
  -- The character is kept closed: it is computed from numbers that are too large to be unfolded.
  constructor
  · intro h
    unfold readLowSurrogate at h
    generalize pairedChar high = character at h ⊢
    split at h
    · cases h
    · cases h
    · rename_i left
      obtain ⟨_, h⟩ := scanned_eq_some_iff.1 h
      obtain ⟨⟨low, after, hafter⟩, hquad, h⟩ := bind_eq_ok_iff.1 h
      split at h
      · rename_i hlow
        cases h
        obtain ⟨a, b, c, d, rfl, hdigits⟩ :=
          scanned_readHexQuad_iff.1 (scanned_eq_some_iff.2 ⟨hafter, hquad⟩)
        exact ⟨a, b, c, d, low, rfl, hdigits, hlow, rfl⟩
      · cases h
    · cases h
    · cases h
  · generalize hcharacter : pairedChar high = character
    rintro ⟨a, b, c, d, low, rfl, hquad, hlow, rfl⟩
    have hread : scanned (readHexQuad (a :: b :: c :: d :: rest) : Scan π Nat _) = some (low, rest) :=
      scanned_readHexQuad_iff.2 ⟨a, b, c, d, rfl, hquad⟩
    obtain ⟨_, hread⟩ := scanned_eq_some_iff.1 hread
    rw [readLowSurrogate, hcharacter, hread]
    dsimp only [bind, Except.bind]
    rw [if_pos hlow]
    rfl

theorem scanned_readUnicodeEscape_iff :
    scanned (readUnicodeEscape text : Scan π Char text) = some (ch, rest) ↔
      EscapeRead ('u' :: text) ch rest := by
  constructor
  · intro h
    obtain ⟨_, h⟩ := scanned_eq_some_iff.1 h
    obtain ⟨⟨n, after, hafter⟩, hread, h⟩ := bind_eq_ok_iff.1 h
    obtain ⟨a, b, c, d, rfl, hquad⟩ :=
      scanned_readHexQuad_iff.1 (scanned_eq_some_iff.2 ⟨hafter, hread⟩)
    dsimp only at h
    split at h
    · cases h
    · rename_i hlow
      rw [Bool.not_eq_true] at hlow
      split at h
      · rename_i hhigh
        obtain ⟨⟨paired, left, hleft⟩, hpair, h⟩ := bind_eq_ok_iff.1 h
        cases h
        obtain ⟨a', b', c', d', low, rfl, hquad', hlow', hch⟩ :=
          scanned_readLowSurrogate_iff.1 (scanned_eq_some_iff.2 ⟨hleft, hpair⟩)
        dsimp only
        rw [hch]
        exact .pair hquad hhigh hquad' hlow'
      · rename_i hhigh
        rw [Bool.not_eq_true] at hhigh
        cases h
        exact .single hquad hlow hhigh
  · intro h
    cases h with
    | letter hl => cases hl
    | single hquad hlow hhigh =>
      obtain ⟨_, hread⟩ := scanned_eq_some_iff.1
        ((scanned_readHexQuad_iff (π := π)).2 ⟨_, _, _, _, rfl, hquad⟩)
      rw [readUnicodeEscape, hread]
      dsimp only [bind, Except.bind]
      rw [hlow, hhigh]
      rfl
    | pair hquad hhigh hquad' hlow' =>
      obtain ⟨_, hread⟩ := scanned_eq_some_iff.1
        ((scanned_readHexQuad_iff (π := π)).2 ⟨_, _, _, _, rfl, hquad⟩)
      obtain ⟨_, hpair⟩ := scanned_eq_some_iff.1
        ((scanned_readLowSurrogate_iff (π := π)).2 ⟨_, _, _, _, _, rfl, hquad', hlow', rfl⟩)
      have hlow := isLowSurrogate_of_isHighSurrogate hhigh
      generalize pairedChar _ _ = character at hpair ⊢
      rw [readUnicodeEscape, hread]
      dsimp only [bind, Except.bind]
      rw [hlow, hhigh, if_neg Bool.false_ne_true, if_pos rfl, hpair]
      rfl

theorem scanned_readEscape_iff :
    scanned (readEscape text : Scan π Char text) = some (ch, rest) ↔ EscapeRead text ch rest := by
  cases text with
  | nil => exact iff_of_false nofun nofun
  | cons c text =>
    by_cases hc : c = 'u'
    · subst hc
      rw [← scanned_readUnicodeEscape_iff (π := π), readEscape, if_pos rfl]
      cases (readUnicodeEscape text : Scan π Char text) <;> rfl
    · rw [readEscape, if_neg hc]
      constructor
      · intro h
        split at h
        · rename_i hletter
          cases h
          exact .letter hletter
        · cases h
      · intro h
        cases h with
        | letter hletter =>
          rw [hletter]
          rfl
        | single | pair => exact absurd rfl hc

/-! ## Characters up to the quote -/

/-- The characters of a string up to its quote, which is taken too. -/
inductive CharsRead : (text : List Char) → List Char → (rest : List Char) → Prop
  | quote {rest : List Char} : CharsRead ('"' :: rest) [] rest
  | escape {text middle rest : List Char} {c : Char} {cs : List Char} :
      EscapeRead text c middle → CharsRead middle cs rest →
        CharsRead ('\\' :: text) (c :: cs) rest
  | plain {text rest : List Char} {c : Char} {cs : List Char} :
      c ≠ '"' → c ≠ '\\' → ¬c.toNat < 0x20 → CharsRead text cs rest →
        CharsRead (c :: text) (c :: cs) rest

theorem scanned_readChars_iff {cs : List Char} :
    scanned (readChars text : Scan π (List Char) text) = some (cs, rest) ↔
      CharsRead text cs rest := by
  constructor
  · intro h
    fun_induction readChars (π := π) text generalizing cs with
    | case1 | case3 | case4 | case6 | case7 => cases h
    | case2 left =>
      cases h
      exact .quote
    | case5 left e hescape _ r hchars _ ih =>
      cases h
      have hread := scanned_readEscape_iff.1 (scanned_eq_some_iff.2 ⟨e.shorter, hescape⟩)
      rw [hchars] at ih
      exact .escape hread (ih rfl)
    | case8 c left hquote hslash hcontrol r hchars ih =>
      cases h
      rw [hchars] at ih
      exact .plain hquote hslash hcontrol (ih rfl)
  · intro h
    induction h with
    | quote =>
      rw [readChars.eq_def]
      rfl
    | escape hescape _ ih =>
      obtain ⟨_, hescape⟩ := scanned_eq_some_iff.1 ((scanned_readEscape_iff (π := π)).2 hescape)
      obtain ⟨_, ih⟩ := scanned_eq_some_iff.1 ih
      rw [readChars.eq_def]
      dsimp only
      rw [if_neg (by decide), if_pos rfl, hescape]
      dsimp only
      rw [ih]
      rfl
    | plain hquote hslash hcontrol _ ih =>
      obtain ⟨_, ih⟩ := scanned_eq_some_iff.1 ih
      rw [readChars.eq_def]
      dsimp only
      rw [if_neg hquote, if_neg hslash, if_neg hcontrol, ih]
      rfl

theorem scanned_readString_iff {s : String} :
    scanned (readString text : Scan π String text) = some (s, rest) ↔
      CharsRead text s.toList rest := by
  rw [← scanned_readChars_iff (π := π), readString]
  cases (readChars text : Scan π (List Char) text) with
  | error f => exact iff_of_false nofun nofun
  | ok r =>
    show some (String.ofList r.value, r.rest) = some (s, rest) ↔
      some (r.value, r.rest) = some (s.toList, rest)
    rw [Option.some.injEq, Option.some.injEq, Prod.mk.injEq, Prod.mk.injEq, ← String.toList_inj,
      String.toList_ofList]

end BlockCircuit.Json
