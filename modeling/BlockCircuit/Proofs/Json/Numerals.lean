import BlockCircuit.Proofs.Json.Skipping

/-!
# Numerals

A numeral has no closing character: it ends where a blank, a comma or the end of an array or object
follows, or where the text ends. What it stands for does not depend on which of these follows.

* `Delimited` — a numeral that ends before this text ends there;
* `looked_readExponentDigits`, `looked_readScale`, `looked_readFraction` — what the parts of a
  numeral come to, whatever readers of other texts fail with;
* `Numeral`, `Numeral.scanned_readNumber` — a numeral is read wherever it stands.
-/

namespace BlockCircuit.Json

variable {π ρ : Type} {text rest : List Char}

/-! ## Ends of tokens -/

/-- Whether a character ends the numeral before it. -/
def endsToken (c : Char) : Bool :=
  isBlank c || c = ',' || c = ']' || c = '\x7d'

/-- A numeral ends before this text. -/
def Delimited (rest : List Char) : Prop :=
  ∀ c ∈ rest.head?, endsToken c = true

theorem delimited_nil : Delimited [] :=
  nofun

theorem delimited_cons {c : Char} (hc : endsToken c = true) : Delimited (c :: rest) := by
  intro d hd
  cases hd
  exact hc

theorem Delimited.ne {c d : Char} (h : Delimited (c :: rest)) (hd : endsToken d = false) : c ≠ d := by
  rintro rfl
  cases (h c rfl).symm.trans hd

theorem Delimited.head?_ne {d : Char} (h : Delimited rest) (hd : endsToken d = false) :
    rest.head? ≠ some d := by
  intro hrest
  cases (h d hrest).symm.trans hd

theorem isDigit_of_endsToken {c : Char} (h : endsToken c = true) : c.isDigit = false := by
  simp only [endsToken, isBlank, Bool.or_eq_true, decide_eq_true_eq] at h
  rcases h with (((((rfl | rfl) | rfl) | rfl) | rfl) | rfl) | rfl <;> rfl

theorem Delimited.startsWithDigit (h : Delimited rest) : startsWithDigit rest = false := by
  cases rest with
  | nil => rfl
  | cons c rest => exact isDigit_of_endsToken (h c rfl)

theorem exponentSign_of_ne {c : Char} (hplus : c ≠ '+') (hminus : c ≠ '-') :
    exponentSign (c :: text) = (false, c :: text) := by
  unfold exponentSign
  split
  · rename_i heq
    exact absurd (List.cons.inj heq).1 hplus
  · rename_i heq
    exact absurd (List.cons.inj heq).1 hminus
  · rfl

/-! ## Digits before the end -/

section
variable (w : List Char) (h : Delimited rest)
include h

theorem startsWithDigit_append : startsWithDigit (w ++ rest) = startsWithDigit w := by
  cases w with
  | nil => exact h.startsWithDigit
  | cons c w => rfl

theorem head?_append_eq_iff {d : Char} (hd : endsToken d = false) :
    (w ++ rest).head? = some d ↔ w.head? = some d := by
  cases w with
  | nil => exact iff_of_false (h.head?_ne hd) nofun
  | cons c w => rfl

theorem gatherDigits_append (limit number : Nat) :
    gatherDigits limit number (w ++ rest) =
      ((gatherDigits limit number w).1, (gatherDigits limit number w).2 ++ rest) := by
  induction w generalizing number with
  | nil =>
    have hdigit := h.startsWithDigit
    cases rest with
    | nil => rfl
    | cons c rest =>
      have hc : ¬(c.isDigit = true ∧ number * 10 + digitValue c ≤ limit) := by
        rintro ⟨hc, -⟩
        cases hc.symm.trans hdigit
      rw [List.nil_append, gatherDigits.eq_def]
      exact if_neg hc
  | cons c w ih =>
    rw [List.cons_append, gatherDigits, gatherDigits]
    split
    · exact ih _
    · rfl

theorem skipDigits_append : skipDigits (w ++ rest) = skipDigits w ++ rest := by
  induction w with
  | nil =>
    have hdigit := h.startsWithDigit
    exact skipDigits_of_not_startsWithDigit (by simp [hdigit])
  | cons c w ih =>
    by_cases hc : c.isDigit = true
    · rw [List.cons_append, skipDigits_cons hc, skipDigits_cons hc, ih]
    · have hw (left : List Char) : ¬startsWithDigit (c :: left) = true := hc
      rw [skipDigits_of_not_startsWithDigit (hw _), List.cons_append,
        skipDigits_of_not_startsWithDigit (hw _)]

theorem exponentSign_append :
    exponentSign (w ++ rest) = ((exponentSign w).1, (exponentSign w).2 ++ rest) := by
  cases w with
  | nil =>
    cases rest with
    | nil => rfl
    | cons c rest => exact exponentSign_of_ne (h.ne (by decide)) (h.ne (by decide))
  | cons c w =>
    by_cases hplus : c = '+'
    · subst hplus
      rfl
    · by_cases hminus : c = '-'
      · subst hminus
        rfl
      · rw [exponentSign_of_ne hplus hminus, List.cons_append, exponentSign_of_ne hplus hminus]

end

/-! ## Parts of numerals -/

/-- The double `significand * 10 ^ exponent`, if it is not too large. -/
def double? (negative : Bool) (significand : Nat) (exponent : Int) : Option Number :=
  ((Decimal.Magnitude.ofNat significand).timesPowerOfTen? exponent).map fun m =>
    .double ⟨negative, m⟩

/-- Another rest of the text. -/
def extend (rest : List Char) (r : Number × List Char) : Number × List Char :=
  (r.1, r.2 ++ rest)

section
variable {negative down : Bool} {significand dropped : Nat} {exponent : Int}

theorem toOption_doubleOf (rest : List Char) :
    (doubleOf negative significand exponent rest : Except (Failure π) Number).toOption =
      double? negative significand exponent := by
  rw [doubleOf, double?]
  cases (Decimal.Magnitude.ofNat significand).timesPowerOfTen? exponent <;> rfl

theorem looked_double (left : List Char) (hleft : left.length ≤ text.length) :
    looked (do
      let number ← (doubleOf negative significand exponent rest : Except (Failure π) Number)
      return ⟨number, left, hleft⟩ : Look π Number text) =
      (double? negative significand exponent).map fun n => (n, left) := by
  rw [← toOption_doubleOf (π := π) rest]
  cases (doubleOf negative significand exponent rest : Except (Failure π) Number) <;> rfl

theorem looked_readExponentDigits :
    looked (readExponentDigits negative down significand exponent text : Look π Number text) =
      if startsWithDigit text then
        if startsWithDigit (gatherDigits maxExponent 0 text).2 then
          if significand ≠ 0 ∧ !down then none
          else some (.double ⟨negative, .zero⟩, skipDigits (gatherDigits maxExponent 0 text).2)
        else
          (double? negative significand
            (if down then exponent - (gatherDigits maxExponent 0 text).1
            else exponent + (gatherDigits maxExponent 0 text).1)).map
              fun n => (n, (gatherDigits maxExponent 0 text).2)
      else none := by
  cases text with
  | nil => rfl
  | cons c text =>
    rw [readExponentDigits, startsWithDigit]
    split
    · dsimp only
      split
      · split <;> rfl
      · exact looked_double _ _
    · rfl

theorem looked_readExponent :
    looked (readExponent negative significand exponent text : Look π Number text) =
      looked (readExponentDigits negative (exponentSign text).1 significand exponent
        (exponentSign text).2 : Look π Number (exponentSign text).2) := by
  rw [readExponent]
  cases (readExponentDigits negative (exponentSign text).1 significand exponent
    (exponentSign text).2 : Look π Number (exponentSign text).2) <;> rfl

theorem looked_readScale :
    looked (readScale negative significand exponent text : Look π Number text) =
      if text.head? = some 'e' ∨ text.head? = some 'E' then
        looked (readExponent negative significand exponent text.tail : Look π Number text.tail)
      else (double? negative significand exponent).map fun n => (n, text) := by
  cases text with
  | nil =>
    rw [if_neg (by rintro (h | h) <;> cases h), readScale]
    exact looked_double _ _
  | cons c text =>
    have hhead : (c :: text).head? = some 'e' ∨ (c :: text).head? = some 'E' ↔ c = 'e' ∨ c = 'E' := by
      simp
    by_cases hc : c = 'e' ∨ c = 'E'
    · rw [readScale, if_pos hc, if_pos (hhead.2 hc), List.tail_cons]
      cases (readExponent negative significand exponent text : Look π Number text) <;> rfl
    · rw [readScale, if_neg hc, if_neg (mt hhead.1 hc)]
      exact looked_double _ _

theorem looked_readFraction :
    looked (readFraction negative significand exponent text : Look π Number text) =
      if startsWithDigit text then
        looked (readScale negative (gatherDigits maxSignificand significand text).1
          (exponent - (text.length - (gatherDigits maxSignificand significand text).2.length : Nat))
          (skipDigits (gatherDigits maxSignificand significand text).2) : Look π Number _)
      else none := by
  cases text with
  | nil => rfl
  | cons c text =>
    rw [readFraction, startsWithDigit]
    split
    · dsimp only
      cases (readScale negative (gatherDigits maxSignificand significand (c :: text)).1
        (exponent - ((c :: text).length -
          (gatherDigits maxSignificand significand (c :: text)).2.length : Nat))
        (skipDigits (gatherDigits maxSignificand significand (c :: text)).2) :
          Look π Number _) <;> rfl
    · rfl

theorem looked_readAfterWhole :
    looked (readAfterWhole negative significand dropped text : Look π Number text) =
      if text.head? = some '.' then
        looked (readFraction negative significand dropped text.tail : Look π Number text.tail)
      else if dropped = 0 ∧ text.head? ≠ some 'e' ∧ text.head? ≠ some 'E' then
        some (integerOf negative significand, text)
      else looked (readScale negative significand dropped text : Look π Number text) := by
  by_cases hpoint : text.head? = some '.'
  · obtain ⟨text, rfl⟩ := List.head?_eq_some_iff.1 hpoint
    rw [if_pos hpoint, List.tail_cons, readAfterWhole]
    cases (readFraction negative significand dropped text : Look π Number text) <;> rfl
  · rw [readAfterWhole_of_no_point hpoint, if_neg hpoint]
    split <;> rfl

theorem scanned_readUnsigned_zero :
    scanned (readUnsigned negative ('0' :: text) : Scan π Number ('0' :: text)) =
      if startsWithDigit text then none
      else looked (readAfterWhole negative 0 0 text : Look π Number text) := by
  rw [readUnsigned, if_pos rfl]
  split
  · rfl
  · cases (readAfterWhole negative 0 0 text : Look π Number text) <;> rfl

theorem scanned_readUnsigned_digit {c : Char} (hzero : c ≠ '0') (hc : c.isDigit = true) :
    scanned (readUnsigned negative (c :: text) : Scan π Number (c :: text)) =
      looked (readAfterWhole negative (gatherDigits maxSignificand (digitValue c) text).1
        ((gatherDigits maxSignificand (digitValue c) text).2.length -
          (skipDigits (gatherDigits maxSignificand (digitValue c) text).2).length)
        (skipDigits (gatherDigits maxSignificand (digitValue c) text).2) : Look π Number _) := by
  rw [readUnsigned, if_neg hzero, if_pos hc]
  dsimp only
  cases (readAfterWhole negative (gatherDigits maxSignificand (digitValue c) text).1
    ((gatherDigits maxSignificand (digitValue c) text).2.length -
      (skipDigits (gatherDigits maxSignificand (digitValue c) text).2).length)
    (skipDigits (gatherDigits maxSignificand (digitValue c) text).2) : Look π Number _) <;> rfl

theorem scanned_readUnsigned_none (h : startsWithDigit text = false) :
    scanned (readUnsigned negative text : Scan π Number text) = none := by
  cases text with
  | nil => rfl
  | cons c text =>
    have hzero : c ≠ '0' := by
      rintro rfl
      cases h
    have hc : ¬c.isDigit = true := Bool.eq_false_iff.1 h
    rw [readUnsigned, if_neg hzero, if_neg hc]
    rfl

theorem scanned_readNumber_minus :
    scanned (readNumber ('-' :: text) : Scan π Number ('-' :: text)) =
      scanned (readUnsigned true text : Scan π Number text) := by
  rw [readNumber]
  cases (readUnsigned true text : Scan π Number text) <;> rfl

theorem readNumber_unsigned (h : text.head? ≠ some '-') :
    (readNumber text : Scan π Number text) = readUnsigned false text := by
  unfold readNumber
  split
  · exact absurd rfl h
  · rfl

end

/-! ## What follows a numeral -/

section
variable {negative down : Bool} {significand dropped : Nat} {exponent : Int} (w : List Char)
  (h : Delimited rest)
include h

theorem looked_readExponentDigits_append :
    looked (readExponentDigits negative down significand exponent (w ++ rest) : Look π Number _) =
      (looked (readExponentDigits negative down significand exponent w : Look ρ Number w)).map
        (extend rest) := by
  rw [looked_readExponentDigits, looked_readExponentDigits, startsWithDigit_append w h,
    gatherDigits_append w h, startsWithDigit_append _ h, skipDigits_append _ h]
  split
  · split
    · split <;> rfl
    · rw [Option.map_map]
      rfl
  · rfl

theorem looked_readScale_append :
    looked (readScale negative significand exponent (w ++ rest) : Look π Number _) =
      (looked (readScale negative significand exponent w : Look ρ Number w)).map (extend rest) := by
  have he := head?_append_eq_iff w h (d := 'e') (by decide)
  have hE := head?_append_eq_iff w h (d := 'E') (by decide)
  rw [looked_readScale, looked_readScale]
  simp only [he, hE]
  split
  · rename_i hexponent
    have hw : w ≠ [] := by
      rintro rfl
      rcases hexponent with hexponent | hexponent <;> cases hexponent
    rw [List.tail_append_of_ne_nil hw, looked_readExponent, looked_readExponent,
      exponentSign_append _ h]
    exact looked_readExponentDigits_append _ h
  · rw [Option.map_map]
    rfl

theorem looked_readFraction_append :
    looked (readFraction negative significand exponent (w ++ rest) : Look π Number _) =
      (looked (readFraction negative significand exponent w : Look ρ Number w)).map
        (extend rest) := by
  rw [looked_readFraction, looked_readFraction, startsWithDigit_append w h, gatherDigits_append w h]
  dsimp only
  rw [skipDigits_append _ h, List.length_append, List.length_append, Nat.add_sub_add_right]
  split
  · exact looked_readScale_append _ h
  · rfl

theorem looked_readAfterWhole_append :
    looked (readAfterWhole negative significand dropped (w ++ rest) : Look π Number _) =
      (looked (readAfterWhole negative significand dropped w : Look ρ Number w)).map
        (extend rest) := by
  have hpoint := head?_append_eq_iff w h (d := '.') (by decide)
  have he := head?_append_eq_iff w h (d := 'e') (by decide)
  have hE := head?_append_eq_iff w h (d := 'E') (by decide)
  rw [looked_readAfterWhole, looked_readAfterWhole]
  simp only [hpoint, ne_eq, he, hE]
  split
  · rename_i hpoint
    have hw : w ≠ [] := by
      rintro rfl
      cases hpoint
    rw [List.tail_append_of_ne_nil hw]
    exact looked_readFraction_append _ h
  · split
    · rfl
    · exact looked_readScale_append _ h

theorem scanned_readUnsigned_append :
    scanned (readUnsigned negative (w ++ rest) : Scan π Number _) =
      (scanned (readUnsigned negative w : Scan ρ Number w)).map (extend rest) := by
  cases w with
  | nil =>
    rw [List.nil_append, scanned_readUnsigned_none h.startsWithDigit]
    rfl
  | cons c w =>
    rw [List.cons_append]
    by_cases hzero : c = '0'
    · subst hzero
      rw [scanned_readUnsigned_zero, scanned_readUnsigned_zero, startsWithDigit_append w h]
      split
      · rfl
      · exact looked_readAfterWhole_append w h
    · by_cases hc : c.isDigit = true
      · rw [scanned_readUnsigned_digit hzero hc, scanned_readUnsigned_digit hzero hc,
          gatherDigits_append w h]
        dsimp only
        rw [skipDigits_append _ h, List.length_append, List.length_append, Nat.add_sub_add_right]
        exact looked_readAfterWhole_append _ h
      · have hdigit (left : List Char) : startsWithDigit (c :: left) = false :=
          Bool.eq_false_iff.2 hc
        rw [scanned_readUnsigned_none (hdigit _), scanned_readUnsigned_none (hdigit _)]
        rfl

/-- What follows a numeral is left as it is. -/
theorem scanned_readNumber_append :
    scanned (readNumber (w ++ rest) : Scan π Number _) =
      (scanned (readNumber w : Scan ρ Number w)).map (extend rest) := by
  by_cases hminus : w.head? = some '-'
  · obtain ⟨w, rfl⟩ := List.head?_eq_some_iff.1 hminus
    rw [List.cons_append, scanned_readNumber_minus, scanned_readNumber_minus]
    exact scanned_readUnsigned_append w h
  · rw [readNumber_unsigned hminus,
      readNumber_unsigned (mt (head?_append_eq_iff w h (by decide)).1 hminus)]
    exact scanned_readUnsigned_append w h

end

/-! ## Numerals -/

/-- A text that is read as a number and as nothing else. Which double it stands for is for the reader
of numbers to say. -/
def Numeral (n : Number) (w : List Char) : Prop :=
  scanned (readNumber w : Scan Empty Number w) = some (n, [])

instance (n : Number) (w : List Char) : Decidable (Numeral n w) :=
  inferInstanceAs (Decidable (scanned (readNumber w : Scan Empty Number w) = some (n, [])))

/-- A numeral is read wherever it stands. -/
theorem Numeral.scanned_readNumber {n : Number} {w : List Char} (h : Numeral n w)
    (hrest : Delimited rest) :
    scanned (readNumber (w ++ rest) : Scan π Number _) = some (n, rest) := by
  rw [scanned_readNumber_append (ρ := Empty) w hrest, h]
  rfl

/-- A numeral begins with a minus or a digit. -/
theorem Numeral.begins {n : Number} {w : List Char} (h : Numeral n w) :
    ∃ c left, w = c :: left ∧ (c = '-' ∨ c.isDigit = true) := by
  cases w with
  | nil => cases h
  | cons c w =>
    refine ⟨c, w, rfl, ?_⟩
    by_cases hminus : c = '-'
    · exact .inl hminus
    · by_cases hc : c.isDigit = true
      · exact .inr hc
      · have hdigit : startsWithDigit (c :: w) = false := Bool.eq_false_iff.2 hc
        rw [Numeral, readNumber_unsigned (by simpa using hminus),
          scanned_readUnsigned_none hdigit] at h
        cases h

end BlockCircuit.Json
