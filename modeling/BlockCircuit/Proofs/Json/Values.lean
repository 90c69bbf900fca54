import BlockCircuit.Json.Reader
import BlockCircuit.Proofs.Json.Steps

/-!
# How values are read

A value is a word, a number or a string, or it is an array or object of values, for which the budget
must not be used up.

* `looked_readWord_iff` — words;
* `ScalarRead`, `scanned_readScalar_iff` — the values that are neither arrays nor objects;
* `ValueRead`, `scanned_readValue_iff` — the values that can be read, and how.
-/

namespace BlockCircuit.Json

variable {π : Type} {text rest : List Char}

/-! ## Words, numbers and strings -/

theorem looked_readWord_iff {letters : List Char} :
    looked (readWord letters text : Look π Unit text) = some ((), rest) ↔ text = letters ++ rest := by
  induction letters generalizing text with
  | nil =>
    show some ((), text) = some ((), rest) ↔ text = rest
    simp
  | cons l letters ih =>
    cases text with
    | nil => exact iff_of_false nofun nofun
    | cons c text =>
      rw [readWord]
      by_cases hc : c = l
      · subst hc
        rw [if_pos rfl, List.cons_append, List.cons_inj_right, ← ih]
        cases (readWord letters text : Look π Unit text) <;> rfl
      · rw [if_neg hc, List.cons_append]
        exact iff_of_false nofun fun h => hc (List.cons.inj h).1

/-- The values that are neither arrays nor objects, and how they are read. -/
inductive ScalarRead (π : Type) : (text : List Char) → Value → (rest : List Char) → Prop
  | null {rest : List Char} : ScalarRead π ('n' :: 'u' :: 'l' :: 'l' :: rest) .null rest
  | true {rest : List Char} : ScalarRead π ('t' :: 'r' :: 'u' :: 'e' :: rest) (.boolean .true) rest
  | false {rest : List Char} :
      ScalarRead π ('f' :: 'a' :: 'l' :: 's' :: 'e' :: rest) (.boolean .false) rest
  | string {text rest : List Char} {s : String} :
      scanned (readString text : Scan π String text) = some (s, rest) →
        ScalarRead π ('"' :: text) (.string s) rest
  | number {text rest : List Char} {c : Char} {n : Number} :
      c = '-' ∨ c.isDigit = Bool.true →
        scanned (readNumber (c :: text) : Scan π Number (c :: text)) = some (n, rest) →
          ScalarRead π (c :: text) (.number n) rest

/-- A word that stands for a value. -/
theorem scanned_word_iff {letters : List Char} {c : Char} {u v : Value} :
    scanned (do
      let r ← readWord letters text
      return r.past.map fun _ => u : Scan π Value (c :: text)) = some (v, rest) ↔
      text = letters ++ rest ∧ v = u := by
  rw [← looked_readWord_iff (π := π)]
  cases (readWord letters text : Look π Unit text) with
  | error f => exact iff_of_false nofun nofun
  | ok r =>
    show some (u, r.rest) = some (v, rest) ↔ some ((), r.rest) = some ((), rest) ∧ v = u
    simp [and_comm, eq_comm]

/-- A number does not begin with a letter or a quote. -/
theorem ne_of_number {c l : Char} (hc : c = '-' ∨ c.isDigit = true) (hl : l ≠ '-')
    (hdigit : l.isDigit = false) : c ≠ l := by
  rintro rfl
  rcases hc with rfl | hc
  · exact hl rfl
  · cases hdigit.symm.trans hc

theorem scanned_readScalar_iff {v : Value} :
    scanned (readScalar text : Scan π Value text) = some (v, rest) ↔ ScalarRead π text v rest := by
  constructor
  · intro h
    cases text with
    | nil => cases h
    | cons c text =>
      rw [readScalar] at h
      split at h
      · rename_i hc
        obtain ⟨rfl, rfl⟩ := scanned_word_iff.1 h
        exact hc ▸ .null
      · split at h
        · rename_i hc
          obtain ⟨rfl, rfl⟩ := scanned_word_iff.1 h
          exact hc ▸ .true
        · split at h
          · rename_i hc
            obtain ⟨rfl, rfl⟩ := scanned_word_iff.1 h
            exact hc ▸ .false
          · split at h
            · rename_i hc
              subst hc
              cases hread : (readString text : Scan π String text) with
              | error f =>
                rw [hread] at h
                cases h
              | ok r =>
                rw [hread] at h
                cases h
                exact .string (scanned_eq_some_iff.2 ⟨r.shorter, hread⟩)
            · split at h
              · rename_i hc
                cases hread : (readNumber (c :: text) : Scan π Number (c :: text)) with
                | error f =>
                  rw [hread] at h
                  cases h
                | ok r =>
                  rw [hread] at h
                  cases h
                  exact .number hc (scanned_eq_some_iff.2 ⟨r.shorter, hread⟩)
              · cases h
  · intro h
    cases h with
    | null | true | false => exact scanned_word_iff.2 ⟨rfl, rfl⟩
    | string hread =>
      obtain ⟨hshorter, hread⟩ := scanned_eq_some_iff.1 hread
      rw [readScalar, if_neg (by decide), if_neg (by decide), if_neg (by decide), if_pos rfl, hread]
      rfl
    | @number text _ c n hc hread =>
      obtain ⟨hshorter, hread⟩ := scanned_eq_some_iff.1 hread
      rw [readScalar, if_neg (ne_of_number hc (by decide) (by decide)),
        if_neg (ne_of_number hc (by decide) (by decide)),
        if_neg (ne_of_number hc (by decide) (by decide)),
        if_neg (ne_of_number hc (by decide) (by decide)), if_pos hc, hread]
      rfl

/-! ## Arrays and objects -/

/-- The values that can be read, and how: arrays and objects use up the budget one by one. -/
inductive ValueRead (π : Type) : (budget : Nat) → (text : List Char) → Value → (rest : List Char) →
    Prop
  | array {budget : Nat} {text inside after rest : List Char} {items : List Value} :
      skipBlanks text = '[' :: inside →
        ElementsRead (fun t v r => scanned (readValue budget t : Scan π Value t) = some (v, r))
          true inside items after →
          skipBlanks after = ']' :: rest → ValueRead π (budget + 1) text (.array items) rest
  | object {budget : Nat} {text inside after rest : List Char} {members : List (String × Value)} :
      skipBlanks text = '\x7b' :: inside →
        MembersRead π (fun t v r => scanned (readValue budget t : Scan π Value t) = some (v, r))
          true inside members after →
          skipBlanks after = '\x7d' :: rest → ValueRead π (budget + 1) text (.object members) rest
  | scalar {budget : Nat} {text after rest : List Char} {c : Char} {v : Value} :
      skipBlanks text = c :: after → c ≠ '[' → c ≠ '\x7b' → ScalarRead π (c :: after) v rest →
        ValueRead π budget text v rest

theorem ValueRead.begins {budget : Nat} {v : Value} (h : ValueRead π budget text v rest) :
    ∃ c after, skipBlanks text = c :: after := by
  cases h with
  | array htext | object htext | scalar htext => exact ⟨_, _, htext⟩

theorem ValueRead.of_skipBlanks {budget : Nat} {next : List Char} {v : Value}
    (h : ValueRead π budget next v rest) (hskip : skipBlanks text = skipBlanks next) :
    ValueRead π budget text v rest := by
  cases h with
  | array hnext h hclose => exact .array (hskip.trans hnext) h hclose
  | object hnext h hclose => exact .object (hskip.trans hnext) h hclose
  | scalar hnext harray hobject h => exact .scalar (hskip.trans hnext) harray hobject h

section
variable {budget : Nat} {inside after : List Char} {c : Char}

theorem scanned_readValue_array (h : skipBlanks text = '[' :: inside) :
    scanned (readValue (budget + 1) text : Scan π Value text) =
      (looked (closed closeArray (readElements (readValue budget) true inside) :
        Look π (List Value) inside)).map (Prod.map .array id) := by
  rw [readValue.eq_def]
  split
  · rename_i hskip
    cases h.symm.trans hskip
  · rename_i hskip
    cases h.symm.trans hskip
    rw [if_pos rfl]
    dsimp only
    cases (closed closeArray (readElements (readValue budget) true inside) :
      Look π (List Value) inside) <;> rfl

theorem scanned_readValue_object (h : skipBlanks text = '\x7b' :: inside) :
    scanned (readValue (budget + 1) text : Scan π Value text) =
      (looked (closed closeObject (readMembers (collect (readValue budget)) true [] inside) :
        Look π (List (String × Value)) inside)).map (Prod.map .object id) := by
  rw [readValue.eq_def]
  split
  · rename_i hskip
    cases h.symm.trans hskip
  · rename_i hskip
    cases h.symm.trans hskip
    rw [if_neg (by decide), if_pos rfl]
    have hcollect : collect (readValue (π := π) budget) = fun key members t => do
        let r ← afterColon (readValue budget) t
        return r.map fun value => members ++ [(key, value)] := by
      funext key members t
      rw [collect]
      cases (afterColon (readValue budget) t : Scan π Value t) <;> rfl
    rw [hcollect]
    dsimp only
    cases (closed closeObject (readMembers _ true [] inside) :
      Look π (List (String × Value)) inside) <;> rfl

theorem scanned_readValue_zero (h : skipBlanks text = c :: inside) (hc : c = '[' ∨ c = '\x7b') :
    scanned (readValue 0 text : Scan π Value text) = none := by
  rw [readValue.eq_def]
  split
  · rename_i hskip
    cases h.symm.trans hskip
  · rename_i hskip
    cases h.symm.trans hskip
    rcases hc with rfl | rfl <;> rfl

theorem scanned_readValue_scalar (h : skipBlanks text = c :: after) (harray : c ≠ '[')
    (hobject : c ≠ '\x7b') :
    scanned (readValue budget text : Scan π Value text) =
      scanned (readScalar (c :: after) : Scan π Value (c :: after)) := by
  rw [readValue.eq_def]
  split
  · rename_i hskip
    cases h.symm.trans hskip
  · rename_i hskip
    cases h.symm.trans hskip
    rw [if_neg harray, if_neg hobject]
    cases (readScalar (c :: after) : Scan π Value (c :: after)) <;> rfl

end

theorem scanned_readValue_iff {budget : Nat} {v : Value} :
    scanned (readValue budget text : Scan π Value text) = some (v, rest) ↔
      ValueRead π budget text v rest := by
  constructor
  · intro h
    cases hskip : skipBlanks text with
    | nil =>
      rw [readValue.eq_def] at h
      split at h
      · cases h
      · rename_i htext
        cases hskip.symm.trans htext
    | cons c after =>
      by_cases harray : c = '['
      · subst harray
        cases budget with
        | zero => cases (scanned_readValue_zero hskip (.inl rfl)).symm.trans h
        | succ budget =>
          rw [scanned_readValue_array hskip, Option.map_eq_some_iff] at h
          obtain ⟨⟨items, left⟩, hclosed, h⟩ := h
          cases h
          obtain ⟨middle, helements, hended⟩ := looked_closed_eq_some_iff.1 hclosed
          exact .array hskip (looked_readElements_iff.1 helements) (ended_closeArray_iff.1 hended)
      · by_cases hobject : c = '\x7b'
        · subst hobject
          cases budget with
          | zero => cases (scanned_readValue_zero hskip (.inr rfl)).symm.trans h
          | succ budget =>
            rw [scanned_readValue_object hskip, Option.map_eq_some_iff] at h
            obtain ⟨⟨members, left⟩, hclosed, h⟩ := h
            cases h
            obtain ⟨middle, hmembers, hended⟩ := looked_closed_eq_some_iff.1 hclosed
            obtain ⟨new, rfl, hnew⟩ := looked_readMembers_iff.1 hmembers
            exact .object hskip hnew (ended_closeObject_iff.1 hended)
        · rw [scanned_readValue_scalar hskip harray hobject] at h
          exact .scalar hskip harray hobject (scanned_readScalar_iff.1 h)
  · intro h
    cases h with
    | array hskip helements hclose =>
      have hclosed := looked_closed_eq_some_iff.2
        ⟨_, looked_readElements_iff.2 helements, ended_closeArray_iff.2 hclose⟩
      rw [scanned_readValue_array hskip, hclosed]
      rfl
    | @object _ _ _ _ _ members hskip hmembers hclose =>
      have hread := looked_readMembers_iff.2 ⟨members, (List.nil_append _).symm, hmembers⟩
      have hclosed := looked_closed_eq_some_iff.2 ⟨_, hread, ended_closeObject_iff.2 hclose⟩
      rw [scanned_readValue_object hskip, hclosed]
      rfl
    | scalar hskip harray hobject hscalar =>
      rw [scanned_readValue_scalar hskip harray hobject, scanned_readScalar_iff.2 hscalar]

end BlockCircuit.Json
