import BlockCircuit.Proofs.Json.Numerals

/-!
# Integers

A numeral that is written with digits alone is an integer as long as it fits a word of 64 bits. The
digits are gathered one by one, and none of them may exceed the word; below zero there is less room
than above. So each integer that fits is read from its decimal digits as just this integer, up to both
ends of the range, and never becomes a double.

* `gatherDigits_eq` — digits are gathered as long as their number is small enough;
* `scanned_readUnsigned_toDigits` — the digits of a natural number, with or without a minus before;
* `numeral_toString` — the decimal digits of an integer are a numeral of it.
-/

namespace BlockCircuit.Json

variable {π : Type}

/-! ## Digits -/

/-- The first digit of a positive number is not zero. -/
theorem exists_toDigits_eq_cons {m : Nat} (hm : 0 < m) :
    ∃ d w, Nat.toDigits 10 m = d.digitChar :: w ∧ 0 < d ∧ d < 10 := by
  induction m using Nat.strongRecOn with
  | ind m ih =>
    rw [Nat.toDigits_eq_if (by decide)]
    split
    · rename_i hsmall
      exact ⟨m, [], rfl, hm, hsmall⟩
    · rename_i hlarge
      obtain ⟨d, w, hdigits, hd⟩ := ih (m / 10) (by omega) (by omega)
      exact ⟨d, w ++ [(m % 10).digitChar], by rw [hdigits, List.cons_append], hd⟩

/-- More digits make a number larger. -/
theorem le_ofDigitChars (w : List Char) (number : Nat) : number ≤ Nat.ofDigitChars 10 w number := by
  rw [Nat.ofDigitChars_eq_ofDigitChars_zero]
  exact Nat.le_add_right_of_le (Nat.le_mul_of_pos_left _ (Nat.pow_pos (by decide)))

/-- Digits are gathered as long as the number that they come to is within the limit. -/
theorem gatherDigits_eq {limit number : Nat} {w : List Char} (hdigits : ∀ c ∈ w, c.isDigit = true)
    (hlimit : Nat.ofDigitChars 10 w number ≤ limit) :
    gatherDigits limit number w = (Nat.ofDigitChars 10 w number, []) := by
  induction w generalizing number with
  | nil => rfl
  | cons c w ih =>
    rw [List.forall_mem_cons] at hdigits
    rw [Nat.ofDigitChars_cons, Nat.mul_comm] at hlimit ⊢
    rw [gatherDigits, if_pos ⟨hdigits.1, Nat.le_trans (le_ofDigitChars w _) hlimit⟩]
    exact ih hdigits.2 hlimit

theorem head?_toDigits_ne_minus (m : Nat) : (Nat.toDigits 10 m).head? ≠ some '-' := by
  intro h
  have hdigit := Nat.isDigit_of_mem_toDigits (b := 10) (by decide) (by decide)
    (List.mem_of_mem_head? h)
  cases hdigit

/-! ## Integers -/

theorem looked_readAfterWhole_nil (negative : Bool) (m : Nat) :
    looked (readAfterWhole negative m 0 [] : Look π Number []) = some (integerOf negative m, []) :=
  rfl

/-- The digits of a natural number that fits are read as the integer of this number. -/
theorem scanned_readUnsigned_toDigits (negative : Bool) {m : Nat} (hm : m ≤ maxSignificand) :
    scanned (readUnsigned negative (Nat.toDigits 10 m) : Scan π Number _) =
      some (integerOf negative m, []) := by
  rcases Nat.eq_zero_or_pos m with rfl | hpos
  · exact scanned_readUnsigned_zero
  · obtain ⟨d, w, hdigits, hd, hten⟩ := exists_toDigits_eq_cons hpos
    have hfirst : ∀ d < 10, d.digitChar.isDigit = true ∧ digitValue d.digitChar = d := by decide
    have hzero : ∀ d < 10, 0 < d → d.digitChar ≠ '0' := by decide
    have hall : ∀ c ∈ w, c.isDigit = true := by
      intro c hc
      have hmem : c ∈ Nat.toDigits 10 m := by rw [hdigits]; exact List.mem_cons_of_mem _ hc
      exact Nat.isDigit_of_mem_toDigits (by decide) (by decide) hmem
    have hnumber : Nat.ofDigitChars 10 w d = m := by
      have hcons : Nat.ofDigitChars 10 (d.digitChar :: w) 0 = Nat.ofDigitChars 10 w d := by
        rw [Nat.ofDigitChars_cons_digitChar_of_lt_ten hten, Nat.mul_zero, Nat.zero_add]
      rw [← hcons, ← hdigits, Nat.ofDigitChars_ten_toDigits]
    have hgather : gatherDigits maxSignificand d w = (m, []) := by
      rw [gatherDigits_eq hall (hnumber ▸ hm), hnumber]
    rw [hdigits, scanned_readUnsigned_digit (hzero d hten hd) (hfirst d hten).1, (hfirst d hten).2,
      hgather]
    exact looked_readAfterWhole_nil negative m

/-- The decimal digits of an integer that fits a signed or an unsigned word of 64 bits are a numeral
of this integer. -/
theorem numeral_toString {n : Int} (hlow : -(maxNegated : Int) ≤ n)
    (hhigh : n ≤ (maxSignificand : Int)) : Numeral (.integer n) (toString n).toList := by
  rw [Int.toString_eq_repr]
  cases n with
  | ofNat m =>
    rw [Int.repr, Nat.toList_repr, Numeral, readNumber_unsigned (head?_toDigits_ne_minus m)]
    exact scanned_readUnsigned_toDigits false (Int.ofNat_le.1 hhigh)
  | negSucc m =>
    have hm : m + 1 ≤ maxNegated := by omega
    have hsign : integerOf true (m + 1) = .integer (Int.negSucc m) := by
      have hfits : ¬(m + 1 = 0 ∨ maxNegated < m + 1) := by omega
      rw [integerOf, if_pos rfl, if_neg hfits]
      rfl
    have hlist : (Int.negSucc m).repr.toList = '-' :: Nat.toDigits 10 (m + 1) := by
      rw [Int.repr, String.toList_append, Nat.toList_repr]
      rfl
    rw [hlist, Numeral, scanned_readNumber_minus, scanned_readUnsigned_toDigits true, hsign]
    exact Nat.le_trans hm (by decide)

end BlockCircuit.Json
