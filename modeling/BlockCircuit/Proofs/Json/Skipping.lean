import BlockCircuit.Json.Skip
import BlockCircuit.Proofs.Json.Strings
import BlockCircuit.Proofs.Json.Values

/-!
# Skipping and reading

A value that can be read can also be skipped, and the same is left of the text. The converse fails:
values may be skipped that are nested too deeply to be read, numbers that are out of range, and
surrogates without their other half.

* `scanned_skipNumber`, `scanned_skipString`, `scanned_skipScalar` — numbers, strings, words;
* `ValueRead.skipsTo` — skipping a value leads where reading it does, whatever is open;
* `looked_skipValue` — what can be read can be skipped.
-/

namespace BlockCircuit.Json

variable {π : Type} {text rest : List Char}

/-! ## Numbers -/

theorem skipDigits_cons {c : Char} (hc : c.isDigit = true) :
    skipDigits (c :: text) = skipDigits text := by
  rw [skipDigits, List.dropWhile_cons_of_pos hc, skipDigits]

theorem skipDigits_of_not_startsWithDigit (h : ¬startsWithDigit text = true) :
    skipDigits text = text := by
  cases text with
  | nil => rfl
  | cons c text => exact List.dropWhile_cons_of_neg h

theorem skipDigits_gatherDigits (limit number : Nat) (text : List Char) :
    skipDigits (gatherDigits limit number text).2 = skipDigits text := by
  induction text generalizing number with
  | nil => rfl
  | cons c text ih =>
    rw [gatherDigits]
    split
    · rename_i hc
      rw [ih, skipDigits_cons hc.1]
    · rfl

section
variable {negative down : Bool} {significand dropped : Nat} {exponent : Int} {n : Number}

theorem looked_skipExponentDigits
    (h : looked (readExponentDigits negative down significand exponent text : Look π Number text) =
      some (n, rest)) :
    looked (skipExponentDigits text : Look π Unit text) = some ((), rest) := by
  obtain ⟨_, h⟩ := looked_eq_some_iff.1 h
  cases text with
  | nil => cases h
  | cons c text =>
    rw [readExponentDigits] at h
    rw [skipExponentDigits]
    split at h
    · rename_i hc
      rw [if_pos hc]
      have hskip := skipDigits_gatherDigits maxExponent 0 (c :: text)
      rw [skipDigits_cons hc] at hskip
      dsimp only at h
      split at h
      · split at h
        · cases h
        · cases h
          exact congrArg (fun left => some ((), left)) hskip.symm
      · rename_i hdigit
        rw [skipDigits_of_not_startsWithDigit hdigit] at hskip
        obtain ⟨m, -, h⟩ := bind_eq_ok_iff.1 h
        cases h
        exact congrArg (fun left => some ((), left)) hskip.symm
    · cases h

theorem looked_skipScale
    (h : looked (readScale negative significand exponent text : Look π Number text) =
      some (n, rest)) :
    looked (skipScale text : Look π Unit text) = some ((), rest) := by
  obtain ⟨_, h⟩ := looked_eq_some_iff.1 h
  cases text with
  | nil =>
    obtain ⟨m, -, h⟩ := bind_eq_ok_iff.1 h
    cases h
    rfl
  | cons c text =>
    rw [readScale] at h
    rw [skipScale]
    split at h
    · rename_i hc
      rw [if_pos hc]
      obtain ⟨r, hexponent, h⟩ := bind_eq_ok_iff.1 h
      obtain ⟨r', hdigits, hr⟩ := bind_eq_ok_iff.1 hexponent
      cases hr
      cases h
      have hskip := looked_skipExponentDigits (looked_eq_some_iff.2 ⟨r'.noLonger, hdigits⟩)
      obtain ⟨_, hskip⟩ := looked_eq_some_iff.1 hskip
      rw [hskip]
      rfl
    · rename_i hc
      rw [if_neg hc]
      obtain ⟨m, -, h⟩ := bind_eq_ok_iff.1 h
      cases h
      rfl

theorem readAfterWhole_of_no_point (h : text.head? ≠ some '.') :
    (readAfterWhole negative significand dropped text : Look π Number text) =
      if dropped = 0 ∧ text.head? ≠ some 'e' ∧ text.head? ≠ some 'E' then
        .ok (.nothing (integerOf negative significand))
      else readScale negative significand dropped text := by
  unfold readAfterWhole
  split
  · exact absurd rfl h
  · rfl

theorem skipAfterWhole_of_no_point (h : text.head? ≠ some '.') :
    (skipAfterWhole text : Look π Unit text) = skipScale text := by
  unfold skipAfterWhole
  split
  · exact absurd rfl h
  · rfl

theorem looked_skipScale_of_no_exponent (he : text.head? ≠ some 'e') (hE : text.head? ≠ some 'E') :
    looked (skipScale text : Look π Unit text) = some ((), text) := by
  cases text with
  | nil => rfl
  | cons c text =>
    rw [skipScale, if_neg]
    · rfl
    · rintro (rfl | rfl)
      · exact he rfl
      · exact hE rfl

theorem looked_skipFraction
    (h : looked (readFraction negative significand exponent text : Look π Number text) =
      some (n, rest)) :
    looked (skipAfterWhole ('.' :: text) : Look π Unit ('.' :: text)) = some ((), rest) := by
  obtain ⟨_, h⟩ := looked_eq_some_iff.1 h
  rw [skipAfterWhole]
  cases text with
  | nil => cases h
  | cons c text =>
    rw [readFraction] at h
    split at h
    · rename_i hc
      dsimp only at h
      obtain ⟨⟨m, left, hleft⟩, hscale, h⟩ := bind_eq_ok_iff.1 h
      cases h
      have hskip := looked_skipScale (looked_eq_some_iff.2 ⟨hleft, hscale⟩)
      rw [skipDigits_gatherDigits] at hskip
      obtain ⟨_, hskip⟩ := looked_eq_some_iff.1 hskip
      rw [startsWithDigit, if_pos hc, hskip]
      rfl
    · cases h

theorem looked_skipAfterWhole
    (h : looked (readAfterWhole negative significand dropped text : Look π Number text) =
      some (n, rest)) :
    looked (skipAfterWhole text : Look π Unit text) = some ((), rest) := by
  by_cases hpoint : text.head? = some '.'
  · obtain ⟨text, rfl⟩ : ∃ left, text = '.' :: left := by
      cases text with
      | nil => cases hpoint
      | cons c left =>
        cases hpoint
        exact ⟨left, rfl⟩
    obtain ⟨_, h⟩ := looked_eq_some_iff.1 h
    obtain ⟨r, hfraction, h⟩ := bind_eq_ok_iff.1 h
    cases h
    exact looked_skipFraction (looked_eq_some_iff.2 ⟨r.noLonger, hfraction⟩)
  · rw [readAfterWhole_of_no_point hpoint] at h
    rw [skipAfterWhole_of_no_point hpoint]
    split at h
    · rename_i hwhole
      cases h
      exact looked_skipScale_of_no_exponent hwhole.2.1 hwhole.2.2
    · exact looked_skipScale h

theorem scanned_skipUnsigned
    (h : scanned (readUnsigned negative text : Scan π Number text) = some (n, rest)) :
    scanned (skipUnsigned text : Scan π Unit text) = some ((), rest) := by
  obtain ⟨_, h⟩ := scanned_eq_some_iff.1 h
  cases text with
  | nil => cases h
  | cons c text =>
    rw [readUnsigned] at h
    rw [skipUnsigned]
    split at h
    · rename_i hzero
      rw [if_pos hzero]
      split at h
      · cases h
      · rename_i hdigit
        rw [if_neg hdigit]
        obtain ⟨r, hwhole, h⟩ := bind_eq_ok_iff.1 h
        cases h
        have hskip := looked_skipAfterWhole (looked_eq_some_iff.2 ⟨r.noLonger, hwhole⟩)
        obtain ⟨_, hskip⟩ := looked_eq_some_iff.1 hskip
        rw [hskip]
        rfl
    · rename_i hzero
      rw [if_neg hzero]
      split at h
      · rename_i hdigit
        rw [if_pos hdigit]
        dsimp only at h
        obtain ⟨⟨m, left, hleft⟩, hwhole, h⟩ := bind_eq_ok_iff.1 h
        cases h
        have hskip := looked_skipAfterWhole (looked_eq_some_iff.2 ⟨hleft, hwhole⟩)
        rw [skipDigits_gatherDigits] at hskip
        obtain ⟨_, hskip⟩ := looked_eq_some_iff.1 hskip
        rw [hskip]
        rfl
      · cases h

/-- A number that can be read can be skipped. -/
theorem scanned_skipNumber (h : scanned (readNumber text : Scan π Number text) = some (n, rest)) :
    scanned (skipNumber text : Scan π Unit text) = some ((), rest) := by
  unfold readNumber at h
  split at h
  · rename_i text
    obtain ⟨_, h⟩ := scanned_eq_some_iff.1 h
    obtain ⟨r, hunsigned, h⟩ := bind_eq_ok_iff.1 h
    cases h
    have hskip := scanned_skipUnsigned (scanned_eq_some_iff.2 ⟨r.shorter, hunsigned⟩)
    obtain ⟨_, hskip⟩ := scanned_eq_some_iff.1 hskip
    rw [skipNumber, hskip]
    rfl
  · rename_i text hminus
    rw [skipNumber]
    · exact scanned_skipUnsigned h
    · exact hminus

end

/-! ## Strings -/

theorem scanned_skipString_escape :
    scanned (skipString ('\\' :: text) : Scan π Unit ('\\' :: text)) =
      (scanned (skipEscape text : Scan π Unit text)).bind fun r =>
        scanned (skipString r.2 : Scan π Unit r.2) := by
  rw [skipString.eq_def]
  dsimp only
  rw [if_neg (by decide), if_pos rfl]
  cases (skipEscape text : Scan π Unit text) with
  | error f => rfl
  | ok e =>
    dsimp only
    show _ = scanned (skipString e.rest : Scan π Unit e.rest)
    cases (skipString e.rest : Scan π Unit e.rest) <;> rfl

theorem scanned_skipString_plain {c : Char} (hquote : c ≠ '"') (hslash : c ≠ '\\')
    (hcontrol : ¬c.toNat < 0x20) :
    scanned (skipString (c :: text) : Scan π Unit (c :: text)) =
      scanned (skipString text : Scan π Unit text) := by
  rw [skipString.eq_def]
  dsimp only
  rw [if_neg hquote, if_neg hslash, if_neg hcontrol]
  cases (skipString text : Scan π Unit text) <;> rfl

theorem scanned_skipEscape_unicode {a b c d : Char} {n : Nat} (hquad : hexQuad? a b c d = some n) :
    scanned (skipEscape ('u' :: a :: b :: c :: d :: rest) :
      Scan π Unit ('u' :: a :: b :: c :: d :: rest)) = some ((), rest) := by
  rw [skipEscape, if_pos rfl, readHexQuad, hquad]
  rfl

/-- An escape that can be read is skipped, a pair of surrogates in two steps. -/
theorem EscapeRead.scanned_skipString {c : Char} (h : EscapeRead text c rest) :
    scanned (skipString ('\\' :: text) : Scan π Unit ('\\' :: text)) =
      scanned (skipString rest : Scan π Unit rest) := by
  rw [scanned_skipString_escape]
  cases h with
  | @letter l c rest hletter =>
    have hu : l ≠ 'u' := by
      rintro rfl
      cases hletter
    rw [skipEscape, if_neg hu, hletter]
    rfl
  | single hquad =>
    rw [scanned_skipEscape_unicode hquad]
    rfl
  | pair hquad _ hquad' =>
    rw [scanned_skipEscape_unicode hquad]
    dsimp only [Option.bind_some]
    rw [scanned_skipString_escape, scanned_skipEscape_unicode hquad']
    rfl

/-- A string that can be read can be skipped. -/
theorem CharsRead.scanned_skipString {cs : List Char} (h : CharsRead text cs rest) :
    scanned (skipString text : Scan π Unit text) = some ((), rest) := by
  induction h with
  | quote =>
    rw [skipString.eq_def]
    rfl
  | escape hescape _ ih => rw [hescape.scanned_skipString, ih]
  | plain hquote hslash hcontrol _ ih =>
    rw [scanned_skipString_plain hquote hslash hcontrol, ih]

theorem scanned_skipString {s : String}
    (h : scanned (readString text : Scan π String text) = some (s, rest)) :
    scanned (skipString text : Scan π Unit text) = some ((), rest) :=
  (scanned_readString_iff.1 h).scanned_skipString

/-! ## Words, numbers and strings -/

theorem scanned_skipWord {letters : List Char} {c : Char} :
    scanned (do
      let r ← readWord letters (letters ++ rest)
      return r.past : Scan π Unit (c :: (letters ++ rest))) = some ((), rest) := by
  have hword : looked (readWord letters (letters ++ rest) : Look π Unit _) = some ((), rest) :=
    looked_readWord_iff.2 rfl
  obtain ⟨_, hword⟩ := looked_eq_some_iff.1 hword
  rw [hword]
  rfl

theorem ScalarRead.scanned_skipScalar {v : Value} (h : ScalarRead π text v rest) :
    scanned (skipScalar text : Scan π Unit text) = some ((), rest) := by
  cases h with
  | null | true | false => exact scanned_skipWord
  | string hread =>
    obtain ⟨_, hskip⟩ := scanned_eq_some_iff.1 (scanned_skipString hread)
    rw [skipScalar, if_neg (by decide), if_neg (by decide), if_neg (by decide), if_pos rfl, hskip]
    rfl
  | @number text _ c n hc hread =>
    rw [skipScalar, if_neg (ne_of_number hc (by decide) (by decide)),
      if_neg (ne_of_number hc (by decide) (by decide)),
      if_neg (ne_of_number hc (by decide) (by decide)),
      if_neg (ne_of_number hc (by decide) (by decide)), if_pos hc, scanned_skipNumber hread]

/-! ## Arrays and objects -/

/-- The character that begins an array or object. -/
def Frame.opener : Frame → Char
  | .array => '['
  | .object => '\x7b'

theorem Frame.opener_eq (frame : Frame) : frame.opener = '[' ∨ frame.opener = '\x7b' := by
  cases frame
  · exact .inl rfl
  · exact .inr rfl

theorem Frame.of_opener (frame : Frame) :
    (if frame.opener = '[' then Frame.array else Frame.object) = frame := by
  cases frame <;> rfl

section
variable {frame : Frame} {stack : List Frame} {left after : List Char} {c : Char}

theorem looked_skipOpen_empty (frame : Frame) (h : skipBlanks text = frame.opener :: left)
    (hleft : skipBlanks left = frame.closer :: rest) :
    looked (skipOpen .value stack text : Look π Unit text) =
      looked (skipOpen .after stack rest : Look π Unit rest) := by
  rw [skipOpen]
  split
  · rename_i hskip
    cases h.symm.trans hskip
  · rename_i hskip
    obtain ⟨rfl, rfl⟩ := List.cons.inj (h.symm.trans hskip)
    rw [if_pos frame.opener_eq]
    simp only [frame.of_opener]
    split
    · rename_i hskip
      cases hleft.symm.trans hskip
    · rename_i hskip
      obtain ⟨rfl, rfl⟩ := List.cons.inj (hleft.symm.trans hskip)
      rw [if_pos rfl]
      cases (skipOpen .after stack rest : Look π Unit rest) <;> rfl

theorem looked_skipOpen_open (frame : Frame) (h : skipBlanks text = frame.opener :: left)
    (hleft : skipBlanks left = c :: rest) (hc : c ≠ frame.closer) :
    looked (skipOpen .value stack text : Look π Unit text) =
      looked (skipOpen frame.afterComma (frame :: stack) (c :: rest) : Look π Unit (c :: rest)) := by
  rw [skipOpen]
  split
  · rename_i hskip
    cases h.symm.trans hskip
  · rename_i hskip
    obtain ⟨rfl, rfl⟩ := List.cons.inj (h.symm.trans hskip)
    rw [if_pos frame.opener_eq]
    simp only [frame.of_opener]
    split
    · rename_i hskip
      cases hleft.symm.trans hskip
    · rename_i hskip
      obtain ⟨rfl, rfl⟩ := List.cons.inj (hleft.symm.trans hskip)
      rw [if_neg hc]
      cases (skipOpen frame.afterComma (frame :: stack) (c :: rest) : Look π Unit (c :: rest)) <;> rfl

theorem looked_skipOpen_scalar (h : skipBlanks text = c :: left) (harray : c ≠ '[')
    (hobject : c ≠ '\x7b')
    (hscalar : scanned (skipScalar (c :: left) : Scan π Unit (c :: left)) = some ((), rest)) :
    looked (skipOpen .value stack text : Look π Unit text) =
      looked (skipOpen .after stack rest : Look π Unit rest) := by
  obtain ⟨_, hscalar⟩ := scanned_eq_some_iff.1 hscalar
  rw [skipOpen]
  split
  · rename_i hskip
    cases h.symm.trans hskip
  · rename_i hskip
    obtain ⟨rfl, rfl⟩ := List.cons.inj (h.symm.trans hskip)
    rw [if_neg (not_or.2 ⟨harray, hobject⟩), hscalar]
    dsimp only
    cases (skipOpen .after stack rest : Look π Unit rest) <;> rfl

theorem looked_skipOpen_key
    (h : scanned (skipKey text : Scan π Unit text) = some ((), rest)) :
    looked (skipOpen .key stack text : Look π Unit text) =
      looked (skipOpen .value stack rest : Look π Unit rest) := by
  obtain ⟨_, h⟩ := scanned_eq_some_iff.1 h
  conv => lhs; rw [skipOpen, h]
  dsimp only
  cases (skipOpen .value stack rest : Look π Unit rest) <;> rfl

theorem looked_skipOpen_comma (h : skipBlanks text = ',' :: rest) :
    looked (skipOpen .after (frame :: stack) text : Look π Unit text) =
      looked (skipOpen frame.afterComma (frame :: stack) rest : Look π Unit rest) := by
  rw [skipOpen]
  split
  · rename_i hskip
    cases h.symm.trans hskip
  · rename_i hskip
    obtain ⟨rfl, rfl⟩ := List.cons.inj (h.symm.trans hskip)
    rw [if_pos rfl]
    cases (skipOpen frame.afterComma (frame :: stack) rest : Look π Unit rest) <;> rfl

theorem looked_skipOpen_close (h : skipBlanks text = frame.closer :: rest) :
    looked (skipOpen .after (frame :: stack) text : Look π Unit text) =
      looked (skipOpen .after stack rest : Look π Unit rest) := by
  have hcomma : frame.closer ≠ ',' := by cases frame <;> decide
  rw [skipOpen]
  split
  · rename_i hskip
    cases h.symm.trans hskip
  · rename_i hskip
    obtain ⟨rfl, rfl⟩ := List.cons.inj (h.symm.trans hskip)
    rw [if_neg hcomma, if_pos rfl]
    cases (skipOpen .after stack rest : Look π Unit rest) <;> rfl

end

theorem scanned_skipKey {middle after : List Char} {key : String}
    (h : skipBlanks text = '"' :: middle)
    (hkey : scanned (readString middle : Scan π String middle) = some (key, after))
    (hcolon : skipBlanks after = ':' :: rest) :
    scanned (skipKey text : Scan π Unit text) = some ((), rest) := by
  obtain ⟨_, hskip⟩ := scanned_eq_some_iff.1 (scanned_skipString hkey)
  obtain ⟨_, hread⟩ := scanned_eq_some_iff.1 ((scanned_readColon_iff (π := π)).2 hcolon)
  unfold skipKey
  split
  · rename_i htext
    cases h.symm.trans htext
  · rename_i htext
    obtain ⟨rfl, rfl⟩ := List.cons.inj (h.symm.trans htext)
    rw [if_pos rfl, hskip]
    dsimp only [bind, Except.bind]
    rw [hread]
    rfl

/-! ## Whatever is open -/

/-- Skipping from a text leads where skipping after the value leads, whatever is open. -/
def SkipsTo (π : Type) (text rest : List Char) : Prop :=
  ∀ stack : List Frame, looked (skipOpen .value stack text : Look π Unit text) =
    looked (skipOpen .after stack rest : Look π Unit rest)

section
variable {α : Type} {R : List Char → α → List Char → Prop} {stack : List Frame} {after : List Char}
  (hR : ∀ {next a middle text}, R next a middle → skipBlanks text = skipBlanks next →
    SkipsTo π text middle)
include hR

theorem looked_skipOpen_elements {items : List α} (h : ElementsRead R false text items after)
    (hclose : skipBlanks after = ']' :: rest) :
    looked (skipOpen .after (.array :: stack) text : Look π Unit text) =
      looked (skipOpen .after stack rest : Look π Unit rest) := by
  induction items generalizing text with
  | nil =>
    cases h with
    | close htext =>
      cases (skipBlanks_of_eq htext).symm.trans hclose
      exact looked_skipOpen_close htext
  | cons v items ih =>
    cases h with
    | item hfollows hread hrest =>
      cases hfollows with
      | further htext hmiddle =>
        have hskips := hR hread (hmiddle.trans (skipBlanks_of_eq hmiddle).symm)
        rw [looked_skipOpen_comma htext, Frame.afterComma, hskips]
        exact ih hrest

theorem looked_skipOpen_members {members : List (String × α)}
    (h : MembersRead π R false text members after) (hclose : skipBlanks after = '\x7d' :: rest) :
    looked (skipOpen .after (.object :: stack) text : Look π Unit text) =
      looked (skipOpen .after stack rest : Look π Unit rest) := by
  induction members generalizing text with
  | nil =>
    cases h with
    | close htext =>
      cases (skipBlanks_of_eq htext).symm.trans hclose
      exact looked_skipOpen_close htext
  | cons member members ih =>
    cases h with
    | item hfollows hcolon hread hrest =>
      cases hfollows with
      | further htext hafter hkey =>
        have hskips := hR hread rfl
        rw [looked_skipOpen_comma htext, Frame.afterComma,
          looked_skipOpen_key (scanned_skipKey hafter hkey hcolon), hskips]
        exact ih hrest

theorem skipsTo_array {items : List α} {inside : List Char} (htext : skipBlanks text = '[' :: inside)
    (h : ElementsRead R true inside items after) (hclose : skipBlanks after = ']' :: rest) :
    SkipsTo π text rest := by
  intro stack
  cases h with
  | close hinside =>
    cases (skipBlanks_of_eq hinside).symm.trans hclose
    exact looked_skipOpen_empty .array htext hinside
  | item hfollows hread hrest =>
    cases hfollows with
    | first hinside hc =>
      have hskips := hR hread rfl
      rw [looked_skipOpen_open .array htext hinside hc, Frame.afterComma, hskips]
      exact looked_skipOpen_elements hR hrest hclose

theorem skipsTo_object {members : List (String × α)} {inside : List Char}
    (htext : skipBlanks text = '\x7b' :: inside) (h : MembersRead π R true inside members after)
    (hclose : skipBlanks after = '\x7d' :: rest) : SkipsTo π text rest := by
  intro stack
  cases h with
  | close hinside =>
    cases (skipBlanks_of_eq hinside).symm.trans hclose
    exact looked_skipOpen_empty .object htext hinside
  | item hfollows hcolon hread hrest =>
    cases hfollows with
    | first hinside hkey =>
      have hskips := hR hread rfl
      have hquote := skipBlanks_of_eq hinside
      rw [looked_skipOpen_open .object htext hinside (by decide), Frame.afterComma,
        looked_skipOpen_key (scanned_skipKey hquote hkey hcolon), hskips]
      exact looked_skipOpen_members hR hrest hclose

end

/-- Skipping a value leads where reading it does. -/
theorem ValueRead.skipsTo {budget : Nat} {v : Value} (h : ValueRead π budget text v rest) :
    SkipsTo π text rest := by
  induction budget generalizing text v rest with
  | zero =>
    cases h with
    | scalar htext harray hobject hscalar =>
      exact fun _ => looked_skipOpen_scalar htext harray hobject hscalar.scanned_skipScalar
  | succ budget ih =>
    have hR : ∀ {next v middle text},
        scanned (readValue budget next : Scan π Value next) = some (v, middle) →
          skipBlanks text = skipBlanks next → SkipsTo π text middle := by
      intro next v middle text hread hskip
      exact ih ((scanned_readValue_iff.1 hread).of_skipBlanks hskip)
    cases h with
    | array htext h hclose => exact skipsTo_array hR htext h hclose
    | object htext h hclose => exact skipsTo_object hR htext h hclose
    | scalar htext harray hobject hscalar =>
      exact fun _ => looked_skipOpen_scalar htext harray hobject hscalar.scanned_skipScalar

/-- A value that can be read can be skipped. -/
theorem looked_skipValue {budget : Nat} {v : Value} (h : ValueRead π budget text v rest) :
    looked (skipValue text : Look π Unit text) = some ((), rest) := by
  rw [skipValue, h.skipsTo, skipOpen]
  rfl

end BlockCircuit.Json
