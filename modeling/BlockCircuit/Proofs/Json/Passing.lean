import BlockCircuit.Proofs.Json.Framing
import BlockCircuit.Proofs.Json.Spelling

/-!
# Texts that are passed over

The value of an unknown key is passed over by a machine with a stack of the arrays and objects that are
open. It gets by with less than a reader does, but it finds the same end of a value, whatever is open
around it and whatever follows.

* `framed_skipString`, `ScalarSkips.framed` — strings, numbers and words;
* `Skips`, `looked_skipOpen_iff` — the steps of the machine;
* `Skips.exists_framed` — before another rest it takes the same steps;
* `IsValueText`, `IsValueText.skipsTo` — the texts that are passed over as one value;
* `ReadsValues`, `ReadsValues.iff_alone` — what reads values reads such a text as it stands alone.
-/

namespace BlockCircuit.Json

variable {π : Type} {text rest : List Char}

/-! ## Strings -/

theorem framed_skipEscape (h : scanned (skipEscape text : Scan π Unit text) = some ((), rest)) :
    Framed Anything (fun t r => scanned (skipEscape t : Scan π Unit t) = some ((), r)) text rest := by
  cases text with
  | nil => cases h
  | cons c text =>
    by_cases hc : c = 'u'
    · subst hc
      rw [skipEscape, if_pos rfl] at h
      cases hread : (readHexQuad text : Scan π Nat text) with
      | error f =>
        rw [hread] at h
        cases h
      | ok r =>
        rw [hread] at h
        cases h
        obtain ⟨a, b, c, d, htext, hquad⟩ :=
          scanned_readHexQuad_iff.1 (scanned_eq_some_iff.2 ⟨r.shorter, hread⟩)
        refine ⟨['u', a, b, c, d], by simp, congrArg (List.cons 'u') htext, ?_⟩
        intro other _
        exact scanned_skipEscape_unicode hquad
    · rw [skipEscape, if_neg hc] at h
      split at h
      · rename_i hletter
        cases h
        refine ⟨[c], by simp, rfl, ?_⟩
        intro other _
        show scanned (skipEscape (c :: other) : Scan π Unit (c :: other)) = some ((), other)
        rw [skipEscape, if_neg hc, hletter]
        rfl
      · cases h

theorem framed_skipString (h : scanned (skipString text : Scan π Unit text) = some ((), rest)) :
    Framed Anything (fun t r => scanned (skipString t : Scan π Unit t) = some ((), r)) text rest := by
  fun_induction skipString (π := π) text with
  | case1 | case3 | case4 | case6 | case7 => cases h
  | case2 left =>
    cases h
    refine ⟨['"'], by simp, rfl, ?_⟩
    intro other _
    show scanned (skipString ('"' :: other) : Scan π Unit _) = some ((), other)
    rw [skipString.eq_def]
    rfl
  | case5 left e hescape _ r hstring _ ih =>
    rw [hstring] at ih
    have hfirst := framed_skipEscape (scanned_eq_some_iff.2 ⟨e.shorter, hescape⟩)
    have hboth : Framed Anything (fun t r => ∃ m,
        scanned (skipEscape t : Scan π Unit t) = some ((), m) ∧
          scanned (skipString m : Scan π Unit m) = some ((), r)) left rest :=
      hfirst.then (ih h) fun h h' => ⟨_, h, h'⟩
    refine hboth.cons ?_
    rintro t r ⟨m, hescape, hstring⟩
    rw [scanned_skipString_escape, hescape]
    exact hstring
  | case8 c left hquote hslash hcontrol r hstring ih =>
    rw [hstring] at ih
    refine (ih h).cons ?_
    intro t r hrest
    rw [scanned_skipString_plain hquote hslash hcontrol]
    exact hrest

/-! ## Words, numbers and strings -/

/-- The texts that are passed over as a word, a string or a number. -/
inductive ScalarSkips (π : Type) : (text rest : List Char) → Prop
  | null {rest : List Char} : ScalarSkips π ('n' :: 'u' :: 'l' :: 'l' :: rest) rest
  | true {rest : List Char} : ScalarSkips π ('t' :: 'r' :: 'u' :: 'e' :: rest) rest
  | false {rest : List Char} : ScalarSkips π ('f' :: 'a' :: 'l' :: 's' :: 'e' :: rest) rest
  | string {text rest : List Char} :
      scanned (skipString text : Scan π Unit text) = some ((), rest) → ScalarSkips π ('"' :: text) rest
  | number {text rest : List Char} {c : Char} : c = '-' ∨ c.isDigit = Bool.true →
      scanned (skipNumber (c :: text) : Scan π Unit (c :: text)) = some ((), rest) →
        ScalarSkips π (c :: text) rest

theorem eq_of_skipWord {letters : List Char} {c : Char}
    (h : scanned (do
      let r ← readWord letters text
      return r.past : Scan π Unit (c :: text)) = some ((), rest)) : text = letters ++ rest := by
  apply (looked_readWord_iff (π := π)).1
  cases hread : (readWord letters text : Look π Unit text) with
  | error f =>
    rw [hread] at h
    cases h
  | ok r =>
    rw [hread] at h
    exact h

theorem scanned_skipScalar_iff :
    scanned (skipScalar text : Scan π Unit text) = some ((), rest) ↔ ScalarSkips π text rest := by
  constructor
  · intro h
    cases text with
    | nil => cases h
    | cons c text =>
      rw [skipScalar] at h
      split at h
      · rename_i hc
        rw [hc, eq_of_skipWord h]
        exact .null
      · split at h
        · rename_i hc
          rw [hc, eq_of_skipWord h]
          exact .true
        · split at h
          · rename_i hc
            rw [hc, eq_of_skipWord h]
            exact .false
          · split at h
            · rename_i hc
              cases hread : (skipString text : Scan π Unit text) with
              | error f =>
                rw [hread] at h
                cases h
              | ok r =>
                rw [hread] at h
                cases h
                rw [hc]
                exact .string (scanned_eq_some_iff.2 ⟨r.shorter, hread⟩)
            · split at h
              · rename_i hc
                exact .number hc h
              · cases h
  · intro h
    cases h with
    | null | true | false => exact scanned_skipWord
    | string hskip =>
      obtain ⟨_, hskip⟩ := scanned_eq_some_iff.1 hskip
      rw [skipScalar, if_neg (by decide), if_neg (by decide), if_neg (by decide), if_pos rfl, hskip]
      rfl
    | number hc hskip =>
      rw [skipScalar, if_neg (ne_of_number hc (by decide) (by decide)),
        if_neg (ne_of_number hc (by decide) (by decide)),
        if_neg (ne_of_number hc (by decide) (by decide)),
        if_neg (ne_of_number hc (by decide) (by decide)), if_pos hc]
      exact hskip

theorem ScalarSkips.framed (h : ScalarSkips π text rest) (hrest : Delimited rest) :
    Framed Delimited (fun t r => ScalarSkips π t r) text rest := by
  cases h with
  | null => exact ⟨['n', 'u', 'l', 'l'], by simp, rfl, fun _ _ => .null⟩
  | true => exact ⟨['t', 'r', 'u', 'e'], by simp, rfl, fun _ _ => .true⟩
  | false => exact ⟨['f', 'a', 'l', 's', 'e'], by simp, rfl, fun _ _ => .false⟩
  | string hskip => exact (framed_skipString hskip).anywhere.cons .string
  | @number text _ c hc hskip =>
    obtain ⟨w, hw, htext, hother⟩ := ofNumerals_skipNumber.framed_scanned hskip hrest
    obtain ⟨d, w, rfl⟩ := List.exists_cons_of_ne_nil hw
    obtain ⟨rfl, rfl⟩ := List.cons.inj htext
    exact ⟨c :: w, hw, rfl, fun other h => .number hc (hother other h)⟩

theorem scanned_skipKey_iff :
    scanned (skipKey text : Scan π Unit text) = some ((), rest) ↔
      ∃ middle after, skipBlanks text = '"' :: middle ∧
        scanned (skipString middle : Scan π Unit middle) = some ((), after) ∧
          skipBlanks after = ':' :: rest := by
  constructor
  · intro h
    unfold skipKey at h
    split at h
    · cases h
    · rename_i c left htext
      split at h
      · rename_i hc
        subst hc
        obtain ⟨_, h⟩ := scanned_eq_some_iff.1 h
        obtain ⟨k, hkey, h⟩ := bind_eq_ok_iff.1 h
        obtain ⟨colon, hcolon, h⟩ := bind_eq_ok_iff.1 h
        cases h
        refine ⟨left, k.rest, htext, scanned_eq_some_iff.2 ⟨k.shorter, hkey⟩, ?_⟩
        exact (scanned_readColon_iff (π := π)).1 (scanned_eq_some_iff.2 ⟨colon.shorter, hcolon⟩)
      · cases h
  · rintro ⟨middle, after, htext, hkey, hcolon⟩
    obtain ⟨_, hkey⟩ := scanned_eq_some_iff.1 hkey
    obtain ⟨_, hcolon⟩ := scanned_eq_some_iff.1 ((scanned_readColon_iff (π := π)).2 hcolon)
    unfold skipKey
    split
    · rename_i hskip
      cases htext.symm.trans hskip
    · rename_i hskip
      obtain ⟨rfl, rfl⟩ := List.cons.inj (htext.symm.trans hskip)
      rw [if_pos rfl, hkey]
      dsimp only [bind, Except.bind]
      rw [hcolon]
      rfl

theorem framed_skipKey (h : scanned (skipKey text : Scan π Unit text) = some ((), rest)) :
    Framed Anything (fun t r => scanned (skipKey t : Scan π Unit t) = some ((), r)) text rest := by
  obtain ⟨middle, after, htext, hkey, hcolon⟩ := scanned_skipKey_iff.1 h
  have hrest : Framed Anything (fun t r => ∃ m, scanned (skipString t : Scan π Unit t) = some ((), m) ∧
      skipBlanks m = ':' :: r) middle rest :=
    (framed_skipString hkey).then (framed_skipBlanks hcolon) fun h h' => ⟨_, h, h'⟩
  refine (framed_skipBlanks htext).then hrest ?_
  rintro t m r hquote ⟨m', hstring, hcolon⟩
  exact scanned_skipKey_iff.2 ⟨m, m', hquote, hstring, hcolon⟩

/-! ## Steps -/

/-- The machine passes over the rest of what is open, one step at a time. -/
inductive Skips (π : Type) : Stage → List Frame → (text rest : List Char) → Prop
  | done {rest : List Char} : Skips π .after [] rest rest
  | comma {frame : Frame} {stack : List Frame} {text next rest : List Char} :
      skipBlanks text = ',' :: next → Skips π frame.afterComma (frame :: stack) next rest →
        Skips π .after (frame :: stack) text rest
  | close {frame : Frame} {stack : List Frame} {text next rest : List Char} :
      skipBlanks text = frame.closer :: next → Skips π .after stack next rest →
        Skips π .after (frame :: stack) text rest
  | key {stack : List Frame} {text next rest : List Char} :
      scanned (skipKey text : Scan π Unit text) = some ((), next) → Skips π .value stack next rest →
        Skips π .key stack text rest
  | empty {stack : List Frame} {text left next rest : List Char} (frame : Frame) :
      skipBlanks text = frame.opener :: left → skipBlanks left = frame.closer :: next →
        Skips π .after stack next rest → Skips π .value stack text rest
  | opened {stack : List Frame} {text left next rest : List Char} {c : Char} (frame : Frame) :
      skipBlanks text = frame.opener :: left → skipBlanks left = c :: next → c ≠ frame.closer →
        Skips π frame.afterComma (frame :: stack) (c :: next) rest → Skips π .value stack text rest
  | scalar {stack : List Frame} {text left next rest : List Char} {c : Char} :
      skipBlanks text = c :: left → c ≠ '[' → c ≠ '\x7b' →
        ScalarSkips π (c :: left) next → Skips π .after stack next rest →
          Skips π .value stack text rest

variable {stage : Stage} {stack : List Frame}

/-- What is open further out makes no difference. -/
theorem Skips.looked_skipOpen (h : Skips π stage stack text rest) (outer : List Frame) :
    looked (skipOpen stage (stack ++ outer) text : Look π Unit text) =
      looked (skipOpen .after outer rest : Look π Unit rest) := by
  induction h with
  | done => rfl
  | comma htext _ ih =>
    rw [List.cons_append, looked_skipOpen_comma htext]
    exact ih
  | close htext _ ih =>
    rw [List.cons_append, looked_skipOpen_close htext]
    exact ih
  | key hkey _ ih =>
    rw [looked_skipOpen_key hkey]
    exact ih
  | empty frame htext hleft _ ih =>
    rw [looked_skipOpen_empty frame htext hleft]
    exact ih
  | opened frame htext hleft hc _ ih =>
    rw [looked_skipOpen_open frame htext hleft hc]
    exact ih
  | scalar htext harray hobject hscalar _ ih =>
    rw [looked_skipOpen_scalar htext harray hobject (scanned_skipScalar_iff.2 hscalar)]
    exact ih

theorem looked_skipOpen_iff :
    looked (skipOpen stage stack text : Look π Unit text) = some ((), rest) ↔
      Skips π stage stack text rest := by
  constructor
  · intro h
    fun_induction skipOpen (π := π) stage stack text with
    | case1 | case2 | case3 | case5 | case7 | case8 | case10 | case11 | case14 | case15 | case17
    | case19 => cases h
    | case4 _ _ c _ htext _ hopener _ left r hskip hleft _ ih =>
      have hrest := ih (by rw [hskip]; exact h)
      rcases hopener with rfl | rfl
      · exact .empty .array htext hleft hrest
      · exact .empty .object htext hleft hrest
    | case6 _ _ c _ htext _ hopener _ d left hleft _ hd r hskip ih =>
      have hrest := ih (by rw [hskip]; exact h)
      rcases hopener with rfl | rfl
      · exact .opened .array htext hleft hd hrest
      · exact .opened .object htext hleft hd hrest
    | case9 _ _ c _ htext _ hopener s hscalar _ _ r hskip ih =>
      rw [not_or] at hopener
      have hrest := ih (by rw [hskip]; exact h)
      have hscalar := scanned_eq_some_iff.2 ⟨s.shorter, hscalar⟩
      exact .scalar htext hopener.1 hopener.2 (scanned_skipScalar_iff.1 hscalar) hrest
    | case12 _ _ k hkey _ r hskip ih =>
      have hrest := ih (by rw [hskip]; exact h)
      exact .key (scanned_eq_some_iff.2 ⟨k.shorter, hkey⟩) hrest
    | case13 =>
      cases h
      exact .done
    | case16 _ _ _ _ r hskip htext _ ih => exact .comma htext (ih (by rw [hskip]; exact h))
    | case18 _ _ _ _ r hskip htext _ _ ih => exact .close htext (ih (by rw [hskip]; exact h))
  · intro h
    have hskip := h.looked_skipOpen []
    rw [List.append_nil] at hskip
    rw [hskip, skipOpen]
    rfl

/-! ## Other surroundings -/

theorem Frame.endsToken_closer (frame : Frame) : endsToken frame.closer = true := by
  cases frame <;> rfl

theorem Skips.delimited (h : Skips π .after stack text rest) (hrest : Delimited rest) :
    Delimited text := by
  cases h with
  | done => exact hrest
  | comma htext => exact delimited_of_skipBlanks htext rfl
  | @close frame _ _ _ _ htext => exact delimited_of_skipBlanks htext frame.endsToken_closer

/-- Before another rest the machine takes the same steps. It takes something of the text, unless it
stands after a value. -/
theorem Skips.exists_framed (h : Skips π stage stack text rest) (hrest : Delimited rest) :
    ∃ w, (stage ≠ .after → w ≠ []) ∧ text = w ++ rest ∧
      ∀ other, Delimited other → Skips π stage stack (w ++ other) other := by
  have htakes {stage : Stage} {stack : List Frame} {text rest : List Char}
      (h : Framed Delimited (Skips π stage stack) text rest) :
      ∃ w, (stage ≠ .after → w ≠ []) ∧ text = w ++ rest ∧
        ∀ other, Delimited other → Skips π stage stack (w ++ other) other := by
    obtain ⟨w, hw, h⟩ := h
    exact ⟨w, fun _ => hw, h⟩
  induction h with
  | done => exact ⟨[], fun h => absurd rfl h, rfl, fun _ _ => .done⟩
  | comma htext _ ih =>
    obtain ⟨w, -, hw⟩ := ih hrest
    exact htakes ((framed_skipBlanks htext).before ⟨w, hw⟩ (fun _ _ => trivial) .comma)
  | close htext _ ih =>
    obtain ⟨w, -, hw⟩ := ih hrest
    exact htakes ((framed_skipBlanks htext).before ⟨w, hw⟩ (fun _ _ => trivial) .close)
  | key hkey _ ih =>
    obtain ⟨w, -, hw⟩ := ih hrest
    exact htakes ((framed_skipKey hkey).before ⟨w, hw⟩ (fun _ _ => trivial) .key)
  | @empty stack _ left next _ frame htext hleft _ ih =>
    obtain ⟨w, -, hw⟩ := ih hrest
    have hends : Framed Delimited (fun t r => ∃ m, skipBlanks t = frame.closer :: m ∧
        Skips π .after stack m r) left _ :=
      (framed_skipBlanks hleft).before ⟨w, hw⟩ (fun _ _ => trivial) fun h h' => ⟨_, h, h'⟩
    refine htakes ((framed_skipBlanks htext).then hends ?_)
    rintro t m r htext ⟨next, hleft, hskips⟩
    exact .empty frame htext hleft hskips
  | @opened stack _ left next rest c frame htext hleft hc _ ih =>
    obtain ⟨w, hne, hw⟩ := ih hrest
    have hframed : Framed Delimited (Skips π frame.afterComma (frame :: stack)) (c :: next) rest :=
      ⟨w, hne (by cases frame <;> decide), hw⟩
    have hinside : Framed Delimited (fun t r => ∃ l, skipBlanks t = c :: l ∧
        Skips π frame.afterComma (frame :: stack) (c :: l) r) left rest :=
      hframed.afterBlanks hleft fun h h' => ⟨_, h, h'⟩
    refine htakes ((framed_skipBlanks htext).then hinside ?_)
    rintro t m r htext ⟨l, hleft, hskips⟩
    exact .opened frame htext hleft hc hskips
  | @scalar stack _ left next rest c htext harray hobject hscalar hskips ih =>
    obtain ⟨w, -, hw⟩ := ih hrest
    have hboth : Framed Delimited (fun t r => ∃ m, ScalarSkips π t m ∧ Skips π .after stack m r)
        (c :: left) rest :=
      (hscalar.framed (hskips.delimited hrest)).before ⟨w, hw⟩ (fun h hr => h.delimited hr)
        fun h h' => ⟨_, h, h'⟩
    refine htakes (hboth.afterBlanks htext ?_)
    rintro t l r htext ⟨m, hscalar, hskips⟩
    exact .scalar htext harray hobject hscalar hskips

/-! ## Values -/

/-- A text that is passed over as one value, to its end. -/
def IsValueText (π : Type) (w : List Char) : Prop :=
  looked (skipValue w : Look π Unit w) = some ((), [])

theorem SkipsTo.skips (h : SkipsTo π text rest) : Skips π .value [] text rest := by
  apply looked_skipOpen_iff.1
  rw [h, skipOpen]
  rfl

theorem Skips.skipsTo (h : Skips π .value [] text rest) : SkipsTo π text rest :=
  h.looked_skipOpen

/-- Blanks before a value make no difference. -/
theorem SkipsTo.of_skipBlanks {next : List Char} (h : SkipsTo π next rest)
    (hskip : skipBlanks text = skipBlanks next) : SkipsTo π text rest := by
  apply Skips.skipsTo
  cases h.skips with
  | empty frame htext hleft hskips => exact .empty frame (hskip.trans htext) hleft hskips
  | opened frame htext hleft hc hskips => exact .opened frame (hskip.trans htext) hleft hc hskips
  | scalar htext harray hobject hscalar hskips =>
    exact .scalar (hskip.trans htext) harray hobject hscalar hskips

theorem skipsTo_of_skipValue (h : looked (skipValue text : Look π Unit text) = some ((), rest)) :
    SkipsTo π text rest :=
  (looked_skipOpen_iff.1 h).skipsTo

theorem framed_skipValue (h : looked (skipValue text : Look π Unit text) = some ((), rest))
    (hrest : Delimited rest) :
    Framed Delimited (fun t r => looked (skipValue t : Look π Unit t) = some ((), r)) text rest := by
  obtain ⟨w, hne, htext, hw⟩ := (looked_skipOpen_iff.1 h).exists_framed hrest
  exact ⟨w, hne (by decide), htext, fun other hother => looked_skipOpen_iff.2 (hw other hother)⟩

theorem SkipsTo.eq {other : List Char} (h : SkipsTo π text rest) (h' : SkipsTo π text other) :
    rest = other := by
  have hrest := looked_skipOpen_iff.2 h.skips
  have hother := looked_skipOpen_iff.2 h'.skips
  cases hrest.symm.trans hother
  rfl

/-- Before a rest that ends a token, the text of a value is passed over up to the rest. -/
theorem IsValueText.skipsTo {w : List Char} (h : IsValueText π w) (hrest : Delimited rest) :
    SkipsTo π (w ++ rest) rest := by
  obtain ⟨w', -, hw, hother⟩ := framed_skipValue h delimited_nil
  rw [List.append_nil] at hw
  subst hw
  exact skipsTo_of_skipValue (hother rest hrest)

/-- What reads values, however they are read: blanks before a value do not count, a value ends where
passing over it ends, and it is read in the same way before other rests. -/
structure ReadsValues (π : Type) (R : List Char → List Char → Prop) : Prop where
  blanks : ∀ {text other rest : List Char}, skipBlanks text = skipBlanks other → R other rest →
    R text rest
  skipsTo : ∀ {text rest : List Char}, R text rest → SkipsTo π text rest
  framed : ∀ {text rest : List Char}, R text rest → Delimited rest → Framed Delimited R text rest

/-- Passing over values is one way to read them. -/
theorem readsValues_skipsTo : ReadsValues π (SkipsTo π) where
  blanks hskip h := h.of_skipBlanks hskip
  skipsTo h := h
  framed h hrest := by
    obtain ⟨w, hne, htext, hw⟩ := h.skips.exists_framed hrest
    exact ⟨w, hne (by decide), htext, fun other hother => (hw other hother).skipsTo⟩

/-- The text of a value is read after blanks and before any rest as it is read alone. -/
theorem ReadsValues.iff_alone {R : List Char → List Char → Prop} (hR : ReadsValues π R)
    {blanks w : List Char} (hblanks : Blanks blanks) (hw : IsValueText π w) (hrest : Delimited rest)
    (left : List Char) : R (blanks ++ (w ++ rest)) left ↔ left = rest ∧ R w [] := by
  have hskip : skipBlanks (blanks ++ (w ++ rest)) = skipBlanks (w ++ rest) :=
    hblanks.skipBlanks_append
  constructor
  · intro h
    have hplain := hR.blanks hskip.symm h
    obtain rfl := (hR.skipsTo hplain).eq (hw.skipsTo hrest)
    obtain ⟨w', -, htext, hother⟩ := hR.framed hplain hrest
    obtain rfl := List.append_cancel_right htext
    have halone := hother [] delimited_nil
    rw [List.append_nil] at halone
    exact ⟨rfl, halone⟩
  · rintro ⟨rfl, h⟩
    obtain ⟨w', -, htext, hother⟩ := hR.framed h delimited_nil
    rw [List.append_nil] at htext
    subst htext
    exact hR.blanks hskip (hother left hrest)

end BlockCircuit.Json
