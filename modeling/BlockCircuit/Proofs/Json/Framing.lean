import BlockCircuit.Proofs.Json.Numerals
import Mathlib.Data.List.TakeWhile

/-!
# What is read before any rest

A reader takes what it reads from the front of a text. It looks at what follows only to see that a
numeral has ended. So what stands between a text and the rest that is left of it can be put in front of
another rest, and it is read there as it was.

* `Framed` — something stands in front of a rest, and is read in the same way before every other one;
* `Framed.seq` — what is read in two steps;
* `framed_readString`, `framed_readNumber`, `ScalarRead.framed` — strings, numbers and words;
* `ElementsRead.framed` — the elements of an array;
* `MembersRun`, `looked_readMembers_iff_run`, `MembersRun.framed` — the members of an object, for readers
  that change a state of any kind.
-/

namespace BlockCircuit.Json

variable {π α σ : Type} {text rest : List Char}

/-! ## Parts of a text -/

/-- Something stands in front of the rest of a text, and `R` says what it is read as, before every rest
that `D` allows. -/
def Framed (D : List Char → Prop) (R : List Char → List Char → Prop) (text rest : List Char) : Prop :=
  ∃ w, w ≠ [] ∧ text = w ++ rest ∧ ∀ other, D other → R (w ++ other) other

/-- Any rest. -/
def Anything (_ : List Char) : Prop :=
  True

section
variable {D E : List Char → Prop} {R S T : List Char → List Char → Prop} {middle : List Char}

theorem Framed.imp (h : Framed D R text rest) (hRS : ∀ {t r}, R t r → S t r) :
    Framed D S text rest := by
  obtain ⟨w, hw, htext, hR⟩ := h
  exact ⟨w, hw, htext, fun other hother => hRS (hR other hother)⟩

theorem Framed.anywhere (h : Framed Anything R text rest) : Framed D R text rest := by
  obtain ⟨w, hw, htext, hR⟩ := h
  exact ⟨w, hw, htext, fun other _ => hR other trivial⟩

theorem Framed.cons {c : Char} (h : Framed D R text rest) (hRS : ∀ {t r}, R t r → S (c :: t) r) :
    Framed D S (c :: text) rest := by
  obtain ⟨w, -, rfl, hR⟩ := h
  exact ⟨c :: w, List.cons_ne_nil c w, rfl, fun other hother => hRS (hR other hother)⟩

/-- Something stands before what can be put before another rest, if that is such that it can stand
before it. -/
theorem Framed.before (h : Framed D R text middle)
    (h' : ∃ w, middle = w ++ rest ∧ ∀ other, E other → S (w ++ other) other)
    (hD : ∀ {m r}, S m r → E r → D m) (hT : ∀ {t m r}, R t m → S m r → T t r) :
    Framed E T text rest := by
  obtain ⟨w, hw, rfl, hR⟩ := h
  obtain ⟨w', rfl, hS⟩ := h'
  refine ⟨w ++ w', by simp [hw], (List.append_assoc w w' rest).symm, ?_⟩
  intro other hother
  have hsecond := hS other hother
  rw [List.append_assoc]
  exact hT (hR _ (hD hsecond hother)) hsecond

/-- Two parts, one after the other. -/
theorem Framed.seq (h : Framed D R text middle) (h' : Framed E S middle rest)
    (hD : ∀ {m r}, S m r → E r → D m) (hT : ∀ {t m r}, R t m → S m r → T t r) :
    Framed E T text rest := by
  obtain ⟨w, -, hw⟩ := h'
  exact h.before ⟨w, hw⟩ hD hT

/-- Two parts of which the first one may stand before anything. -/
theorem Framed.then (h : Framed Anything R text middle) (h' : Framed E S middle rest)
    (hT : ∀ {t m r}, R t m → S m r → T t r) : Framed E T text rest :=
  h.seq h' (fun _ _ => trivial) hT

end

/-! ## Blanks and words -/

theorem framed_skipBlanks {c : Char} (h : skipBlanks text = c :: rest) :
    Framed Anything (fun t r => skipBlanks t = c :: r) text rest := by
  have htext : text.takeWhile isBlank ++ skipBlanks text = text := List.takeWhile_append_dropWhile
  rw [h] at htext
  refine ⟨text.takeWhile isBlank ++ [c], by simp, by simp [htext], ?_⟩
  intro other _
  have hblanks : ∀ d ∈ text.takeWhile isBlank, isBlank d = true :=
    fun d hd => List.mem_takeWhile_imp hd
  rw [List.append_assoc, List.singleton_append, skipBlanks, List.dropWhile_append_of_pos hblanks]
  exact skipBlanks_of_not_blank (isBlank_of_skipBlanks h)

/-- Blanks before a part: it begins with the same character before every rest. -/
theorem Framed.afterBlanks {D : List Char → Prop} {R S : List Char → List Char → Prop} {c : Char}
    {left : List Char} (h : Framed D R (c :: left) rest) (htext : skipBlanks text = c :: left)
    (hS : ∀ {t l r}, skipBlanks t = c :: l → R (c :: l) r → S t r) : Framed D S text rest := by
  obtain ⟨w, hw, hleft, hR⟩ := h
  obtain ⟨d, w, rfl⟩ := List.exists_cons_of_ne_nil hw
  obtain ⟨rfl, htail⟩ := List.cons.inj hleft
  have hpart : ∃ w, left = w ++ rest ∧ ∀ other, D other → R (c :: (w ++ other)) other :=
    ⟨w, htail, hR⟩
  exact (framed_skipBlanks htext).before (S := fun m r => R (c :: m) r) hpart (fun _ _ => trivial) hS

theorem delimited_of_skipBlanks {c : Char} (h : skipBlanks text = c :: rest)
    (hc : endsToken c = true) : Delimited text := by
  cases text with
  | nil => cases h
  | cons d text =>
    apply delimited_cons
    by_cases hd : isBlank d = true
    · simp [endsToken, hd]
    · rw [skipBlanks_of_not_blank (Bool.eq_false_iff.2 hd)] at h
      cases h
      exact hc

/-! ## Strings -/

theorem EscapeRead.framed {ch : Char} (h : EscapeRead text ch rest) :
    Framed Anything (fun t r => EscapeRead t ch r) text rest := by
  cases h with
  | @letter l _ _ hletter => exact ⟨[l], by simp, rfl, fun _ _ => .letter hletter⟩
  | @single a b c d _ n hquad hlow hhigh =>
    exact ⟨['u', a, b, c, d], by simp, rfl, fun _ _ => .single hquad hlow hhigh⟩
  | @pair a b c d a' b' c' d' _ high low hquad hhigh hquad' hlow' =>
    exact ⟨['u', a, b, c, d, '\\', 'u', a', b', c', d'], by simp, rfl,
      fun _ _ => .pair hquad hhigh hquad' hlow'⟩

theorem CharsRead.framed {cs : List Char} (h : CharsRead text cs rest) :
    Framed Anything (fun t r => CharsRead t cs r) text rest := by
  induction h with
  | quote => exact ⟨['"'], by simp, rfl, fun _ _ => .quote⟩
  | @escape _ _ _ c cs hescape _ ih =>
    have hstring : Framed Anything (fun t r => CharsRead ('\\' :: t) (c :: cs) r) _ _ :=
      hescape.framed.then ih .escape
    exact hstring.cons id
  | plain hquote hslash hcontrol _ ih => exact ih.cons (.plain hquote hslash hcontrol)

theorem framed_readString {s : String}
    (h : scanned (readString text : Scan π String text) = some (s, rest)) :
    Framed Anything (fun t r => scanned (readString t : Scan π String t) = some (s, r)) text rest :=
  (scanned_readString_iff.1 h).framed.imp scanned_readString_iff.2

/-- A key up to the colon is left. -/
theorem KeyFollows.framed {first : Bool} {key : String} (h : KeyFollows π first text key rest) :
    Framed Anything (fun t r => KeyFollows π first t key r) text rest := by
  cases h with
  | first htext hkey => exact (framed_skipBlanks htext).then (framed_readString hkey) .first
  | further htext hafter hkey =>
    have hrest : Framed Anything (fun t r => ∃ m, skipBlanks t = '"' :: m ∧
        scanned (readString m : Scan π String m) = some (key, r)) _ _ :=
      (framed_skipBlanks hafter).then (framed_readString hkey) fun h h' => ⟨_, h, h'⟩
    refine (framed_skipBlanks htext).then hrest ?_
    rintro t m r hcomma ⟨m', hquote, hread⟩
    exact .further hcomma hquote hread

/-! ## Numbers -/

/-- A reader of numerals: it takes something off the front of a text, and what follows the numeral is
left as it is. -/
structure OfNumerals (read : List Char → Option (α × List Char)) : Prop where
  suffix : ∀ {text rest a}, read text = some (a, rest) → rest <:+ text
  append : ∀ (w : List Char) {rest}, Delimited rest →
    read (w ++ rest) = (read w).map (Prod.map id (· ++ rest))

/-- If the rest can follow a numeral, so can any other rest that can. -/
theorem OfNumerals.framed {read : List Char → Option (α × List Char)} (hread : OfNumerals read)
    {a : α} (h : read text = some (a, rest)) (hrest : Delimited rest) :
    ∃ w, text = w ++ rest ∧ ∀ other, Delimited other → read (w ++ other) = some (a, other) := by
  obtain ⟨w, rfl⟩ := hread.suffix h
  rw [hread.append w hrest, Option.map_eq_some_iff] at h
  obtain ⟨⟨b, left⟩, hw, h⟩ := h
  obtain ⟨rfl, hleft⟩ := Prod.mk.inj h
  have hnil : left = [] := List.append_left_eq_self.1 hleft
  refine ⟨w, rfl, ?_⟩
  intro other hother
  rw [hread.append w hother, hw, hnil]
  rfl

theorem skipDigits_suffix (text : List Char) : skipDigits text <:+ text :=
  List.dropWhile_suffix _

theorem exponentSign_suffix (text : List Char) : (exponentSign text).2 <:+ text := by
  unfold exponentSign
  split
  · exact List.suffix_cons _ _
  · exact List.suffix_cons _ _
  · exact List.suffix_rfl

/-! ### Skipped numerals -/

theorem looked_skipExponentDigits_eq :
    looked (skipExponentDigits text : Look π Unit text) =
      if startsWithDigit text then some ((), skipDigits text) else none := by
  cases text with
  | nil => rfl
  | cons c text =>
    rw [skipExponentDigits, startsWithDigit]
    by_cases hc : c.isDigit = true
    · rw [if_pos hc, if_pos hc, skipDigits_cons hc]
      rfl
    · rw [if_neg hc, if_neg hc]
      rfl

theorem looked_skipScale_eq :
    looked (skipScale text : Look π Unit text) =
      if text.head? = some 'e' ∨ text.head? = some 'E' then
        looked (skipExponentDigits (exponentSign text.tail).2 : Look π Unit _)
      else some ((), text) := by
  cases text with
  | nil =>
    rw [if_neg (by simp)]
    rfl
  | cons c text =>
    have hhead : (c :: text).head? = some 'e' ∨ (c :: text).head? = some 'E' ↔ c = 'e' ∨ c = 'E' := by
      simp
    by_cases hc : c = 'e' ∨ c = 'E'
    · rw [skipScale, if_pos hc, if_pos (hhead.2 hc), List.tail_cons]
      cases (skipExponentDigits (exponentSign text).2 : Look π Unit _) <;> rfl
    · rw [skipScale, if_neg hc, if_neg (mt hhead.1 hc)]
      rfl

theorem looked_skipAfterWhole_eq :
    looked (skipAfterWhole text : Look π Unit text) =
      if text.head? = some '.' then
        if startsWithDigit text.tail then
          looked (skipScale (skipDigits text.tail) : Look π Unit _)
        else none
      else looked (skipScale text : Look π Unit text) := by
  by_cases hpoint : text.head? = some '.'
  · obtain ⟨text, rfl⟩ := List.head?_eq_some_iff.1 hpoint
    rw [if_pos hpoint, List.tail_cons, skipAfterWhole]
    split
    · cases (skipScale (skipDigits text) : Look π Unit _) <;> rfl
    · rfl
  · rw [skipAfterWhole_of_no_point hpoint, if_neg hpoint]

theorem scanned_skipUnsigned_eq :
    scanned (skipUnsigned text : Scan π Unit text) =
      if text.head? = some '0' then
        if startsWithDigit text.tail then none
        else looked (skipAfterWhole text.tail : Look π Unit _)
      else if startsWithDigit text then looked (skipAfterWhole (skipDigits text) : Look π Unit _)
      else none := by
  cases text with
  | nil => rfl
  | cons c text =>
    have hhead : (c :: text).head? = some '0' ↔ c = '0' := by simp
    rw [skipUnsigned, startsWithDigit, List.tail_cons]
    by_cases hzero : c = '0'
    · rw [if_pos hzero, if_pos (hhead.2 hzero)]
      split
      · rfl
      · cases (skipAfterWhole text : Look π Unit _) <;> rfl
    · rw [if_neg hzero, if_neg (mt hhead.1 hzero)]
      by_cases hc : c.isDigit = true
      · rw [if_pos hc, if_pos hc, skipDigits_cons hc]
        cases (skipAfterWhole (skipDigits text) : Look π Unit _) <;> rfl
      · rw [if_neg hc, if_neg hc]
        rfl

theorem scanned_skipNumber_eq :
    scanned (skipNumber text : Scan π Unit text) =
      if text.head? = some '-' then scanned (skipUnsigned text.tail : Scan π Unit _)
      else scanned (skipUnsigned text : Scan π Unit text) := by
  by_cases hminus : text.head? = some '-'
  · obtain ⟨text, rfl⟩ := List.head?_eq_some_iff.1 hminus
    rw [if_pos hminus, List.tail_cons, skipNumber]
    cases (skipUnsigned text : Scan π Unit text) <;> rfl
  · rw [if_neg hminus]
    unfold skipNumber
    split
    · exact absurd rfl hminus
    · rfl

theorem ofNumerals_skipExponentDigits :
    OfNumerals fun t => looked (skipExponentDigits t : Look π Unit t) where
  suffix h := by
    rw [looked_skipExponentDigits_eq] at h
    split at h
    · cases h
      exact skipDigits_suffix _
    · cases h
  append w rest hrest := by
    rw [looked_skipExponentDigits_eq, looked_skipExponentDigits_eq, startsWithDigit_append w hrest,
      skipDigits_append w hrest]
    split <;> rfl

theorem ofNumerals_skipScale : OfNumerals fun t => looked (skipScale t : Look π Unit t) where
  suffix {text _ _} h := by
    rw [looked_skipScale_eq] at h
    split at h
    · have hdigits := (ofNumerals_skipExponentDigits (π := π)).suffix h
      exact hdigits.trans ((exponentSign_suffix _).trans (List.tail_suffix text))
    · cases h
      exact List.suffix_rfl
  append w rest hrest := by
    have he := head?_append_eq_iff w hrest (d := 'e') (by decide)
    have hE := head?_append_eq_iff w hrest (d := 'E') (by decide)
    rw [looked_skipScale_eq, looked_skipScale_eq]
    simp only [he, hE]
    split
    · rename_i hexponent
      have hw : w ≠ [] := by
        rintro rfl
        simp at hexponent
      rw [List.tail_append_of_ne_nil hw, exponentSign_append _ hrest]
      exact ofNumerals_skipExponentDigits.append _ hrest
    · rfl

theorem ofNumerals_skipAfterWhole :
    OfNumerals fun t => looked (skipAfterWhole t : Look π Unit t) where
  suffix {text _ _} h := by
    rw [looked_skipAfterWhole_eq] at h
    split at h
    · split at h
      · have hscale := (ofNumerals_skipScale (π := π)).suffix h
        exact hscale.trans ((skipDigits_suffix _).trans (List.tail_suffix text))
      · cases h
    · exact (ofNumerals_skipScale (π := π)).suffix h
  append w rest hrest := by
    have hpoint := head?_append_eq_iff w hrest (d := '.') (by decide)
    rw [looked_skipAfterWhole_eq, looked_skipAfterWhole_eq]
    simp only [hpoint]
    split
    · rename_i hpoint
      have hw : w ≠ [] := by
        rintro rfl
        simp at hpoint
      rw [List.tail_append_of_ne_nil hw, startsWithDigit_append _ hrest, skipDigits_append _ hrest]
      split
      · exact ofNumerals_skipScale.append _ hrest
      · rfl
    · exact ofNumerals_skipScale.append _ hrest

theorem ofNumerals_skipUnsigned :
    OfNumerals fun t => scanned (skipUnsigned t : Scan π Unit t) where
  suffix {text _ _} h := by
    rw [scanned_skipUnsigned_eq] at h
    split at h
    · split at h
      · cases h
      · exact ((ofNumerals_skipAfterWhole (π := π)).suffix h).trans (List.tail_suffix text)
    · split at h
      · exact ((ofNumerals_skipAfterWhole (π := π)).suffix h).trans (skipDigits_suffix text)
      · cases h
  append w rest hrest := by
    have hzero := head?_append_eq_iff w hrest (d := '0') (by decide)
    rw [scanned_skipUnsigned_eq, scanned_skipUnsigned_eq]
    simp only [hzero]
    split
    · rename_i hzero
      have hw : w ≠ [] := by
        rintro rfl
        simp at hzero
      rw [List.tail_append_of_ne_nil hw, startsWithDigit_append _ hrest]
      split
      · rfl
      · exact ofNumerals_skipAfterWhole.append _ hrest
    · rw [startsWithDigit_append w hrest, skipDigits_append w hrest]
      split
      · exact ofNumerals_skipAfterWhole.append _ hrest
      · rfl

theorem ofNumerals_skipNumber : OfNumerals fun t => scanned (skipNumber t : Scan π Unit t) where
  suffix {text _ _} h := by
    rw [scanned_skipNumber_eq] at h
    split at h
    · exact ((ofNumerals_skipUnsigned (π := π)).suffix h).trans (List.tail_suffix text)
    · exact (ofNumerals_skipUnsigned (π := π)).suffix h
  append w rest hrest := by
    have hminus := head?_append_eq_iff w hrest (d := '-') (by decide)
    rw [scanned_skipNumber_eq, scanned_skipNumber_eq]
    simp only [hminus]
    split
    · rename_i hminus
      have hw : w ≠ [] := by
        rintro rfl
        simp at hminus
      rw [List.tail_append_of_ne_nil hw]
      exact ofNumerals_skipUnsigned.append _ hrest
    · exact ofNumerals_skipUnsigned.append _ hrest

/-! ### Numerals that are read -/

theorem ofNumerals_readNumber : OfNumerals fun t => scanned (readNumber t : Scan π Number t) where
  suffix h := ofNumerals_skipNumber.suffix (scanned_skipNumber h)
  append w _ hrest := scanned_readNumber_append w hrest

theorem ne_nil_of_scanned {a : α} {w : List Char} {scan : Scan π α (w ++ rest)}
    (h : scanned scan = some (a, rest)) : w ≠ [] := by
  rintro rfl
  obtain ⟨hshorter, -⟩ := scanned_eq_some_iff.1 h
  exact Nat.lt_irrefl _ hshorter

/-- A reader of numerals takes at least a digit. -/
theorem OfNumerals.framed_scanned {read : (text : List Char) → Scan π α text} {a : α}
    (hread : OfNumerals fun t => scanned (read t)) (h : scanned (read text) = some (a, rest))
    (hrest : Delimited rest) :
    Framed Delimited (fun t r => scanned (read t) = some (a, r)) text rest := by
  obtain ⟨w, rfl, hw⟩ := hread.framed h hrest
  exact ⟨w, ne_nil_of_scanned h, rfl, hw⟩

theorem framed_readNumber {n : Number}
    (h : scanned (readNumber text : Scan π Number text) = some (n, rest)) (hrest : Delimited rest) :
    Framed Delimited (fun t r => scanned (readNumber t : Scan π Number t) = some (n, r)) text rest :=
  ofNumerals_readNumber.framed_scanned h hrest

/-! ## Words, numbers and strings -/

theorem ScalarRead.framed {v : Value} (h : ScalarRead π text v rest) (hrest : Delimited rest) :
    Framed Delimited (fun t r => ScalarRead π t v r) text rest := by
  cases h with
  | null => exact ⟨['n', 'u', 'l', 'l'], by simp, rfl, fun _ _ => .null⟩
  | true => exact ⟨['t', 'r', 'u', 'e'], by simp, rfl, fun _ _ => .true⟩
  | false => exact ⟨['f', 'a', 'l', 's', 'e'], by simp, rfl, fun _ _ => .false⟩
  | string hread => exact (framed_readString hread).anywhere.cons .string
  | @number text _ c n hc hread =>
    obtain ⟨w, hw, htext, hother⟩ := framed_readNumber hread hrest
    obtain ⟨d, w, rfl⟩ := List.exists_cons_of_ne_nil hw
    obtain ⟨rfl, rfl⟩ := List.cons.inj htext
    exact ⟨c :: w, hw, rfl, fun other h => .number hc (hother other h)⟩

/-! ## Elements of arrays -/

/-- What stands before an element, together with the element. -/
theorem ElementFollows.framed {D : List Char → Prop} {R S : List Char → List Char → Prop}
    {first : Bool} {next : List Char} (h : ElementFollows first text next)
    (hnext : Framed D R next rest)
    (hS : ∀ {t n r}, ElementFollows first t n → R n r → S t r) : Framed D S text rest := by
  cases h with
  | first htext hc => exact hnext.afterBlanks htext fun htext hR => hS (.first htext hc) hR
  | @further _ middle left c htext hmiddle hc =>
    have hrest : Framed D (fun t r => ∃ l, skipBlanks t = c :: l ∧ R (c :: l) r) middle rest :=
      hnext.afterBlanks hmiddle fun hmiddle hR => ⟨_, hmiddle, hR⟩
    refine (framed_skipBlanks htext).then hrest ?_
    rintro t m r htext ⟨l, hmiddle, hR⟩
    exact hS (.further htext hmiddle hc) hR

theorem ElementsRead.delimited {R : List Char → α → List Char → Prop} {as : List α}
    (h : ElementsRead R false text as rest) : Delimited text := by
  cases h with
  | close htext => exact delimited_of_skipBlanks htext rfl
  | item hfollows =>
    cases hfollows with
    | further htext => exact delimited_of_skipBlanks htext rfl

/-- The elements of an array up to its bracket, if each of them can be put before another rest. -/
theorem ElementsRead.framed {R R' : List Char → α → List Char → Prop}
    (hR : ∀ {t a r}, R t a r → Delimited r → Framed Delimited (fun t r => R' t a r) t r)
    {first : Bool} {as : List α} {after : List Char} (h : ElementsRead R first text as after)
    (hafter : after = ']' :: rest) :
    Framed Anything (fun t r => ElementsRead R' first t as (']' :: r)) text rest := by
  induction h with
  | close htext =>
    cases hafter
    exact (framed_skipBlanks htext).imp .close
  | @item first _ next middle _ a as hfollows hread hrest ih =>
    have hitems : Framed Anything
        (fun t r => ∃ m, R' t a m ∧ ElementsRead R' false m as (']' :: r)) next rest :=
      (hR hread hrest.delimited).seq (ih hafter) (fun h _ => h.delimited) fun h h' => ⟨_, h, h'⟩
    refine hfollows.framed hitems ?_
    rintro t n r hfollows ⟨m, hread, hrest⟩
    exact .item hfollows hread hrest

theorem ElementsRead.exists_bracket {R : List Char → α → List Char → Prop} {first : Bool} {as : List α}
    (h : ElementsRead R first text as rest) : ∃ left, rest = ']' :: left := by
  induction h with
  | close => exact ⟨_, rfl⟩
  | item _ _ _ ih => exact ih

/-- The elements of an array and its bracket. -/
theorem looked_closed_readElements_iff {element : (text : List Char) → Scan π α text} {first : Bool}
    {as : List α} :
    looked (closed closeArray (readElements element first text)) = some (as, rest) ↔
      ElementsRead (fun t a r => scanned (element t) = some (a, r)) first text as (']' :: rest) := by
  rw [looked_closed_eq_some_iff]
  constructor
  · rintro ⟨after, hread, hclose⟩
    have helements := looked_readElements_iff.1 hread
    obtain ⟨left, rfl⟩ := helements.exists_bracket
    cases (skipBlanks_of_not_blank rfl).symm.trans (ended_closeArray_iff.1 hclose)
    exact helements
  · intro h
    exact ⟨_, looked_readElements_iff.2 h, ended_closeArray_iff.2 (skipBlanks_of_not_blank rfl)⟩

/-! ## Members of objects -/

/-- The members of an object up to its end, each of which changes a state; `R` says how, from what is
left after its colon to what is left after its value. -/
inductive MembersRun (π : Type) (R : String → σ → List Char → σ → List Char → Prop) :
    (first : Bool) → (state : σ) → (text : List Char) → (final : σ) → (rest : List Char) → Prop
  | close {first : Bool} {state : σ} {text rest : List Char} :
      skipBlanks text = '\x7d' :: rest → MembersRun π R first state text state ('\x7d' :: rest)
  | item {first : Bool} {state state' final : σ} {text after value middle rest : List Char}
      {key : String} :
      KeyFollows π first text key after → skipBlanks after = ':' :: value →
        R key state value state' middle → MembersRun π R false state' middle final rest →
          MembersRun π R first state text final rest

/-- A reader reads a colon, and then what `R` says. -/
def ReadsMember (member : String → σ → (text : List Char) → Scan π σ text)
    (R : String → σ → List Char → σ → List Char → Prop) : Prop :=
  ∀ key s t s' r, scanned (member key s t) = some (s', r) ↔
    ∃ value, skipBlanks t = ':' :: value ∧ R key s value s' r

section
variable {R : String → σ → List Char → σ → List Char → Prop} {first : Bool} {state final : σ}
  {member : String → σ → (text : List Char) → Scan π σ text}

theorem looked_readMembers_iff_run (hmember : ReadsMember member R) :
    looked (readMembers member first state text) = some (final, rest) ↔
      MembersRun π R first state text final rest := by
  constructor
  · intro h
    fun_induction readMembers member first state text with
    | case1 | case3 | case4 => cases h
    | case2 first state text left hleft hnext =>
      rcases coming_nextKey_cases (congrArg coming hnext) with ⟨-, after, htext, rfl⟩ | ⟨_, hkey, _⟩
      · cases h
        exact .close htext
      · cases hkey
    | case5 first state text key left hleft hnext r hread _ rs hreads ih =>
      rcases coming_nextKey_cases (congrArg coming hnext) with ⟨hkey, _⟩ | ⟨_, hkey, hfollows⟩
      · cases hkey
      · cases hkey
        rw [hreads] at ih
        obtain ⟨value, hcolon, hvalue⟩ := (hmember ..).1 (scanned_eq_some_iff.2 ⟨r.shorter, hread⟩)
        exact .item hfollows hcolon hvalue (ih h)
  · intro h
    induction h with
    | close htext =>
      rw [looked_readMembers, coming_nextKey_close htext]
      rfl
    | item hfollows hcolon hvalue _ ih =>
      rw [looked_readMembers, coming_nextKey_item hfollows]
      dsimp only [Option.bind_some]
      rw [(hmember ..).2 ⟨_, hcolon, hvalue⟩]
      exact ih

theorem MembersRun.exists_brace (h : MembersRun π R first state text final rest) :
    ∃ left, rest = '\x7d' :: left := by
  induction h with
  | close => exact ⟨_, rfl⟩
  | item _ _ _ _ ih => exact ih

/-- The members of an object and its brace. -/
theorem looked_closed_readMembers_iff (hmember : ReadsMember member R) :
    looked (closed closeObject (readMembers member first state text)) = some (final, rest) ↔
      MembersRun π R first state text final ('\x7d' :: rest) := by
  rw [looked_closed_eq_some_iff]
  constructor
  · rintro ⟨after, hread, hclose⟩
    have hmembers := (looked_readMembers_iff_run hmember).1 hread
    obtain ⟨left, rfl⟩ := hmembers.exists_brace
    cases (skipBlanks_of_not_blank rfl).symm.trans (ended_closeObject_iff.1 hclose)
    exact hmembers
  · intro h
    have hread := (looked_readMembers_iff_run hmember).2 h
    exact ⟨_, hread, ended_closeObject_iff.2 (skipBlanks_of_not_blank rfl)⟩

theorem MembersRun.delimited (h : MembersRun π R false state text final rest) : Delimited text := by
  cases h with
  | close htext => exact delimited_of_skipBlanks htext rfl
  | item hfollows =>
    cases hfollows with
    | further htext => exact delimited_of_skipBlanks htext rfl

/-- The members of an object up to its brace, if each of them can be put before another rest. -/
theorem MembersRun.framed {R' : String → σ → List Char → σ → List Char → Prop}
    (hR : ∀ {key s t s' r}, R key s t s' r → Delimited r →
      Framed Delimited (fun t r => R' key s t s' r) t r)
    {after : List Char} (h : MembersRun π R first state text final after)
    (hafter : after = '\x7d' :: rest) :
    Framed Anything (fun t r => MembersRun π R' first state t final ('\x7d' :: r)) text rest := by
  induction h with
  | close htext =>
    cases hafter
    exact (framed_skipBlanks htext).imp .close
  | @item first state state' final _ after value middle _ key hfollows hcolon hvalue hrest ih =>
    have hmembers : Framed Anything (fun t r => ∃ m, R' key state t state' m ∧
        MembersRun π R' false state' m final ('\x7d' :: r)) value rest :=
      (hR hvalue hrest.delimited).seq (ih hafter) (fun h _ => h.delimited) fun h h' => ⟨_, h, h'⟩
    have hcolons : Framed Anything (fun t r => ∃ v m, skipBlanks t = ':' :: v ∧
        R' key state v state' m ∧ MembersRun π R' false state' m final ('\x7d' :: r)) after rest :=
      (framed_skipBlanks hcolon).then hmembers fun h ⟨m, hvalue, hrest⟩ => ⟨_, m, h, hvalue, hrest⟩
    refine hfollows.framed.then hcolons ?_
    rintro t m r hfollows ⟨v, m', hcolon, hvalue, hrest⟩
    exact .item hfollows hcolon hvalue hrest

/-- If each change of the state comes with a value that `V` tells of, then the members have such
values. -/
theorem MembersRun.membersRead {V : List Char → α → List Char → Prop}
    (hR : ∀ {key s t s' r}, R key s t s' r → ∃ a, V t a r)
    (h : MembersRun π R first state text final rest) :
    ∃ members, MembersRead π V first text members rest := by
  induction h with
  | close htext => exact ⟨[], .close htext⟩
  | item hfollows hcolon hvalue _ ih =>
    obtain ⟨members, hmembers⟩ := ih
    obtain ⟨a, ha⟩ := hR hvalue
    exact ⟨_, .item hfollows hcolon ha hmembers⟩

end

end BlockCircuit.Json
