import BlockCircuit.Json.Nesting
import BlockCircuit.Proofs.Json.Yields

/-!
# Readers step by step

What a reader yields carries proofs and, when it stops, a place. Here only the value and the rest of
the text count, or that there are none; then two readers can be compared where they read the same
text for different ends.

* `scanned`, `looked`, `coming`, `ended` — what a reader comes to;
* `looked_closed` — what closing an array or object comes to;
* `ElementFollows`, `KeyFollows` — that another element or member follows;
* `looked_readElements`, `looked_readMembers` — one item, and those after it;
* `ElementsRead`, `MembersRead`, `looked_readElements_iff`, `looked_readMembers_iff` — all items;
* `looked_readElements_of`, `looked_readMembers_of` — what the items come to, all come to together.
-/

namespace BlockCircuit.Json

variable {π α β σ : Type} {text rest : List Char}

/-! ## What readers come to -/

/-- The value that is read and the rest of the text, unless the reader stops. -/
def scanned (scan : Scan π α text) : Option (α × List Char) :=
  match scan with
  | .ok r => some (r.value, r.rest)
  | .error _ => none

/-- The value that is taken and the rest of the text, unless the reader stops. -/
def looked (look : Look π α text) : Option (α × List Char) :=
  match look with
  | .ok r => some (r.value, r.rest)
  | .error _ => none

/-- The item that comes next, if one comes, and the rest of the text, unless the reader stops. -/
def coming (next : Except (Failure π) (Next α text)) : Option (Option α × List Char) :=
  match next with
  | .ok (.close rest _) => some (none, rest)
  | .ok (.item a rest _) => some (some a, rest)
  | .error _ => none

/-- What is left after the end of an array or object, unless there is a fault. -/
def ended (close : Closing text) : Option (List Char) :=
  match close.fault? with
  | none => some close.rest
  | some _ => none

theorem scanned_eq_some_iff {scan : Scan π α text} {a : α} :
    scanned scan = some (a, rest) ↔ ∃ h, scan = .ok ⟨a, rest, h⟩ := by
  cases scan with
  | error f => simp [scanned]
  | ok r =>
    obtain ⟨value, left, shorter⟩ := r
    constructor
    · intro h
      cases h
      exact ⟨shorter, rfl⟩
    · rintro ⟨_, h⟩
      cases h
      rfl

theorem scanned_eq_none_iff {scan : Scan π α text} :
    scanned scan = none ↔ ∃ f, scan = .error f := by
  cases scan <;> simp [scanned]

theorem looked_eq_some_iff {look : Look π α text} {a : α} :
    looked look = some (a, rest) ↔ ∃ h, look = .ok ⟨a, rest, h⟩ := by
  cases look with
  | error f => simp [looked]
  | ok r =>
    obtain ⟨value, left, noLonger⟩ := r
    constructor
    · intro h
      cases h
      exact ⟨noLonger, rfl⟩
    · rintro ⟨_, h⟩
      cases h
      rfl

/-! A reader that goes on after another one comes to what the second one comes to. -/

section
variable {t t' : List Char} {scan : Scan π α t} {look : Look π α t}

theorem scanned_bind {next : Read α t → Scan π β t'} {g : α × List Char → Option (β × List Char)}
    (hnext : ∀ r, scanned (next r) = g (r.value, r.rest)) :
    scanned (scan >>= next) = (scanned scan).bind g := by
  cases scan with
  | error f => rfl
  | ok r => exact hnext r

theorem looked_bind {next : Taken α t → Look π β t'} {g : α × List Char → Option (β × List Char)}
    (hnext : ∀ r, looked (next r) = g (r.value, r.rest)) :
    looked (look >>= next) = (looked look).bind g := by
  cases look with
  | error f => rfl
  | ok r => exact hnext r

theorem scanned_map (f : α → β) : scanned (scan.map (·.map f)) = (scanned scan).map (Prod.map f id) := by
  cases scan <;> rfl

end

/-! ## The end of arrays and objects -/

theorem looked_closed {close : (text : List Char) → Closing text} {look : Look π α text} :
    looked (closed close look) =
      (looked look).bind fun r => (ended (close r.2)).map fun rest => (r.1, rest) := by
  cases look with
  | error f => cases f <;> rfl
  | ok r =>
    show looked (closed close (.ok r)) = (ended (close r.rest)).map fun rest => (r.value, rest)
    rw [closed, ended]
    cases (close r.rest).fault? <;> rfl

/-- What was read stays as it is when the array or object is closed. -/
theorem looked_closed_of {close : (text : List Char) → Closing text} {look : Look π α text}
    {values : Option α} {after : List Char}
    (hlook : looked look = values.map fun a => (a, after))
    (hclose : ended (close after) = some rest) :
    looked (closed close look) = values.map fun a => (a, rest) := by
  rw [looked_closed, hlook]
  cases values with
  | none => rfl
  | some a =>
    dsimp only [Option.map_some, Option.bind_some]
    rw [hclose]
    rfl

theorem looked_closed_eq_some_iff {close : (text : List Char) → Closing text} {look : Look π α text}
    {a : α} :
    looked (closed close look) = some (a, rest) ↔
      ∃ after, looked look = some (a, after) ∧ ended (close after) = some rest := by
  rw [looked_closed, Option.bind_eq_some_iff]
  constructor
  · rintro ⟨⟨b, after⟩, hlook, h⟩
    obtain ⟨left, hended, h⟩ := Option.map_eq_some_iff.1 h
    cases h
    exact ⟨after, hlook, hended⟩
  · rintro ⟨after, hlook, hended⟩
    exact ⟨(a, after), hlook, by rw [hended]; rfl⟩

theorem ended_closeArray_iff : ended (closeArray text) = some rest ↔ skipBlanks text = ']' :: rest := by
  unfold closeArray
  split
  · rename_i hskip
    simp [ended, hskip]
  · rename_i c left hskip
    have htext : skipBlanks text = ']' :: rest ↔ c :: left = ']' :: rest := by rw [hskip]
    rw [htext]
    by_cases hc : c = ']'
    · simp [ended, hc]
    · by_cases hcomma : c = ',' <;> simp [ended, hc, hcomma]

theorem ended_closeObject_iff :
    ended (closeObject text) = some rest ↔ skipBlanks text = '\x7d' :: rest := by
  unfold closeObject
  split
  · rename_i hskip
    simp [ended, hskip]
  · rename_i c left hskip
    have htext : skipBlanks text = '\x7d' :: rest ↔ c :: left = '\x7d' :: rest := by rw [hskip]
    rw [htext]
    by_cases hc : c = '\x7d' <;> simp [ended, hc]

/-! ## Blanks -/

theorem isBlank_of_skipBlanks {c : Char} (h : skipBlanks text = c :: rest) : isBlank c = false := by
  have hhead := List.head?_dropWhile_not isBlank text
  rw [← skipBlanks, h] at hhead
  exact hhead

theorem skipBlanks_of_not_blank {c : Char} (h : isBlank c = false) :
    skipBlanks (c :: text) = c :: text :=
  List.dropWhile_cons_of_neg (Bool.eq_false_iff.1 h)

/-- Blanks are skipped once. -/
theorem skipBlanks_of_eq {c : Char} (h : skipBlanks text = c :: rest) :
    skipBlanks (c :: rest) = c :: rest :=
  skipBlanks_of_not_blank (isBlank_of_skipBlanks h)

/-! ## Elements of arrays -/

/-- An element of an array follows; `next` begins with its first character. -/
inductive ElementFollows : (first : Bool) → (text next : List Char) → Prop
  | first {text rest : List Char} {c : Char} :
      skipBlanks text = c :: rest → c ≠ ']' → ElementFollows true text (c :: rest)
  | further {text middle rest : List Char} {c : Char} :
      skipBlanks text = ',' :: middle → skipBlanks middle = c :: rest → c ≠ ']' →
        ElementFollows false text (c :: rest)

theorem coming_nextElement_close {first : Bool} (h : skipBlanks text = ']' :: rest) :
    coming (nextElement first text : Except (Failure π) _) = some (none, ']' :: rest) := by
  unfold nextElement
  split
  · rename_i hskip
    cases h.symm.trans hskip
  · rename_i hskip
    cases h.symm.trans hskip
    rfl

theorem coming_nextElement_item {first : Bool} {next : List Char}
    (h : ElementFollows first text next) :
    coming (nextElement first text : Except (Failure π) _) = some (some (), next) := by
  unfold nextElement
  cases h with
  | first htext hc =>
    split
    · rename_i hskip
      cases htext.symm.trans hskip
    · rename_i hskip
      cases htext.symm.trans hskip
      dsimp only
      rw [if_neg hc]
      rfl
  | further htext hmiddle hc =>
    split
    · rename_i hskip
      cases htext.symm.trans hskip
    · rename_i hskip
      cases htext.symm.trans hskip
      dsimp only
      rw [if_neg (by decide), if_neg (by decide), if_pos rfl]
      split
      · rename_i hskip
        cases hmiddle.symm.trans hskip
      · rename_i hskip
        cases hmiddle.symm.trans hskip
        rw [if_neg hc]
        rfl

/-- Inside an array either its end comes or an element. -/
theorem coming_nextElement_cases {first : Bool} {comes : Option Unit}
    (h : coming (nextElement first text : Except (Failure π) _) = some (comes, rest)) :
    (comes = none ∧ ∃ left, skipBlanks text = ']' :: left ∧ rest = ']' :: left) ∨
      (comes = some () ∧ ElementFollows first text rest) := by
  unfold nextElement at h
  split at h
  · cases h
  · rename_i c left htext
    dsimp only at h
    split at h
    · rename_i hc
      subst hc
      cases h
      exact .inl ⟨rfl, left, htext, rfl⟩
    · rename_i hc
      split at h
      · rename_i hfirst
        subst hfirst
        cases h
        exact .inr ⟨rfl, .first htext hc⟩
      · rename_i hfirst
        rw [Bool.not_eq_true] at hfirst
        subst hfirst
        split at h
        · rename_i hcomma
          subst hcomma
          split at h
          · cases h
          · rename_i d left' hmiddle
            split at h
            · cases h
            · rename_i hd
              cases h
              exact .inr ⟨rfl, .further htext hmiddle hd⟩
        · cases h

theorem looked_readElements {element : (text : List Char) → Scan π α text} {first : Bool} :
    looked (readElements element first text) =
      (coming (nextElement first text : Except (Failure π) _)).bind fun
        | (none, rest) => some ([], rest)
        | (some (), rest) => (scanned (element rest)).bind fun r =>
            (looked (readElements element false r.2)).map fun rs => (r.1 :: rs.1, rs.2) := by
  rw [readElements.eq_def]
  cases nextElement first text with
  | error f => rfl
  | ok next =>
    cases next with
    | close rest h => rfl
    | item _ rest h =>
      cases hread : element rest with
      | error f => simp [coming, scanned, looked, hread]
      | ok r =>
        cases hreads : readElements element false r.rest <;>
          simp [coming, scanned, looked, hread, hreads]

/-- The elements of an array up to its end, when `R` says what an element is read as. -/
inductive ElementsRead (R : List Char → α → List Char → Prop) :
    (first : Bool) → (text : List Char) → List α → (rest : List Char) → Prop
  | close {first : Bool} {text rest : List Char} :
      skipBlanks text = ']' :: rest → ElementsRead R first text [] (']' :: rest)
  | item {first : Bool} {text next middle rest : List Char} {a : α} {as : List α} :
      ElementFollows first text next → R next a middle → ElementsRead R false middle as rest →
        ElementsRead R first text (a :: as) rest

theorem looked_readElements_iff {element : (text : List Char) → Scan π α text} {first : Bool}
    {as : List α} :
    looked (readElements element first text) = some (as, rest) ↔
      ElementsRead (fun t a r => scanned (element t) = some (a, r)) first text as rest := by
  constructor
  · intro h
    induction as generalizing first text with
    | nil =>
      rw [looked_readElements, Option.bind_eq_some_iff] at h
      obtain ⟨⟨comes, next⟩, hcoming, h⟩ := h
      rcases coming_nextElement_cases hcoming with ⟨rfl, left, htext, rfl⟩ | ⟨rfl, hfollows⟩
      · cases h
        exact .close htext
      · obtain ⟨r, -, h⟩ := Option.bind_eq_some_iff.1 h
        obtain ⟨rs, -, h⟩ := Option.map_eq_some_iff.1 h
        cases h
    | cons a as ih =>
      rw [looked_readElements, Option.bind_eq_some_iff] at h
      obtain ⟨⟨comes, next⟩, hcoming, h⟩ := h
      rcases coming_nextElement_cases hcoming with ⟨rfl, left, htext, rfl⟩ | ⟨rfl, hfollows⟩
      · cases h
      · obtain ⟨r, hread, h⟩ := Option.bind_eq_some_iff.1 h
        obtain ⟨rs, hreads, h⟩ := Option.map_eq_some_iff.1 h
        cases h
        exact .item hfollows hread (ih hreads)
  · intro h
    induction h with
    | close htext =>
      rw [looked_readElements, coming_nextElement_close htext]
      rfl
    | item hfollows hread _ ih =>
      rw [looked_readElements, coming_nextElement_item hfollows]
      dsimp only [Option.bind_some]
      rw [hread, Option.bind_some, ih]
      rfl

/-- If each element comes to what a function says, all of them come to what it says of each. -/
theorem looked_readElements_of {R : List Char → α → List Char → Prop} {f : α → Option β}
    {element : (text : List Char) → Scan π β text} {first : Bool} {as : List α}
    (h : ElementsRead R first text as rest)
    (helement : ∀ {next a middle}, R next a middle →
      scanned (element next) = (f a).map fun b => (b, middle)) :
    looked (readElements element first text) = (as.mapM f).map fun bs => (bs, rest) := by
  induction h with
  | close htext =>
    rw [looked_readElements, coming_nextElement_close htext]
    rfl
  | @item _ _ _ _ _ a as hfollows hread _ ih =>
    rw [looked_readElements, coming_nextElement_item hfollows]
    dsimp only [Option.bind_some]
    rw [helement hread, List.mapM_cons]
    cases f a with
    | none => rfl
    | some b =>
      dsimp only [Option.map_some, Option.bind_some]
      rw [ih]
      cases as.mapM f <;> rfl

/-- Where an element follows, an array cannot be closed. -/
theorem ended_closeArray_of_follows {first : Bool} {next : List Char}
    (h : ElementFollows first text next) : ended (closeArray text) = none := by
  rw [Option.eq_none_iff_forall_ne_some]
  intro left hended
  have htext := ended_closeArray_iff.1 hended
  cases h with
  | first hfirst hc => exact hc (List.cons.inj (hfirst.symm.trans htext)).1
  | further hfirst => cases hfirst.symm.trans htext

/-! ## Members of objects -/

/-- A member of an object follows; its key has been read when `rest` is left. -/
inductive KeyFollows (π : Type) : (first : Bool) → (text : List Char) → String → (rest : List Char) →
    Prop
  | first {text middle rest : List Char} {key : String} :
      skipBlanks text = '"' :: middle →
        scanned (readString middle : Scan π String middle) = some (key, rest) →
          KeyFollows π true text key rest
  | further {text after middle rest : List Char} {key : String} :
      skipBlanks text = ',' :: after → skipBlanks after = '"' :: middle →
        scanned (readString middle : Scan π String middle) = some (key, rest) →
          KeyFollows π false text key rest

theorem coming_nextKey_close {first : Bool} (h : skipBlanks text = '\x7d' :: rest) :
    coming (nextKey first text : Except (Failure π) _) = some (none, '\x7d' :: rest) := by
  unfold nextKey
  split
  · rename_i hskip
    cases h.symm.trans hskip
  · rename_i hskip
    cases h.symm.trans hskip
    rfl

theorem coming_nextKey_item {first : Bool} {key : String} (h : KeyFollows π first text key rest) :
    coming (nextKey first text : Except (Failure π) _) = some (some key, rest) := by
  unfold nextKey
  cases h with
  | first htext hkey =>
    obtain ⟨hshorter, hread⟩ := scanned_eq_some_iff.1 hkey
    split
    · rename_i hskip
      cases htext.symm.trans hskip
    · rename_i hskip
      cases htext.symm.trans hskip
      dsimp only
      rw [if_neg (by decide), if_pos rfl, if_pos rfl, hread]
      rfl
  | further htext hafter hkey =>
    obtain ⟨hshorter, hread⟩ := scanned_eq_some_iff.1 hkey
    split
    · rename_i hskip
      cases htext.symm.trans hskip
    · rename_i hskip
      cases htext.symm.trans hskip
      dsimp only
      rw [if_neg (by decide), if_neg (by decide), if_pos rfl]
      split
      · rename_i hskip
        cases hafter.symm.trans hskip
      · rename_i hskip
        cases hafter.symm.trans hskip
        rw [if_pos rfl, hread]
        rfl

/-- Inside an object either its end comes or a member. -/
theorem coming_nextKey_cases {first : Bool} {comes : Option String}
    (h : coming (nextKey first text : Except (Failure π) _) = some (comes, rest)) :
    (comes = none ∧ ∃ left, skipBlanks text = '\x7d' :: left ∧ rest = '\x7d' :: left) ∨
      ∃ key, comes = some key ∧ KeyFollows π first text key rest := by
  unfold nextKey at h
  split at h
  · cases h
  · rename_i c left htext
    dsimp only at h
    split at h
    · rename_i hc
      subst hc
      cases h
      exact .inl ⟨rfl, left, htext, rfl⟩
    · split at h
      · rename_i hfirst
        subst hfirst
        split at h
        · rename_i hquote
          subst hquote
          cases hread : (readString left : Scan π String left) with
          | error f =>
            rw [hread] at h
            cases h
          | ok r =>
            rw [hread] at h
            cases h
            exact .inr ⟨r.value, rfl, .first htext (scanned_eq_some_iff.2 ⟨r.shorter, hread⟩)⟩
        · cases h
      · rename_i hfirst
        rw [Bool.not_eq_true] at hfirst
        subst hfirst
        split at h
        · rename_i hcomma
          subst hcomma
          split at h
          · cases h
          · rename_i d left' hafter
            split at h
            · rename_i hquote
              subst hquote
              cases hread : (readString left' : Scan π String left') with
              | error f =>
                rw [hread] at h
                cases h
              | ok r =>
                rw [hread] at h
                cases h
                exact .inr ⟨r.value, rfl,
                  .further htext hafter (scanned_eq_some_iff.2 ⟨r.shorter, hread⟩)⟩
            · split at h <;> cases h
        · cases h

theorem looked_readMembers {member : String → σ → (text : List Char) → Scan π σ text} {first : Bool}
    {state : σ} :
    looked (readMembers member first state text) =
      (coming (nextKey first text : Except (Failure π) _)).bind fun
        | (none, rest) => some (state, rest)
        | (some key, rest) => (scanned (member key state rest)).bind fun r =>
            looked (readMembers member false r.1 r.2) := by
  rw [readMembers.eq_def]
  cases nextKey first text with
  | error f => rfl
  | ok next =>
    cases next with
    | close rest h => rfl
    | item key rest h =>
      cases hread : member key state rest with
      | error f => simp [coming, scanned, looked, hread]
      | ok r =>
        cases hreads : readMembers member false r.value r.rest <;>
          simp [coming, scanned, looked, hread, hreads, Taken.from]

/-! ## Colons -/

theorem scanned_readColon_iff :
    scanned (readColon text : Scan π Unit text) = some ((), rest) ↔ skipBlanks text = ':' :: rest := by
  unfold readColon
  split
  · rename_i hskip
    simp [scanned, hskip]
  · rename_i c left hskip
    have htext : skipBlanks text = ':' :: rest ↔ c :: left = ':' :: rest := by rw [hskip]
    rw [htext]
    by_cases hc : c = ':' <;> simp [scanned, hc]

theorem scanned_afterColon {value : (text : List Char) → Scan π α text} :
    scanned (afterColon value text) =
      (scanned (readColon text : Scan π Unit text)).bind fun r => scanned (value r.2) := by
  unfold afterColon
  refine scanned_bind ?_
  intro colon
  cases value colon.rest <;> rfl

theorem scanned_afterColon_iff {value : (text : List Char) → Scan π α text} {a : α} :
    scanned (afterColon value text) = some (a, rest) ↔
      ∃ middle, skipBlanks text = ':' :: middle ∧ scanned (value middle) = some (a, rest) := by
  rw [scanned_afterColon, Option.bind_eq_some_iff]
  constructor
  · rintro ⟨⟨⟨⟩, middle⟩, hcolon, h⟩
    exact ⟨middle, scanned_readColon_iff.1 hcolon, h⟩
  · rintro ⟨middle, hcolon, h⟩
    exact ⟨((), middle), scanned_readColon_iff.2 hcolon, h⟩

/-- The members of an object up to its end, when `R` says what a value is read as. -/
inductive MembersRead (π : Type) (R : List Char → α → List Char → Prop) :
    (first : Bool) → (text : List Char) → List (String × α) → (rest : List Char) → Prop
  | close {first : Bool} {text rest : List Char} :
      skipBlanks text = '\x7d' :: rest → MembersRead π R first text [] ('\x7d' :: rest)
  | item {first : Bool} {text after value middle rest : List Char} {key : String} {a : α}
      {members : List (String × α)} :
      KeyFollows π first text key after → skipBlanks after = ':' :: value → R value a middle →
        MembersRead π R false middle members rest →
          MembersRead π R first text ((key, a) :: members) rest

/-- Adds a member to those that have been read. -/
def collect (value : (text : List Char) → Scan π α text) (key : String)
    (members : List (String × α)) (text : List Char) : Scan π (List (String × α)) text :=
  (afterColon value text).map (·.map fun a => members ++ [(key, a)])

theorem looked_readMembers_iff {value : (text : List Char) → Scan π α text} {first : Bool}
    {state members : List (String × α)} :
    looked (readMembers (collect value) first state text) = some (members, rest) ↔
      ∃ new, members = state ++ new ∧
        MembersRead π (fun t a r => scanned (value t) = some (a, r)) first text new rest := by
  constructor
  · intro h
    fun_induction readMembers (collect value) first state text with
    | case1 | case3 | case4 => cases h
    | case2 first state text left hleft hnext =>
      have hcoming := congrArg coming hnext
      rcases coming_nextKey_cases hcoming with ⟨-, after, htext, rfl⟩ | ⟨_, hkey, _⟩
      · cases h
        exact ⟨[], (List.append_nil _).symm, .close htext⟩
      · cases hkey
    | case5 first state text key left hleft hnext r hread _ rs hreads ih =>
      have hcoming := congrArg coming hnext
      rcases coming_nextKey_cases hcoming with ⟨hkey, _⟩ | ⟨_, hkey, hfollows⟩
      · cases hkey
      · cases hkey
        rw [hreads] at ih
        obtain ⟨new, hmembers, hnew⟩ := ih h
        have hscanned := scanned_eq_some_iff.2 ⟨r.shorter, hread⟩
        rw [collect, scanned_map, Option.map_eq_some_iff] at hscanned
        obtain ⟨⟨a, middle⟩, hafter, hr⟩ := hscanned
        obtain ⟨value, hcolon, hvalue⟩ := scanned_afterColon_iff.1 hafter
        obtain ⟨hstate, rfl⟩ := Prod.mk.inj hr
        refine ⟨(key, a) :: new, ?_, .item hfollows hcolon hvalue hnew⟩
        rw [hmembers, ← hstate, List.append_assoc]
        rfl
  · rintro ⟨new, rfl, h⟩
    induction h generalizing state with
    | close htext =>
      rw [looked_readMembers, coming_nextKey_close htext, List.append_nil]
      rfl
    | item hfollows hcolon hread _ ih =>
      rw [looked_readMembers, coming_nextKey_item hfollows]
      dsimp only [Option.bind_some]
      rw [collect, scanned_map, scanned_afterColon_iff.2 ⟨_, hcolon, hread⟩]
      simp only [Option.map_some, Option.bind_some, Prod.map, id]
      rw [ih, List.append_assoc]
      rfl

/-- If each member changes the state as a function says, all of them change it step by step. -/
theorem looked_readMembers_of {R : List Char → α → List Char → Prop}
    {g : σ → String × α → Option σ}
    {member : String → σ → (text : List Char) → Scan π σ text} {first : Bool}
    {members : List (String × α)} {state : σ} (h : MembersRead π R first text members rest)
    (hmember : ∀ {key state after value a middle}, skipBlanks after = ':' :: value →
      R value a middle →
        scanned (member key state after) = (g state (key, a)).map fun s => (s, middle)) :
    looked (readMembers member first state text) =
      (members.foldlM g state).map fun s => (s, rest) := by
  induction h generalizing state with
  | close htext =>
    rw [looked_readMembers, coming_nextKey_close htext]
    rfl
  | @item _ _ _ _ _ _ key a members hfollows hcolon hread _ ih =>
    rw [looked_readMembers, coming_nextKey_item hfollows]
    dsimp only [Option.bind_some]
    rw [hmember hcolon hread, List.foldlM_cons]
    cases g state (key, a) with
    | none => rfl
    | some s => exact ih

end BlockCircuit.Json
