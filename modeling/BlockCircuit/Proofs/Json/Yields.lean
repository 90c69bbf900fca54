import BlockCircuit.Json.Nesting

/-!
# What readers yield

`Yields` says that whatever a reader yields has a property. A reader of an array or object is built
from the readers of its elements or members, and so is what is known of its values.

* `bind_eq_ok_iff`, `bind_eq_error_iff`, `toOption_bind` — how a sequence of results comes out;
* `yields_readElements` — what holds of each element read holds of all values of an array;
* `yields_readMembers` — what every member keeps holds when the object has been read.
-/

namespace BlockCircuit

variable {ε α β : Type} {holds : α → Prop} {also : β → Prop}

/-- Whatever the outcome is a success with has the property. -/
def Yields (holds : α → Prop) (outcome : Except ε α) : Prop :=
  ∀ a, outcome = .ok a → holds a

namespace Yields

theorem ok {a : α} (h : holds a) : Yields holds (.ok a : Except ε α) := by
  intro b hb
  cases hb
  exact h

theorem error {e : ε} : Yields holds (.error e) := by
  intro a ha
  cases ha

theorem bind {outcome : Except ε α} {next : α → Except ε β} (h : Yields holds outcome)
    (hnext : ∀ a, holds a → Yields also (next a)) : Yields also (outcome >>= next) := by
  cases outcome with
  | error e => exact error
  | ok a => exact hnext a (h a rfl)

theorem map {outcome : Except ε α} {f : α → β} (h : Yields holds outcome)
    (hf : ∀ a, holds a → also (f a)) : Yields also (outcome.map f) := by
  cases outcome with
  | error e => exact error
  | ok a => exact ok (hf a (h a rfl))

theorem ite {c : Prop} [Decidable c] {outcome other : Except ε α} (h : Yields holds outcome)
    (hother : Yields holds other) : Yields holds (if c then outcome else other) := by
  split
  · exact h
  · exact hother

/-- Nothing needs to be known of what is yielded. -/
theorem trivial (outcome : Except ε α) : Yields (fun _ => True) outcome :=
  fun _ _ => True.intro

end Yields

/-! ## Results one after another -/

section
variable {r : Except ε α}

theorem bind_eq_ok_iff {f : α → Except ε β} {b : β} :
    (r >>= f) = .ok b ↔ ∃ a, r = .ok a ∧ f a = .ok b := by
  cases r <;> simp [bind, Except.bind]

theorem bind_eq_error_iff {f : α → Except ε β} {e : ε} :
    (r >>= f) = .error e ↔ r = .error e ∨ ∃ a, r = .ok a ∧ f a = .error e := by
  cases r <;> simp [bind, Except.bind]

theorem toOption_bind (f : α → Except ε β) :
    (r >>= f).toOption = r.toOption.bind fun a => (f a).toOption := by
  cases r <;> rfl

theorem toOption_map (f : α → β) : (r.map f).toOption = r.toOption.map f := by
  cases r <;> rfl

theorem toOption_eq_some_iff {a : α} : r.toOption = some a ↔ r = .ok a := by
  cases r <;> simp [Except.toOption]

end

namespace Json

variable {π σ : Type} {text : List Char} {keeps : σ → Prop}

theorem yields_afterColon {value : (text : List Char) → Scan π α text}
    (h : ∀ text, Yields (fun r => holds r.value) (value text)) (text : List Char) :
    Yields (fun r => holds r.value) (afterColon value text) := by
  refine (Yields.trivial (readColon text)).bind ?_
  intro colon _
  refine (h colon.rest).bind ?_
  intro r hr
  exact .ok hr

/-- What holds of each element holds of all values of an array. -/
theorem yields_readElements {element : (text : List Char) → Scan π α text}
    (h : ∀ text, Yields (fun r => holds r.value) (element text)) (first : Bool)
    (text : List Char) :
    Yields (fun r => ∀ a ∈ r.value, holds a) (readElements element first text) := by
  fun_induction readElements element first text with
  | case1 | case3 | case4 => exact .error
  | case2 => exact .ok fun a ha => absurd ha List.not_mem_nil
  | case5 first text _ rest _ _ r hread _ rs hreads ih =>
    refine .ok ?_
    intro a ha
    rcases List.mem_cons.1 ha with rfl | ha
    · exact h rest r hread
    · exact ih rs hreads a ha

/-- What every member of an object keeps holds when the object has been read. -/
theorem yields_readMembers {member : String → σ → (text : List Char) → Scan π σ text}
    (h : ∀ key state text, keeps state → Yields (fun r => keeps r.value) (member key state text))
    (first : Bool) {state : σ} (hstate : keeps state) (text : List Char) :
    Yields (fun r => keeps r.value) (readMembers member first state text) := by
  fun_induction readMembers member first state text with
  | case1 | case3 | case4 => exact .error
  | case2 => exact .ok hstate
  | case5 first state text key rest _ _ r hread _ rs hreads ih =>
    exact .ok (ih (h key state rest hstate r hread) rs hreads)

theorem yields_closed {close : (text : List Char) → Closing text} {look : Look π α text}
    (h : Yields (fun r => holds r.value) look) :
    Yields (fun r => holds r.value) (closed close look) := by
  cases look with
  | error failure => cases failure <;> exact .error
  | ok r =>
    rw [closed]
    split
    · exact .ok (h r rfl)
    · exact .error

end Json

end BlockCircuit
