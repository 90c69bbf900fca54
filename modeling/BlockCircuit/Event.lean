import BlockCircuit.CompileError

/-!
# Events of a compilation

While it works the compiler reports events, for whoever watches it. They are values: a computation
that reports events has type `Logged α`, and yields its events whether or not it succeeds.
-/

namespace BlockCircuit

/-- The stages of a compilation. -/
inductive Pass where
  | load
  | check
  | verilog
  | pcf
deriving DecidableEq, Repr

/-- The name of a stage. -/
def Pass.name : Pass → String
  | .load => "load"
  | .check => "check"
  | .verilog => "verilog"
  | .pcf => "pcf"

/-- Something worth telling that happened during a compilation. -/
inductive Event where
  /-- A stage has ended well. -/
  | passComplete (pass : Pass)
  /-- The module of a code block is about to be written. -/
  | emittingCode (module block : String)
  /-- The module of a circuit is about to be written. -/
  | emittingCircuit (module : String) (blocks wires : Nat)
  /-- An instance was written that no wire touches. -/
  | unconnectedInstance (circuit block : String)
  /-- The pin constraints are written, in so many lines. -/
  | pinsEmitted (lines : Nat)
  /-- The checker had this to say about a project that is compiled. -/
  | checkWarning (warning : Diagnostic)
deriving DecidableEq, Repr

namespace Event

/-- How urgent an event is. -/
inductive Level where
  | debug
  | warn
deriving DecidableEq, Repr

/-- The word for an urgency. -/
def Level.word : Level → String
  | .debug => "debug"
  | .warn => "warn"

/-- Something that an event carries along. -/
inductive FieldValue where
  | text (value : String)
  | count (value : Nat)
deriving DecidableEq, Repr

/-- The urgency of an event. -/
def level : Event → Level
  | unconnectedInstance _ _ | checkWarning _ => .warn
  | _ => .debug

/-- The message of an event. -/
def message : Event → String
  | passComplete pass => pass.name ++ " complete"
  | emittingCode _ _ => "emitting code module"
  | emittingCircuit _ _ _ => "emitting circuit module"
  | unconnectedInstance _ _ => "instance has no connections"
  | pinsEmitted _ => "pin constraints emitted"
  | checkWarning warning => warning.text

/-- What an event carries along, by name. -/
def fields : Event → List (String × FieldValue)
  | emittingCode module block => [("module", .text module), ("block", .text block)]
  | emittingCircuit module blocks wires =>
      [("module", .text module), ("blocks", .count blocks), ("wires", .count wires)]
  | unconnectedInstance circuit block => [("circuit", .text circuit), ("block", .text block)]
  | pinsEmitted lines => [("lines", .count lines)]
  | passComplete _ | checkWarning _ => []

end Event

/-! ## Computations that report events -/

/-- The outcome of a computation that may stop with an error, and the events it reported until
then, oldest first. -/
structure Logged (α : Type) where
  events : List Event
  result : Except CompileError α

namespace Logged

/-- A value without events. -/
protected def pure {α : Type} (a : α) : Logged α := ⟨[], .ok a⟩

/-- One computation after another; the second does not happen if the first stops. -/
protected def bind {α β : Type} (x : Logged α) (f : α → Logged β) : Logged β :=
  match x.result with
  | .ok a => ⟨x.events ++ (f a).events, (f a).result⟩
  | .error e => ⟨x.events, .error e⟩

instance : Monad Logged where
  pure := Logged.pure
  bind := Logged.bind

/-- Stops with an error. -/
def stop {α : Type} (e : CompileError) : Logged α := ⟨[], .error e⟩

/-- Reports some events. -/
def report (events : List Event) : Logged Unit := ⟨events, .ok ()⟩

/-- A result that comes without events. -/
def ofExcept {α : Type} (result : Except CompileError α) : Logged α := ⟨[], result⟩

@[simp] theorem events_pure {α : Type} (a : α) : (pure a : Logged α).events = [] := rfl

@[simp] theorem result_pure {α : Type} (a : α) : (pure a : Logged α).result = .ok a := rfl

/-- The result of a sequence is the sequence of the results. -/
@[simp] theorem result_bind {α β : Type} (x : Logged α) (f : α → Logged β) :
    (x >>= f).result = x.result >>= fun a => (f a).result := by
  show (Logged.bind x f).result = _
  unfold Logged.bind
  cases x.result <;> rfl

theorem events_bind_ok {α β : Type} {x : Logged α} {a : α} (h : x.result = .ok a)
    (f : α → Logged β) : (x >>= f).events = x.events ++ (f a).events := by
  show (Logged.bind x f).events = _
  simp [Logged.bind, h]

theorem events_bind_error {α β : Type} {x : Logged α} {e : CompileError}
    (h : x.result = .error e) (f : α → Logged β) : (x >>= f).events = x.events := by
  show (Logged.bind x f).events = _
  simp [Logged.bind, h]

/-- The events of a sequence depend on the events of what follows only. -/
theorem events_bind_congr {α β γ : Type} {x : Logged α} {f : α → Logged β} {g : α → Logged γ}
    (h : ∀ a, (f a).events = (g a).events) : (x >>= f).events = (x >>= g).events := by
  cases hx : x.result with
  | ok a => rw [events_bind_ok hx, events_bind_ok hx, h]
  | error e => rw [events_bind_error hx, events_bind_error hx]

private theorem bind_pure_id {α : Type} (x : Logged α) :
    Logged.bind x (fun a => Logged.pure (id a)) = x := by
  rcases x with ⟨es, _ | a⟩ <;> simp [Logged.bind, Logged.pure]

private theorem bind_assoc_aux {α β γ : Type} (x : Logged α) (f : α → Logged β) (g : β → Logged γ) :
    Logged.bind (Logged.bind x f) g = Logged.bind x fun a => Logged.bind (f a) g := by
  rcases x with ⟨es, _ | a⟩
  · simp [Logged.bind]
  · cases h : (f a).result <;> simp [Logged.bind, h]

instance : LawfulMonad Logged :=
  LawfulMonad.mk' Logged bind_pure_id
    (fun a f => by
      show Logged.bind (Logged.pure a) f = f a
      simp [Logged.bind, Logged.pure])
    bind_assoc_aux

end Logged

end BlockCircuit
