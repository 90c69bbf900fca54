import BlockCircuit.Pins
import BlockCircuit.Proofs.Compilation.Pins
import BlockCircuit.Proofs.Text.Pieces
import Mathlib.Data.List.Forall2

/-!
# Pin constraints and ports

The pin constraints and the header of the outermost module are two texts about the same ports. The
constraints follow the blocks, and the header lists inputs before outputs, so the names stand in two
different orders. They must be the same names all the same, or a port of the design would have no pin.

* `Pins.constraints_eq_filterMap` — the constraints, or the first port without a pin;
* `Interleaves`, `interleaves_ports` — the names of the constraints are those of the header, with
  inputs among themselves and outputs among themselves in order;
* `Pins.ofText?`, `Pins.ofText?_text` — the constraints are read back from their text;
* `compilePins_constrains_ports` — all this for the pin constraints of a project.
-/

namespace BlockCircuit

variable {s : Sanitizer}

/-! ## Ports without pins -/

namespace Block

variable {b : Block}

/-- A port of the circuit that has no pin. -/
def LacksPin (b : Block) : Prop :=
  b.isPort = true ∧ b.pin? = none

instance : DecidablePred LacksPin := fun b =>
  inferInstanceAs (Decidable (b.isPort = true ∧ b.pin? = none))

/-- Only ports have pins. -/
theorem pin?_of_not_isPort (h : ¬b.isPort = true) : b.pin? = none := by
  obtain ⟨id, kind⟩ := b
  cases kind with
  | input pin | output pin => exact absurd rfl h
  | code ports text | compound t => rfl

end Block

namespace Pins

/-- The constraint of a block with a pin. -/
def constraint? (s : Sanitizer) (b : Block) : Option PinConstraint :=
  b.pin?.map fun pin => ⟨s.ident b.id, pin.value⟩

theorem constraint?_of_pin? {b : Block} {pin : Pin} (h : b.pin? = some pin) :
    constraint? s b = some ⟨s.ident b.id, pin.value⟩ := by
  rw [constraint?, h, Option.map_some]

theorem constraint?_of_not_isPort {b : Block} (h : ¬b.isPort = true) : constraint? s b = none := by
  rw [constraint?, Block.pin?_of_not_isPort h, Option.map_none]

/-- The constraints of a circuit are those of its blocks with pins, unless a port has none. Then the
first such port is the error. -/
theorem constraints_eq_filterMap (s : Sanitizer) (g : Graph) :
    constraints s g =
      match g.blocks.find? (·.LacksPin) with
      | some b => .error (.missingPin b.id)
      | none => .ok (g.blocks.filterMap (constraint? s)) := by
  unfold constraints
  induction g.blocks with
  | nil => rfl
  | cons b blocks ih =>
    by_cases hport : b.isPort = true
    · rw [List.filter_cons_of_pos hport, List.mapM_cons, constraint]
      cases hpin : b.pin? with
      | none =>
        have hb : b.LacksPin := ⟨hport, hpin⟩
        rw [List.find?_cons_of_pos (by simpa using hb)]
        rfl
      | some pin =>
        have hb : ¬b.LacksPin := by
          rintro ⟨-, hnone⟩
          cases hpin.symm.trans hnone
        rw [ih, List.find?_cons_of_neg (by simpa using hb),
          List.filterMap_cons_some (constraint?_of_pin? hpin)]
        cases blocks.find? (·.LacksPin) <;> rfl
    · have hb : ¬b.LacksPin := fun h => hport h.1
      rw [List.filter_cons_of_neg hport, ih, List.find?_cons_of_neg (by simpa using hb),
        List.filterMap_cons_none (constraint?_of_not_isPort hport)]

end Pins

theorem result_compilePins (s : Sanitizer) (p : Project) :
    (compilePins s p).result = (Pins.constraints s p.graph).map Pins.text := by
  rw [compilePins, Logged.result_bind]
  cases h : Pins.constraints s p.graph <;> rfl

/-- The pin constraints fail for the first port without a pin. -/
theorem compilePins_eq_error_iff {p : Project} {e : CompileError} :
    (compilePins s p).result = .error e ↔
      ∃ front b back, p.graph.blocks = front ++ b :: back ∧ b.LacksPin ∧
        (∀ c ∈ front, ¬c.LacksPin) ∧ e = .missingPin b.id := by
  have hfirst : (compilePins s p).result = .error e ↔
      ∃ b, p.graph.blocks.find? (·.LacksPin) = some b ∧ e = .missingPin b.id := by
    rw [result_compilePins, Pins.constraints_eq_filterMap]
    cases p.graph.blocks.find? (·.LacksPin) <;> simp [Except.map, eq_comm]
  rw [hfirst]
  constructor
  · rintro ⟨b, hb, he⟩
    obtain ⟨hlacks, front, back, hblocks, hfront⟩ := List.find?_eq_some_iff_append.1 hb
    exact ⟨front, b, back, hblocks, by simpa using hlacks, by simpa using hfront, he⟩
  · rintro ⟨front, b, back, hblocks, hlacks, hfront, he⟩
    refine ⟨b, List.find?_eq_some_iff_append.2 ⟨by simpa using hlacks, front, back, hblocks, ?_⟩, he⟩
    simpa using hfront

/-- Nothing but a missing pin keeps the pin constraints from being written. -/
theorem eq_missingPin_of_compilePins {p : Project} {e : CompileError}
    (h : (compilePins s p).result = .error e) : ∃ block, e = .missingPin block := by
  obtain ⟨_, b, _, _, _, _, he⟩ := compilePins_eq_error_iff.1 h
  exact ⟨b.id, he⟩

/-- Otherwise they are the constraints of the blocks with pins. -/
theorem compilePins_eq_ok_iff {p : Project} {text : String} :
    (compilePins s p).result = .ok text ↔
      (∀ b ∈ p.graph.blocks, ¬b.LacksPin) ∧
        text = Pins.text (p.graph.blocks.filterMap (Pins.constraint? s)) := by
  rw [result_compilePins, Pins.constraints_eq_filterMap]
  cases h : p.graph.blocks.find? (·.LacksPin) with
  | none =>
    have hall : ∀ b ∈ p.graph.blocks, ¬b.LacksPin := by simpa using h
    rw [and_iff_right hall]
    simp [Except.map, eq_comm]
  | some b =>
    have hb : b.LacksPin := by simpa using List.find?_some h
    refine iff_of_false nofun ?_
    rintro ⟨hall, -⟩
    exact hall b (List.mem_of_find?_eq_some h) hb

/-! ## Names in two orders -/

/-- A list is made of two others, with the elements of each in their order. -/
inductive Interleaves {α : Type} : (left right all : List α) → Prop
  | nil : Interleaves [] [] []
  | left {x : α} {left right all : List α} :
      Interleaves left right all → Interleaves (x :: left) right (x :: all)
  | right {x : α} {left right all : List α} :
      Interleaves left right all → Interleaves left (x :: right) (x :: all)

/-- The ports of a circuit in block order are its inputs and its outputs. -/
theorem interleaves_ports (s : Sanitizer) (g : Graph) :
    Interleaves (g.ports s).inputs (g.ports s).outputs
      ((g.blocks.filter Block.isPort).map fun b => s.ident b.id) := by
  unfold Graph.ports
  induction g.blocks with
  | nil => exact .nil
  | cons b blocks ih =>
    obtain ⟨id, kind⟩ := b
    cases kind with
    | input pin => exact ih.left
    | output pin => exact ih.right
    | code ports text | compound t => exact ih

/-- A constraint ties the port of a block to the pin of the block. -/
structure Constrains (s : Sanitizer) (b : Block) (c : PinConstraint) : Prop where
  port : c.port = s.ident b.id
  pin : ∃ pin, b.pin? = some pin ∧ c.pin = pin.value

theorem constrains_iff {b : Block} {c : PinConstraint} :
    Constrains s b c ↔ Pins.constraint? s b = some c := by
  rw [Pins.constraint?, Option.map_eq_some_iff]
  constructor
  · rintro ⟨hport, pin, hpin, hvalue⟩
    exact ⟨pin, hpin, by rw [← hport, ← hvalue]⟩
  · rintro ⟨pin, hpin, rfl⟩
    exact ⟨rfl, pin, hpin, rfl⟩

/-- If no port lacks a pin, there is one constraint for each port, in block order. -/
theorem forall₂_constrains {blocks : List Block} (h : ∀ b ∈ blocks, ¬b.LacksPin) :
    List.Forall₂ (Constrains s) (blocks.filter Block.isPort)
      (blocks.filterMap (Pins.constraint? s)) := by
  induction blocks with
  | nil => exact .nil
  | cons b blocks ih =>
    rw [List.forall_mem_cons] at h
    by_cases hport : b.isPort = true
    · cases hpin : b.pin? with
      | none => exact absurd ⟨hport, hpin⟩ h.1
      | some pin =>
        have hconstraint := Pins.constraint?_of_pin? (s := s) hpin
        rw [List.filter_cons_of_pos hport, List.filterMap_cons_some hconstraint]
        exact .cons (constrains_iff.2 hconstraint) (ih h.2)
    · rw [List.filter_cons_of_neg hport,
        List.filterMap_cons_none (Pins.constraint?_of_not_isPort hport)]
      exact ih h.2

section
variable {blocks : List Block} {cs : List PinConstraint} (h : List.Forall₂ (Constrains s) blocks cs)
include h

/-- The constraints of ports have the names of the ports. -/
theorem map_port_of_constrains : cs.map (·.port) = blocks.map fun b => s.ident b.id := by
  induction h with
  | nil => rfl
  | cons hc _ ih => rw [List.map_cons, List.map_cons, hc.port, ih]

/-- The ports leave no choice of the constraints. -/
theorem eq_filterMap_of_constrains : cs = blocks.filterMap (Pins.constraint? s) := by
  induction h with
  | nil => rfl
  | cons hc _ ih => rw [List.filterMap_cons_some (constrains_iff.1 hc), ← ih]

end

/-! ## Reading constraints -/

/-- The word that begins a constraint. -/
def constraintWord : List Char := ['s', 'e', 't', '_', 'i', 'o']

/-- Reads the line of a constraint, which is cut at its first two blanks. -/
def PinConstraint.ofLine? (line : List Char) : Option PinConstraint := do
  let (word, rest) ← Text.cut? ' ' line
  let (port, pin) ← Text.cut? ' ' rest
  if word = constraintWord then some ⟨String.ofList port, String.ofList pin⟩ else none

/-- Reads constraints line by line. Nothing may follow the last line break. -/
def Pins.ofText? (text : String) : Option (List PinConstraint) :=
  let lines := text.toList.splitOn '\n'
  if lines.getLast? = some [] then lines.dropLast.mapM PinConstraint.ofLine? else none

namespace PinConstraint

/-- A constraint is on one line, and its port has no blank. -/
def IsPlain (c : PinConstraint) : Prop :=
  ' ' ∉ c.port.toList ∧ '\n' ∉ c.port.toList ∧ '\n' ∉ c.pin.toList

instance : DecidablePred IsPlain := fun c =>
  inferInstanceAs (Decidable (' ' ∉ c.port.toList ∧ '\n' ∉ c.port.toList ∧ '\n' ∉ c.pin.toList))

variable {c : PinConstraint}

/-- The characters of a line, without its line break. -/
def lineChars (c : PinConstraint) : List Char :=
  constraintWord ++ ' ' :: (c.port.toList ++ ' ' :: c.pin.toList)

theorem toList_line (c : PinConstraint) : c.line.toList = c.lineChars ++ ['\n'] := by
  simp [line, lineChars, constraintWord]

theorem ofLine?_lineChars (h : ' ' ∉ c.port.toList) : ofLine? c.lineChars = some c := by
  have hword : ' ' ∉ constraintWord := by decide
  rw [ofLine?, lineChars, Text.cut?_append hword]
  simp [Text.cut?_append h]

theorem IsPlain.break_notMem_lineChars (h : c.IsPlain) : '\n' ∉ c.lineChars := by
  obtain ⟨-, hport, hpin⟩ := h
  have hword : '\n' ∉ constraintWord := by decide
  simp [lineChars, hword, hport, hpin]

end PinConstraint

/-- Constraints on one line each are read back from their text. -/
theorem Pins.ofText?_text {cs : List PinConstraint} (h : ∀ c ∈ cs, c.IsPlain) :
    ofText? (text cs) = some cs := by
  have hchars : (text cs).toList = (cs.map PinConstraint.lineChars).flatMap (· ++ ['\n']) := by
    simp [text, String.toList_join, List.flatMap_map, PinConstraint.toList_line]
  have hlines : (text cs).toList.splitOn '\n' = cs.map PinConstraint.lineChars ++ [[]] := by
    rw [hchars, Text.splitOn_flatMap]
    rw [List.forall_mem_map]
    exact fun c hc => (h c hc).break_notMem_lineChars
  have hread : (cs.map PinConstraint.lineChars).mapM PinConstraint.ofLine? = some cs := by
    clear hchars hlines
    induction cs with
    | nil => rfl
    | cons c cs ih =>
      rw [List.forall_mem_cons] at h
      rw [List.map_cons, List.mapM_cons, PinConstraint.ofLine?_lineChars h.1.1, ih h.2]
      rfl
  rw [ofText?, hlines]
  simp [hread]

/-! ## The constraints of a project -/

/-- The pin constraints of a project fail exactly when a port of its circuit has no pin, with the first
such port. Otherwise they constrain the ports in the header of the module, each once, with inputs among
themselves and outputs among themselves in the order of the header, and each to the pin of its block.
If each constraint is on one line, and no name of a port has a blank, then the constraints are read back
from the text. -/
theorem compilePins_constrains_ports (s : Sanitizer) (p : Project) :
    let result := (compilePins s p).result
    ((∃ e, result = .error e) ↔ ∃ b ∈ p.graph.blocks, b.LacksPin) ∧
      (∀ e, result = .error e ↔ ∃ front b back, p.graph.blocks = front ++ b :: back ∧
        b.LacksPin ∧ (∀ c ∈ front, ¬c.LacksPin) ∧ e = .missingPin b.id) ∧
      ∀ text, result = .ok text → ∃ cs, text = Pins.text cs ∧
        Interleaves (p.graph.ports s).inputs (p.graph.ports s).outputs (cs.map (·.port)) ∧
          List.Forall₂ (Constrains s) (p.graph.blocks.filter Block.isPort) cs ∧
            ((∀ c ∈ cs, c.IsPlain) → Pins.ofText? text = some cs) := by
  intro result
  refine ⟨?_, fun e => compilePins_eq_error_iff, ?_⟩
  · cases hresult : result with
    | error e =>
      obtain ⟨front, b, back, hblocks, hb, -⟩ := compilePins_eq_error_iff.1 hresult
      exact iff_of_true ⟨e, rfl⟩ ⟨b, by simp [hblocks], hb⟩
    | ok text =>
      refine iff_of_false nofun ?_
      rintro ⟨b, hmem, hb⟩
      exact (compilePins_eq_ok_iff.1 hresult).1 b hmem hb
  · intro text htext
    obtain ⟨hall, htext⟩ := compilePins_eq_ok_iff.1 htext
    have hties := forall₂_constrains (s := s) hall
    refine ⟨_, htext, ?_, hties, fun hplain => ?_⟩
    · rw [map_port_of_constrains hties]
      exact interleaves_ports s p.graph
    · rw [htext, Pins.ofText?_text hplain]

/-- The first port of the panel is an output, and the header has the inputs before it. -/
theorem compilePins_constrains_panel :
    let text := "set_io sensor 7\nset_io light 7\nset_io bell 7\n"
    (compilePins .sha1 .panel).result = .ok text ∧
      Interleaves ["light", "bell"] ["sensor"] ["sensor", "light", "bell"] ∧
        Pins.ofText? text = some [⟨"sensor", "7"⟩, ⟨"light", "7"⟩, ⟨"bell", "7"⟩] := by
  intro text
  have hresult : (compilePins .sha1 .panel).result = .ok text := rfl
  obtain ⟨-, -, hok⟩ := compilePins_constrains_ports .sha1 .panel
  obtain ⟨cs, -, hnames, hties, hread⟩ := hok text hresult
  have hcs : cs = [⟨"sensor", "7"⟩, ⟨"light", "7"⟩, ⟨"bell", "7"⟩] :=
    eq_filterMap_of_constrains hties
  subst hcs
  exact ⟨hresult, hnames, hread (by decide)⟩

end BlockCircuit
