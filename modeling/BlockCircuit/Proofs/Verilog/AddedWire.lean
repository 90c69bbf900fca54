import BlockCircuit.Proofs.Project.Tree
import BlockCircuit.Verilog.Body
import Mathlib.Data.List.Forall2

/-!
# One more wire

A wire is known by its place, so a wire that is added at the end takes a new number and leaves the
numbers of the others as they are. All it brings into the body of the module is its own net: a
declaration, the assignments at ports that have the id of one of its ends, and the bindings at
instances that have it. Each of them comes last in its list. Nothing is asked of the circuit: ids may
be used twice, and wires may end nowhere or at the block where they begin.

* `bindings_concat`, `assignments_concat` — what is added to the lists that wires are looked up for;
* `AssignmentAt`, `BindsMore` — an assignment of a port block, and an instance with more bindings;
* `bodyOf_addWire` — the body of the circuit with the wire, statement by statement and as text.
-/

namespace BlockCircuit

/-- Whether a wire is assigned to a port of the circuit: its source to an input, or its target to an
output. -/
def Wire.isAtPort (w : Wire) (b : Block) : Bool :=
  match b.kind with
  | .input _ => w.source.block = b.id
  | .output _ => w.target.block = b.id
  | .code _ _ | .compound _ => false

namespace Verilog

variable {s : Sanitizer} {circuit id : String} {g : Graph} {net : Nat}

/-! ## Lists of statements -/

/-- The assignment between a port block and a net. -/
inductive AssignmentAt (s : Sanitizer) (net : Nat) : Block → Assignment → Prop
  | input {id : String} {pin : Option Pin} :
      AssignmentAt s net ⟨id, .input pin⟩ (.drive net (s.ident id))
  | output {id : String} {pin : Option Pin} :
      AssignmentAt s net ⟨id, .output pin⟩ (.expose (s.ident id) net)

/-- The instance of a block with the bindings of one more wire: its source port, then its target
port, as far as they are at the block. -/
structure BindsMore (s : Sanitizer) (w : Wire) (net : Nat) (b : Block) (old new : Instance) : Prop where
  module : new.module = old.module
  name : new.name = old.name
  bindings : new.bindings = old.bindings
    ++ (if w.source.block = b.id then [⟨s.ident w.source.port, net⟩] else [])
    ++ (if w.target.block = b.id then [⟨s.ident w.target.port, net⟩] else [])

theorem bindings_concat (wires : List Wire) (x : Wire) (id : String) :
    bindings s (wires ++ [x]) id = bindings s wires id ++ endBindings s id x wires.length := by
  simp [bindings, List.zipIdx_append]

theorem assignments_concat (s : Sanitizer) (circuit : String) (g : Graph) (x : Wire) :
    (bodyOf s circuit { g with wires := g.wires ++ [x] }).assignments =
      (bodyOf s circuit g).assignments ++ g.blocks.filterMap (assignment? s x g.wires.length) := by
  simp [bodyOf, List.zipIdx_append]

/-- A wire makes one assignment for each port that it is at, in block order. -/
theorem forall₂_assignmentAt (x : Wire) (net : Nat) (blocks : List Block) :
    List.Forall₂ (AssignmentAt s net) (blocks.filter x.isAtPort)
      (blocks.filterMap (assignment? s x net)) := by
  induction blocks with
  | nil => exact .nil
  | cons b blocks ih =>
    obtain ⟨id, kind⟩ := b
    cases kind with
    | input pin =>
      by_cases hid : x.source.block = id
      · simpa [Wire.isAtPort, assignment?, hid] using ⟨.input, ih⟩
      · simpa [Wire.isAtPort, assignment?, hid] using ih
    | output pin =>
      by_cases hid : x.target.block = id
      · simpa [Wire.isAtPort, assignment?, hid] using ⟨.output, ih⟩
      · simpa [Wire.isAtPort, assignment?, hid] using ih
    | code ports text | compound t =>
      rw [List.filterMap_cons_none rfl]
      exact ih

theorem bindsMore_instanceOf (x : Wire) (b : Block) :
    BindsMore s x g.wires.length b (instanceOf s circuit g.wires b)
      (instanceOf s circuit (g.wires ++ [x]) b) where
  module := rfl
  name := rfl
  bindings := by
    show bindings s (g.wires ++ [x]) b.id = _
    rw [bindings_concat, endBindings, List.append_assoc]
    rfl

/-- Nothing is assigned or bound for a wire that is at no block. -/
theorem bodyOf_addWire_of_loose {x : Wire}
    (h : ∀ b ∈ g.blocks, b.id ≠ x.source.block ∧ b.id ≠ x.target.block) :
    bodyOf s circuit { g with wires := g.wires ++ [x] } =
      { bodyOf s circuit g with nets := List.range (g.wires.length + 1) } := by
  have hassignments : g.blocks.filterMap (assignment? s x g.wires.length) = [] := by
    rw [List.filterMap_eq_nil_iff]
    rintro ⟨id, kind⟩ hb
    obtain ⟨hsource, htarget⟩ := h _ hb
    cases kind <;> simp [assignment?, Ne.symm hsource, Ne.symm htarget]
  have hinstances : g.instanceBlocks.map (instanceOf s circuit (g.wires ++ [x])) =
      g.instanceBlocks.map (instanceOf s circuit g.wires) := by
    refine List.map_congr_left fun b hb => ?_
    obtain ⟨hsource, htarget⟩ := h b (Graph.mem_instanceBlocks_iff.1 hb).1
    simp [instanceOf, bindings_concat, endBindings, Ne.symm hsource, Ne.symm htarget]
  have hbody := assignments_concat s circuit g x
  rw [hassignments, List.append_nil] at hbody
  simp only [bodyOf, List.length_append, List.length_singleton] at hbody ⊢
  rw [hbody]
  exact congrArg (Body.mk _ _) hinstances

/-! ## The body -/

/-- With one more wire at the end, the body of a circuit has one more net, which is declared after all
others. Its assignments come after all others, one for each port that the wire is at, in block order.
Its bindings come after all others of their instance, the source port first. Everything else is as it
was and where it was. If no block has the id of an end of the wire, then only the declaration is
added. -/
theorem bodyOf_addWire (s : Sanitizer) (circuit : String) (g : Graph) (x : Wire) :
    let net := g.wires.length
    let old := bodyOf s circuit g
    let new := bodyOf s circuit { g with wires := g.wires ++ [x] }
    let declared := String.join (old.nets.map fun net => "wire " ++ netName net ++ ";\n")
    let assigned := String.join (old.assignments.map Assignment.text)
    (∃ added, List.Forall₂ (AssignmentAt s net) (g.blocks.filter x.isAtPort) added ∧
        new.nets = old.nets ++ [net] ∧ new.assignments = old.assignments ++ added ∧
          old.text = declared ++ assigned ++ "\n".intercalate (old.instances.map Instance.text) ∧
            new.text = declared ++ ("wire " ++ netName net ++ ";\n") ++ assigned
              ++ String.join (added.map Assignment.text)
              ++ "\n".intercalate (new.instances.map Instance.text)) ∧
      old.instances.length = g.instanceBlocks.length ∧
      new.instances.length = g.instanceBlocks.length ∧
      (∀ (place : Nat) (b : Block), g.instanceBlocks[place]? = some b →
        ∃ before after, old.instances[place]? = some before ∧ new.instances[place]? = some after ∧
          BindsMore s x net b before after) ∧
      ((∀ b ∈ g.blocks, b.id ≠ x.source.block ∧ b.id ≠ x.target.block) →
        new = { old with nets := old.nets ++ [net] }) := by
  intro net old new declared assigned
  have hnets : new.nets = old.nets ++ [net] := by
    simp [new, old, net, bodyOf, List.range_succ]
  have hassignments : new.assignments = old.assignments ++ g.blocks.filterMap (assignment? s x net) :=
    assignments_concat s circuit g x
  refine ⟨⟨_, forall₂_assignmentAt x net g.blocks, hnets, hassignments, rfl, ?_⟩, ?_, ?_, ?_, ?_⟩
  · rw [Body.text, hnets, hassignments]
    simp [declared, assigned, String.append_assoc]
  · exact List.length_map _
  · exact List.length_map _
  · intro place b hb
    refine ⟨instanceOf s circuit g.wires b, instanceOf s circuit (g.wires ++ [x]) b, ?_, ?_,
      bindsMore_instanceOf x b⟩
    · show (g.instanceBlocks.map _)[place]? = _
      rw [List.getElem?_map, hb, Option.map_some]
    · show (g.instanceBlocks.map _)[place]? = _
      rw [List.getElem?_map, hb, Option.map_some]
  · intro hloose
    show bodyOf s circuit { g with wires := g.wires ++ [x] } = _
    rw [bodyOf_addWire_of_loose hloose, List.range_succ]
    rfl

/-- One more wire from the cell of the latch to itself brings two bindings, its source port first, and
a wire between blocks that are not there brings none. -/
theorem bodyOf_addWire_latch :
    let latch := Project.latch.graph
    (∃ cell, (bodyOf .sha1 "latch" { latch with
          wires := latch.wires ++ [⟨⟨"cell", "q"⟩, ⟨"cell", "a"⟩⟩] }).instances[0]? = some cell ∧
        cell.bindings =
          [⟨"a", 0⟩, ⟨"q", 1⟩, ⟨"b", 1⟩, ⟨"q", 2⟩, ⟨"q", 3⟩, ⟨"a", 3⟩]) ∧
      bodyOf .sha1 "latch" { latch with
          wires := latch.wires ++ [⟨⟨"ghost", "q"⟩, ⟨"ghost", "a"⟩⟩] } =
        { bodyOf .sha1 "latch" latch with nets := [0, 1, 2, 3] } := by
  intro latch
  obtain ⟨-, -, -, hplaces, -⟩ :=
    bodyOf_addWire .sha1 "latch" latch ⟨⟨"cell", "q"⟩, ⟨"cell", "a"⟩⟩
  obtain ⟨-, -, -, -, hloose⟩ :=
    bodyOf_addWire .sha1 "latch" latch ⟨⟨"ghost", "q"⟩, ⟨"ghost", "a"⟩⟩
  obtain ⟨before, cell, hbefore, hcell, hmore⟩ := hplaces 0 _ rfl
  cases hbefore
  exact ⟨⟨cell, hcell, hmore.bindings⟩, hloose (by decide)⟩

end Verilog

end BlockCircuit
