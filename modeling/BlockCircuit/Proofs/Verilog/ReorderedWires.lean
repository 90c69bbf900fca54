import BlockCircuit.Verilog.Body
import Mathlib.Data.List.FinRange

/-!
# Wires in another order

The place of a wire in the list is the number of its net, and that number is printed wherever the net is
used. So it could matter a lot where a wire stands. It does not: a wire brings the same statements at every
place, up to the number of its net, and looks at no other wire. With the wires in another order, a body has
the same statements with other numbers, in some order. Nothing is asked of the circuit: ids may be used
twice, wires may be there twice, and they may end nowhere or at the block where they begin.

* `Graph.reorderWires`, `renumber` — the circuit in another order, and the new number of a net;
* `zipIdx_reorderWires` — the numbered wires are the same wires with their new numbers;
* `flatMap_reorderWires` — what is put together from the wires one by one is renamed;
* `bodyOf_reorderWires` — the body of the circuit in another order.
-/

namespace BlockCircuit

/-- The graph with its wires in another order: the wire with the number `i` gets the number `σ i`. -/
def Graph.reorderWires (g : Graph) (σ : Equiv.Perm (Fin g.wires.length)) : Graph :=
  { g with wires := List.ofFn fun i => g.wires.get (σ.symm i) }

/-- The new number of a net. -/
def renumber {count : Nat} (σ : Equiv.Perm (Fin count)) (net : Nat) : Nat :=
  if h : net < count then σ ⟨net, h⟩ else net

theorem renumber_val {count : Nat} (σ : Equiv.Perm (Fin count)) (i : Fin count) :
    renumber σ i = σ i := by
  simp [renumber]

namespace Verilog

/-- An assignment whose net is called otherwise. -/
def Assignment.rename (name : Nat → Nat) : Assignment → Assignment
  | drive net port => drive (name net) port
  | expose port net => expose port (name net)

/-- A binding whose net is called otherwise. -/
def Binding.rename (name : Nat → Nat) (b : Binding) : Binding :=
  { b with net := name b.net }

/-- The same instance, where the nets of its bindings are called otherwise and the bindings may stand in
another order. -/
structure RenamesInstance (rename : Nat → Nat) (old new : Instance) : Prop where
  module : new.module = old.module
  name : new.name = old.name
  bindings : new.bindings.Perm (old.bindings.map (Binding.rename rename))

variable {s : Sanitizer} {circuit : String} {g : Graph} (σ : Equiv.Perm (Fin g.wires.length))

/-! ## Numbered wires -/

/-- A wire stands where the new order puts it. -/
theorem getElem?_reorderWires (i : Fin g.wires.length) :
    (g.reorderWires σ).wires[(σ i : Nat)]? = some (g.wires.get i) := by
  simp [Graph.reorderWires]

theorem zipIdx_ofFn {α : Type} {count : Nat} (f : Fin count → α) :
    (List.ofFn f).zipIdx = List.ofFn fun i => (f i, i.val) := by
  apply List.ext_getElem
  · simp
  · intro i hi hi'
    simp

/-- The numbered wires in the new order are the old ones with their new numbers. -/
theorem zipIdx_reorderWires :
    (g.reorderWires σ).wires.zipIdx.Perm (g.wires.zipIdx.map fun (w, i) => (w, renumber σ i)) := by
  have hnew : (g.reorderWires σ).wires.zipIdx =
      List.ofFn ((fun i => (g.wires.get i, (σ i).val)) ∘ σ.symm) := by
    simp [Graph.reorderWires, zipIdx_ofFn, Function.comp_def]
  have hold : (g.wires.zipIdx.map fun (w, i) => (w, renumber σ i)) =
      List.ofFn fun i => (g.wires.get i, (σ i).val) := by
    have hnumbered := zipIdx_ofFn g.wires.get
    rw [List.ofFn_get] at hnumbered
    rw [hnumbered, List.map_ofFn]
    simp [Function.comp_def, renumber_val]
  rw [hnew, hold]
  exact Equiv.Perm.ofFn_comp_perm σ.symm _

/-- What the wires bring one by one, and what depends on the number of a wire only by a new name, is there
again under the new names. -/
theorem flatMap_reorderWires {α : Type} {f : Wire → Nat → List α} {rename : α → α}
    (hf : ∀ w i, f w (renumber σ i) = (f w i).map rename) :
    ((g.reorderWires σ).wires.zipIdx.flatMap fun (w, i) => f w i).Perm
      ((g.wires.zipIdx.flatMap fun (w, i) => f w i).map rename) := by
  have hrenamed : (g.wires.zipIdx.flatMap fun (w, i) => f w i).map rename =
      (g.wires.zipIdx.map fun (w, i) => (w, renumber σ i)).flatMap fun (w, i) => f w i := by
    rw [List.map_flatMap, List.flatMap_map]
    exact List.flatMap_congr fun entry _ => (hf entry.1 entry.2).symm
  rw [hrenamed]
  exact (zipIdx_reorderWires σ).flatMap_right _

/-! ## Statements of one wire -/

theorem assignment?_rename (name : Nat → Nat) (w : Wire) (net : Nat) (b : Block) :
    assignment? s w (name net) b = (assignment? s w net b).map (Assignment.rename name) := by
  obtain ⟨id, kind⟩ := b
  cases kind with
  | input pin =>
    by_cases h : w.source.block = id <;> simp [assignment?, h, Assignment.rename]
  | output pin =>
    by_cases h : w.target.block = id <;> simp [assignment?, h, Assignment.rename]
  | code ports text | compound t => rfl

theorem endBindings_rename (name : Nat → Nat) (id : String) (w : Wire) (net : Nat) :
    endBindings s id w (name net) = (endBindings s id w net).map (Binding.rename name) := by
  by_cases hsource : w.source.block = id <;> by_cases htarget : w.target.block = id <;>
    simp [endBindings, hsource, htarget, Binding.rename]

/-! ## The body -/

theorem renamesInstance_reorderWires (b : Block) :
    RenamesInstance (renumber σ) (instanceOf s circuit g.wires b)
      (instanceOf s circuit (g.reorderWires σ).wires b) where
  module := rfl
  name := rfl
  bindings := flatMap_reorderWires σ (endBindings_rename (renumber σ) b.id)

/-- Let the wire with the number `i` get the number `σ i`. Then each net is declared under its new number,
and the assignments are those from before with the new numbers, in some order. The instances are the same
and in the same order, and the bindings of each are those from before with the new numbers, in some
order. -/
theorem bodyOf_reorderWires (s : Sanitizer) (circuit : String) (g : Graph)
    (σ : Equiv.Perm (Fin g.wires.length)) :
    let old := bodyOf s circuit g
    let new := bodyOf s circuit (g.reorderWires σ)
    (∀ i, (g.reorderWires σ).wires[(σ i).val]? = some (g.wires.get i)) ∧
      new.nets.Perm (old.nets.map (renumber σ)) ∧
        new.assignments.Perm (old.assignments.map (Assignment.rename (renumber σ))) ∧
          List.Forall₂ (RenamesInstance (renumber σ)) old.instances new.instances := by
  intro old new
  refine ⟨getElem?_reorderWires σ, ?_, ?_, ?_⟩
  · have hnets (wires : List Wire) : List.range wires.length = wires.zipIdx.map Prod.snd := by
      rw [List.zipIdx_map_snd, List.range_eq_range']
    show (List.range _).Perm ((List.range _).map _)
    rw [hnets, hnets, List.map_map]
    have hperm := (zipIdx_reorderWires σ).map Prod.snd
    rwa [List.map_map] at hperm
  · refine flatMap_reorderWires (f := fun w i => g.blocks.filterMap (assignment? s w i)) σ ?_
    intro w i
    rw [List.map_filterMap]
    exact List.filterMap_congr fun b _ => assignment?_rename (renumber σ) w i b
  · show List.Forall₂ _ (g.instanceBlocks.map _) (g.instanceBlocks.map _)
    rw [List.forall₂_map_left_iff, List.forall₂_map_right_iff, List.forall₂_same]
    exact fun b _ => renamesInstance_reorderWires σ b

end Verilog

end BlockCircuit
