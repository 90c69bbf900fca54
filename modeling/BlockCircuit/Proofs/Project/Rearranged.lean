import BlockCircuit.Proofs.Project.Tree
import Mathlib.Data.List.Nodup
import Mathlib.Data.List.Perm.Basic

/-!
# Projects that differ in their order only

A document lists blocks, wires and dependencies one after another. `Rearranged` relates two projects
that have the same ones in another order, where each circuit of the tree may have an order of its
own. Order is then all that can tell the two apart.

* `Rearranged.refl`, `Rearranged.symm`, `Rearranged.trans` — the relation is an equivalence;
* `RearrangedDeps.of_perm` — an order of the dependencies alone is an instance of it;
* `Rearranged.exists_reaches` — a path leads to circuits that differ in their order only;
* `Rearranged.exists_lookup` — and a type name is found to mean such circuits, in tables with one
  entry for a type name;
* `Rearranged.keyed` — whether tables are like this does not depend on order.
-/

namespace BlockCircuit.Project

variable {p q r dep : Project} {t : String} {path : List String}

/-- In a table with one entry for a type name, looking up the name of an entry finds the entry. -/
theorem lookup_of_mem {deps : List (String × Project)} (hkeys : (deps.map Prod.fst).Nodup)
    (hdep : (t, dep) ∈ deps) : deps.lookup t = some dep := by
  have hkey : t ∈ deps.map Prod.fst := List.mem_map_of_mem hdep
  obtain ⟨other, hother⟩ := Option.isSome_iff_exists.1 (lookup_isSome_iff.2 hkey)
  cases List.inj_on_of_nodup_map hkeys (mem_of_lookup hother) hdep rfl
  exact hother

mutual

/-- Two projects have the same blocks and the same wires in any order, and dependencies that differ
in their order only. -/
inductive Rearranged : Project → Project → Prop
  | mk {blocks blocks' : List Block} {wires wires' : List Wire}
      {deps deps' : List (String × Project)} :
      blocks.Perm blocks' → wires.Perm wires' → RearrangedDeps deps deps' →
      Rearranged ⟨⟨blocks, wires⟩, deps⟩ ⟨⟨blocks', wires'⟩, deps'⟩

/-- Two tables of dependencies have the same entries in any order, where the definitions under one
type name differ in their order only. -/
inductive RearrangedDeps : List (String × Project) → List (String × Project) → Prop
  | nil : RearrangedDeps [] []
  | cons {t : String} {p q : Project} {deps deps' : List (String × Project)} :
      Rearranged p q → RearrangedDeps deps deps' → RearrangedDeps ((t, p) :: deps) ((t, q) :: deps')
  | swap {a b : String × Project} {deps : List (String × Project)} :
      RearrangedDeps (a :: b :: deps) (b :: a :: deps)
  | trans {deps between deps' : List (String × Project)} :
      RearrangedDeps deps between → RearrangedDeps between deps' → RearrangedDeps deps deps'

end

namespace Rearranged

/-! ## An equivalence -/

theorem blocks (h : Rearranged p q) : p.graph.blocks.Perm q.graph.blocks := by
  cases h with
  | mk hblocks _ _ => exact hblocks

theorem wires (h : Rearranged p q) : p.graph.wires.Perm q.graph.wires := by
  cases h with
  | mk _ hwires _ => exact hwires

theorem deps (h : Rearranged p q) : RearrangedDeps p.deps q.deps := by
  cases h with
  | mk _ _ hdeps => exact hdeps

@[refl] theorem refl (p : Project) : Rearranged p p := by
  refine @Project.induction (fun p => Rearranged p p) (fun deps => RearrangedDeps deps deps)
    ?mk ?nil ?cons p
  case mk => exact fun graph deps hdeps => .mk (.refl _) (.refl _) hdeps
  case nil => exact .nil
  case cons => exact fun t p deps hp hdeps => .cons hp hdeps

@[symm] theorem symm (h : Rearranged p q) : Rearranged q p := by
  refine @Rearranged.rec (fun p q _ => Rearranged q p)
    (fun deps deps' _ => RearrangedDeps deps' deps) ?mk ?nil ?cons ?swap ?trans p q h
  case mk => exact fun hblocks hwires _ hdeps => .mk hblocks.symm hwires.symm hdeps
  case nil => exact .nil
  case cons => exact fun _ _ hp hdeps => .cons hp hdeps
  case swap => exact .swap
  case trans => exact fun _ _ hfirst hsecond => hsecond.trans hfirst

@[trans] theorem trans (h : Rearranged p q) (h' : Rearranged q r) : Rearranged p r := by
  cases h with
  | mk hblocks hwires hdeps =>
    cases h' with
    | mk hblocks' hwires' hdeps' =>
      exact .mk (hblocks.trans hblocks') (hwires.trans hwires') (hdeps.trans hdeps')

end Rearranged

/-! ## Dependencies -/

namespace RearrangedDeps

variable {deps deps' : List (String × Project)}

/-- Induction along the steps from one table to another. -/
theorem induction {holds : ∀ deps deps', RearrangedDeps deps deps' → Prop}
    (nil : holds [] [] .nil)
    (cons : ∀ t p q deps deps' (h : Rearranged p q) (hdeps : RearrangedDeps deps deps'),
      holds deps deps' hdeps → holds ((t, p) :: deps) ((t, q) :: deps') (.cons h hdeps))
    (swap : ∀ a b deps, holds (a :: b :: deps) (b :: a :: deps) .swap)
    (trans : ∀ deps between deps' (h : RearrangedDeps deps between)
      (h' : RearrangedDeps between deps'), holds deps between h → holds between deps' h' →
        holds deps deps' (.trans h h'))
    (h : RearrangedDeps deps deps') : holds deps deps' h :=
  RearrangedDeps.rec (motive_1 := fun _ _ _ => True) (motive_2 := holds) (fun _ _ _ _ => trivial)
    nil (fun h hdeps _ => cons _ _ _ _ _ h hdeps) (swap _ _ _) (trans _ _ _) h

/-- A table in another order. -/
theorem of_perm (h : deps.Perm deps') : RearrangedDeps deps deps' := by
  induction h with
  | nil => exact .nil
  | cons entry _ ih => exact .cons (.refl entry.2) ih
  | swap a b deps => exact .swap
  | trans _ _ ih ih' => exact ih.trans ih'

/-- The type names are the same. -/
theorem keys (h : RearrangedDeps deps deps') : (deps.map Prod.fst).Perm (deps'.map Prod.fst) := by
  induction h using RearrangedDeps.induction with
  | nil => exact .nil
  | cons t p q deps deps' _ _ ih => exact ih.cons t
  | swap a b deps => exact .swap ..
  | trans deps between deps' _ _ ih ih' => exact ih.trans ih'

/-- An entry is in the other table too, with a definition that differs in its order only. -/
theorem exists_of_mem (h : RearrangedDeps deps deps') (hdep : (t, dep) ∈ deps) :
    ∃ dep', (t, dep') ∈ deps' ∧ Rearranged dep dep' := by
  induction h using RearrangedDeps.induction generalizing dep with
  | nil => cases hdep
  | cons u p q deps deps' hp _ ih =>
    rcases List.mem_cons.1 hdep with hhead | htail
    · cases hhead
      exact ⟨q, List.mem_cons_self, hp⟩
    · obtain ⟨dep', hdep', hrearranged⟩ := ih htail
      exact ⟨dep', List.mem_cons_of_mem _ hdep', hrearranged⟩
  | swap a b deps => exact ⟨dep, (List.Perm.swap b a deps).mem_iff.1 hdep, .refl dep⟩
  | trans deps between deps' _ _ ih ih' =>
    obtain ⟨dep', hdep', hrearranged⟩ := ih hdep
    obtain ⟨dep'', hdep'', hrearranged'⟩ := ih' hdep'
    exact ⟨dep'', hdep'', hrearranged.trans hrearranged'⟩

end RearrangedDeps

namespace Rearranged

/-- A path leads to circuits that differ in their order only. -/
theorem exists_reaches (h : Rearranged p q) (hr : p.Reaches path r) :
    ∃ r', q.Reaches path r' ∧ Rearranged r r' := by
  induction hr generalizing q with
  | here p => exact ⟨q, .here q, h⟩
  | through hdep _ ih =>
    obtain ⟨dep', hdep', hrearranged⟩ := h.deps.exists_of_mem hdep
    obtain ⟨r', hr', hrearranged'⟩ := ih hrearranged
    exact ⟨r', .through hdep' hr', hrearranged'⟩

/-- Whether tables have one entry for a type name does not depend on order. -/
theorem keyed (h : Rearranged p q) (hkeys : p.Keyed) : q.Keyed := by
  intro path r hr
  obtain ⟨r', hr', hrearranged⟩ := h.symm.exists_reaches hr
  exact hrearranged.deps.keys.nodup_iff.2 (hkeys path r' hr')

/-- In tables with one entry for a type name, the name means circuits that differ in their order
only. -/
theorem exists_lookup (h : Rearranged p q) (hkeys : (p.deps.map Prod.fst).Nodup)
    (hdep : p.deps.lookup t = some dep) :
    ∃ dep', q.deps.lookup t = some dep' ∧ Rearranged dep dep' := by
  obtain ⟨dep', hdep', hrearranged⟩ := h.deps.exists_of_mem (mem_of_lookup hdep)
  exact ⟨dep', lookup_of_mem (h.deps.keys.nodup_iff.1 hkeys) hdep', hrearranged⟩

end Rearranged

end BlockCircuit.Project
