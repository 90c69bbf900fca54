import BlockCircuit.Proofs.Project.Tree
import Mathlib.Data.List.Induction
import Mathlib.Data.List.Nodup

/-!
# Types that are used inside their own definition

A type is used inside its own definition where a path of type names comes to a name that it has been
through before. `Recurs` says this of a path. A tree without such a path is one in which no path has
a name twice.

* `forall_nodup_iff` — a tree has no recurring path exactly when no path repeats a type name;
* `Acyclic` — the same for a tree below others;
* `FirstRecurrence` — the first recurring path of a tree, in the order of the document;
* `IsCycle` — what a list of type names from a name back to itself looks like;
* `isCycle_cycle`, `cycle_suffix` — the list for a recurring path is one, and is the end of the path.
-/

namespace BlockCircuit.Project

variable {p q dep : Project} {t : String} {path above : List String}

/-! ## Recurring paths -/

/-- The last name of a path occurs before in it. -/
def Recurs (path : List String) : Prop :=
  ∃ above t, path = above ++ [t] ∧ t ∈ above

theorem not_recurs_nil : ¬Recurs [] := by
  rintro ⟨above, t, hpath, -⟩
  exact List.append_ne_nil_of_right_ne_nil above (List.cons_ne_nil t []) hpath.symm

@[simp] theorem recurs_concat_iff : Recurs (above ++ [t]) ↔ t ∈ above := by
  constructor
  · rintro ⟨other, u, hpath, hu⟩
    obtain ⟨rfl, hut⟩ := List.append_inj' hpath rfl
    rw [(List.cons.inj hut).1]
    exact hu
  · intro ht
    exact ⟨above, t, rfl, ht⟩

instance : Decidable (Recurs path) :=
  decidable_of_iff (∃ t ∈ path.getLast?, t ∈ path.dropLast) (by
    rcases List.eq_nil_or_concat path with rfl | ⟨above, t, rfl⟩
    · simp [not_recurs_nil]
    · simp)

theorem not_recurs_of_nodup (hnd : path.Nodup) : ¬Recurs path := by
  rintro ⟨above, t, rfl, ht⟩
  exact List.disjoint_of_nodup_append hnd ht (List.mem_singleton.2 rfl)

/-- The way to a circuit passes the circuit one step before. -/
theorem Reaches.exists_above (hq : p.Reaches (above ++ [t]) q) : ∃ r, p.Reaches above r := by
  induction above generalizing p with
  | nil => exact ⟨p, .here p⟩
  | cons u above ih =>
    cases hq with
    | through hdep hq =>
      obtain ⟨r, hr⟩ := ih hq
      exact ⟨r, .through hdep hr⟩

/-- No path recurs exactly when no path has a name twice. -/
theorem forall_nodup_iff :
    (∀ path q, p.Reaches path q → path.Nodup) ↔ ∀ path q, p.Reaches path q → ¬Recurs path := by
  constructor
  · intro h path q hq
    exact not_recurs_of_nodup (h path q hq)
  · intro h path
    -- A name that occurs twice ends a recurring path where it occurs the second time.
    induction path using List.reverseRecOn with
    | nil => exact fun _ _ => List.nodup_nil
    | append_singleton above t ih =>
      intro q hq
      obtain ⟨r, hr⟩ := hq.exists_above
      have ht : t ∉ above := fun ht => h _ q hq (recurs_concat_iff.2 ht)
      exact (ih r hr).append (List.nodup_singleton t) (List.disjoint_singleton.2 ht)

/-! ## Trees without a cycle -/

/-- Below these ancestors, no path of the tree has a name twice. -/
def Acyclic (p : Project) (ancestors : List String) : Prop :=
  ∀ path q, p.Reaches path q → (ancestors ++ path).Nodup

variable {ancestors : List String}

theorem acyclic_iff :
    p.Acyclic ancestors ↔
      ancestors.Nodup ∧ ∀ t dep, (t, dep) ∈ p.deps → dep.Acyclic (ancestors ++ [t]) := by
  simp only [Acyclic, forall_reaches_iff (p := p), List.append_nil, List.append_assoc,
    List.singleton_append]

theorem Acyclic.below (h : p.Acyclic ancestors) (hdep : (t, dep) ∈ p.deps) :
    dep.Acyclic (ancestors ++ [t]) :=
  (acyclic_iff.1 h).2 t dep hdep

/-- A tree without a cycle below some ancestors has none by itself. -/
theorem Acyclic.alone (h : p.Acyclic ancestors) : p.Acyclic [] := by
  intro path q hq
  exact List.Nodup.of_append_right (h path q hq)

instance : Decidable (p.Acyclic ancestors) :=
  inferInstanceAs (Decidable (∀ path q, p.Reaches path q → (ancestors ++ path).Nodup))

theorem Acyclic.notMem (h : dep.Acyclic (ancestors ++ [t])) : t ∉ ancestors := by
  intro ht
  exact List.disjoint_of_nodup_append (acyclic_iff.1 h).1 ht (List.mem_singleton.2 rfl)

/-! ## The first recurrence -/

/-- The path through `above` to `t` is the first that recurs, in the order in which the document has
the circuits: each before those below it, and those below one dependency before the next. -/
structure FirstRecurrence (p : Project) (above : List String) (t : String) : Prop where
  /-- The name is one of those above it. -/
  recurs : t ∈ above
  /-- The paths before do not recur. -/
  first : ∃ before after, p.circuits.map Prod.fst = before ++ (above ++ [t]) :: after ∧
    ∀ path ∈ before, ¬Recurs path

/-! ## From a name back to itself -/

/-- A list of type names that leads from a name back to it and goes through no name twice before. -/
structure IsCycle (chain : List String) (t : String) : Prop where
  head : chain.head? = some t
  last : chain.getLast? = some t
  two_le_length : 2 ≤ chain.length
  nodup : chain.dropLast.Nodup

theorem dropWhile_ne_eq_cons (ht : t ∈ above) :
    ∃ below, above.dropWhile (· ≠ t) = t :: below := by
  induction above with
  | nil => exact absurd ht List.not_mem_nil
  | cons u above ih =>
    by_cases hut : u = t
    · subst hut
      exact ⟨above, by simp⟩
    · obtain ⟨below, hbelow⟩ := ih ((List.mem_cons.1 ht).resolve_left (Ne.symm hut))
      exact ⟨below, by simpa [hut] using hbelow⟩

/-- The names from the first use of a name down to where it is used again are a cycle. -/
theorem isCycle_cycle (hnd : above.Nodup) (ht : t ∈ above) : IsCycle (cycle above t) t := by
  obtain ⟨below, hbelow⟩ := dropWhile_ne_eq_cons ht
  have hcycle : cycle above t = t :: below ++ [t] := by rw [cycle, hbelow]
  have hbelowNodup : (t :: below).Nodup := by
    rw [← hbelow]
    exact hnd.sublist (List.dropWhile_sublist _)
  rw [hcycle]
  exact ⟨rfl, List.getLast?_concat .., by simp, by rwa [List.dropLast_concat]⟩

/-- They are the end of the path. -/
theorem cycle_suffix (above : List String) (t : String) : cycle above t <:+ above ++ [t] := by
  refine ⟨above.takeWhile (· ≠ t), ?_⟩
  rw [cycle, ← List.append_assoc, List.takeWhile_append_dropWhile]

end BlockCircuit.Project
