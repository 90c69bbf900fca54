import BlockCircuit.Proofs.Check.WellFormed
import BlockCircuit.Proofs.Project.Rearranged

/-!
# Checks and the order of the document

What the checks say first depends on what the document has first. Which of two blocks with one id
is found, which of them is reported, and where a cycle is cut off all follow the order of the
document. Whether there is anything to report does not: the order of blocks, wires and dependencies
has no part in what it means that a circuit is well formed, or that a path repeats a type name. And
a warning is about one block and the wires that touch it. Only the entries of a table could not
change places if two of them had one name, since the name means the first. Tables do not have such
entries: insertions keep one entry for a name.

* `WellFormed.rearranged` — a circuit in another order is well formed too;
* `warnings_visit_perm` — the warnings about a tree in another order are the same, in some order;
* `checkProject_ignores_order` — both for the checks of a project.
-/

namespace BlockCircuit

open Project (Rearranged RearrangedDeps)

namespace Check

variable {s : Sanitizer} {p q : Project} {side : Side}

/-! ## Well-formed circuits -/

section
variable (h : Rearranged p q) (hkeys : (p.deps.map Prod.fst).Nodup)
include h hkeys

theorem Fits.rearranged {port : String} {kind : BlockKind} (hfits : Fits s p.deps side port kind) :
    Fits s q.deps side port kind := by
  cases hfits with
  | input => exact .input
  | output => exact .output
  | codeOutput hport => exact .codeOutput hport
  | codeInput hport => exact .codeInput hport
  | compoundOutput hdep hb hport =>
    obtain ⟨dep', hdep', hrearranged⟩ := h.exists_lookup hkeys hdep
    exact .compoundOutput hdep' (hrearranged.blocks.mem_iff.1 hb) hport
  | compoundInput hdep hb hport =>
    obtain ⟨dep', hdep', hrearranged⟩ := h.exists_lookup hkeys hdep
    exact .compoundInput hdep' (hrearranged.blocks.mem_iff.1 hb) hport

theorem EndFits.rearranged {e : Endpoint} (hend : EndFits s p e side) : EndFits s q e side := by
  obtain ⟨b, hb, hid, hfits⟩ := hend
  exact ⟨b, h.blocks.mem_iff.1 hb, hid, hfits.rearranged h hkeys⟩

/-- A circuit in another order is well formed too. -/
theorem WellFormed.rearranged (hwf : WellFormed s p) : WellFormed s q where
  ids := (h.blocks.map _).nodup_iff.1 hwf.ids
  code := h.blocks.countP_eq _ ▸ hwf.code
  types b hb t ht := h.deps.keys.mem_iff.1 (hwf.types b (h.blocks.mem_iff.2 hb) t ht)
  sources w hw := (hwf.sources w (h.wires.mem_iff.2 hw)).rearranged h hkeys
  targets w hw := (hwf.targets w (h.wires.mem_iff.2 hw)).rearranged h hkeys

end

/-- A tree in another order is visited without error too. -/
theorem errors_visit_eq_nil_of_rearranged {name : String} {ancestors : List String}
    (hnd : ancestors.Nodup) (h : Rearranged p q) (hkeys : p.Keyed)
    (hp : (visit s name ancestors p).errors = []) : (visit s name ancestors q).errors = [] := by
  rw [errors_visit_eq_nil_iff hnd] at hp ⊢
  intro path r' hr'
  obtain ⟨r, hr, hrearranged⟩ := h.symm.exists_reaches hr'
  obtain ⟨hpath, hwf⟩ := hp path r hr
  exact ⟨hpath, hwf.rearranged hrearranged.symm (hkeys path r hr)⟩

/-! ## Warnings -/

theorem isConnected_eq (h : Rearranged p q) (id : String) :
    p.graph.isConnected id = q.graph.isConnected id :=
  h.wires.any_eq

/-- The warnings about a circuit in another order. -/
theorem warnings_graphReport_perm (h : Rearranged p q) (circuit : String) :
    (graphReport s circuit p.deps p.graph).warnings.Perm
      (graphReport s circuit q.deps q.graph).warnings := by
  have hunconnected : (fun b : Block => !p.graph.isConnected b.id) =
      fun b => !q.graph.isConnected b.id := by
    funext b
    rw [isConnected_eq h]
  show ((p.graph.instanceBlocks.filter _).map _).Perm _
  rw [hunconnected]
  exact ((h.blocks.filter _).filter _).map _

/-- The warnings about a tree in another order are the same, in some order. -/
theorem warnings_visit_perm (name : String) (ancestors : List String) (h : Rearranged p q) :
    (visit s name ancestors p).warnings.Perm (visit s name ancestors q).warnings := by
  refine @Rearranged.rec
    (fun p q _ => ∀ name ancestors,
      (visit s name ancestors p).warnings.Perm (visit s name ancestors q).warnings)
    (fun deps deps' _ => ∀ name ancestors,
      (visitDeps s name ancestors deps).warnings.Perm (visitDeps s name ancestors deps').warnings)
    ?mk ?nil ?cons ?swap ?trans p q h name ancestors
  case mk =>
    intro blocks blocks' wires wires' deps deps' hblocks hwires hdeps ih name ancestors
    rw [visit, visit, CheckReport.warnings_append, CheckReport.warnings_append]
    exact (ih name ancestors).append (warnings_graphReport_perm (.mk hblocks hwires hdeps) name)
  case nil => exact fun _ _ => .nil
  case cons =>
    intro t p q deps deps' _ _ ihp ihdeps name ancestors
    rw [visitDeps, visitDeps, CheckReport.warnings_append, CheckReport.warnings_append]
    refine List.Perm.append ?_ (ihdeps name ancestors)
    -- An entry is cut off or visited depending on its type name only.
    split
    · exact .nil
    · exact ihp _ _
  case swap =>
    rintro ⟨t, p⟩ ⟨u, q⟩ deps name ancestors
    simp only [visitDeps, CheckReport.warnings_append]
    exact List.perm_append_comm_assoc ..
  case trans =>
    intro deps between deps' _ _ ih ih' name ancestors
    exact (ih name ancestors).trans (ih' name ancestors)

end Check

open Check

variable {s : Sanitizer} {name : String} {p q : Project}

/-- A project in another order is accepted too. -/
theorem isOk_of_rearranged (hkeys : p.Keyed) (h : Rearranged p q)
    (hok : (checkProject s name p).isOk = true) : (checkProject s name q).isOk = true := by
  rw [isOk_iff_errors, errors_checkProject, List.append_eq_nil_iff] at hok ⊢
  exact ⟨hok.1, errors_visit_eq_nil_of_rearranged List.nodup_nil h hkeys hok.2⟩

/-- Two projects that differ in the order of blocks, wires and dependencies only, at any depth, are
either both accepted by the checks or both refused. In both cases they get the same warnings, in
some order. -/
theorem checkProject_ignores_order (hkeys : p.Keyed) (h : Rearranged p q) :
    ((checkProject s name p).isOk = true ↔ (checkProject s name q).isOk = true) ∧
      (checkProject s name p).warnings.Perm (checkProject s name q).warnings := by
  refine ⟨⟨isOk_of_rearranged hkeys h, isOk_of_rearranged (h.keyed hkeys) h.symm⟩, ?_⟩
  rw [warnings_checkProject, warnings_checkProject]
  exact warnings_visit_perm name [] h

/-- Two blocks that no wire touches, and below them a circuit that has dependencies of its own. -/
def Project.stand : Project where
  graph := { blocks := [.compound "lid" "cover", .output "end", .compound "box" "case"] }
  deps := [("cover", {}), ("case", { deps := [("lock", .latch), ("hinge", {})] })]

/-- The same with everything the other way round. -/
def Project.turnedStand : Project where
  graph := { blocks := [.compound "box" "case", .output "end", .compound "lid" "cover"] }
  deps := [("case", { deps := [("hinge", {}),
    ("lock", .ofGraph ⟨Project.latch.graph.blocks.reverse, Project.latch.graph.wires.reverse⟩)] }),
    ("cover", {})]

theorem Project.rearranged_stand : Rearranged .stand .turnedStand := by
  have hlatch : Rearranged .latch
      (.ofGraph ⟨Project.latch.graph.blocks.reverse, Project.latch.graph.wires.reverse⟩) :=
    .mk (List.reverse_perm _).symm (List.reverse_perm _).symm .nil
  have hcase : RearrangedDeps [("lock", .latch), ("hinge", {})] _ :=
    .trans .swap (.cons (.refl {}) (.cons hlatch .nil))
  exact .mk (by decide) .nil (.trans .swap (.cons (.mk .nil .nil hcase) (.cons (.refl {}) .nil)))

/-- Both are accepted, with a warning about each of the two blocks. -/
theorem checkProject_of_turned_stand :
    Project.stand.Keyed ∧ Rearranged .stand .turnedStand ∧
      (checkProject .sha1 "main" .stand).isOk = true ∧
      (checkProject .sha1 "main" .turnedStand).isOk = true ∧
        (checkProject .sha1 "main" .stand).warnings =
            [unconnectedWarning "main" (.compound "lid" "cover"),
              unconnectedWarning "main" (.compound "box" "case")] ∧
          (checkProject .sha1 "main" .stand).warnings.Perm
            (checkProject .sha1 "main" .turnedStand).warnings := by
  have hkeys : Project.stand.Keyed := by decide
  have hok : (checkProject .sha1 "main" .stand).isOk = true := by decide
  obtain ⟨hiff, hwarnings⟩ := checkProject_ignores_order hkeys Project.rearranged_stand
  exact ⟨hkeys, Project.rearranged_stand, hok, hiff.1 hok, rfl, hwarnings⟩

end BlockCircuit
