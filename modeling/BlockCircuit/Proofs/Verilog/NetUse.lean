import BlockCircuit.Proofs.Check.WellFormed
import BlockCircuit.Proofs.Project.ModuleName
import BlockCircuit.Verilog.Body
import Mathlib.Data.List.Perm.Basic

/-!
# Where the nets of a body are used

A wire has two ends, and the net of a wire is used in two places: one for each end. An end at a port
of the circuit is an assignment, and an end at any other block is a binding of the instance of that
block. The body is built by looking through all blocks for each end, so this depends on what the
checks say: that exactly one block has the id, and that it is a block of the right kind.

* `Body.uses` — the places where a body uses a net;
* `uses_perm` — for any graph, these are what the two ends of the wire come to;
* `endUses_eq_singleton` — in a well-formed circuit, an end comes to one place;
* `uses_of_isOk` — in an accepted project, each net of each circuit is declared once and used twice.
-/

namespace BlockCircuit.Verilog

open Check (Side EndFits eq_of_id_eq)

variable {s : Sanitizer} {g : Graph} {net : Nat}

/-! ## Uses -/

/-- A place where a body uses a net. -/
inductive Use where
  /-- An assignment. -/
  | assignment (a : Assignment)
  /-- A binding of the instance with the number `place`. -/
  | binding (place : Nat) (b : Binding)
deriving DecidableEq, Repr

/-- The places where a body uses a net. -/
def Body.uses (b : Body) (net : Nat) : List Use :=
  (b.assignments.filter (·.net = net)).map .assignment ++
    b.instances.zipIdx.flatMap fun (i, place) =>
      (i.bindings.filter (·.net = net)).map (.binding place)

/-- A use of a net is the one that an end of its wire asks for. The instances of a body are those of
the instance blocks, in order. -/
inductive UseOfEnd (s : Sanitizer) (g : Graph) (net : Nat) (e : Endpoint) : Side → Use → Prop
  /-- The end is the source, at an input block: the port drives the net. -/
  | drive {pin : Option Pin} : ⟨e.block, .input pin⟩ ∈ g.blocks →
      UseOfEnd s g net e .source (.assignment (.drive net (s.ident e.block)))
  /-- The end is the target, at an output block: the net drives the port. -/
  | expose {pin : Option Pin} : ⟨e.block, .output pin⟩ ∈ g.blocks →
      UseOfEnd s g net e .target (.assignment (.expose (s.ident e.block) net))
  /-- The end is at any other block: its instance binds a port to the net. -/
  | bind {side : Side} {place : Nat} {kind : BlockKind} :
      g.instanceBlocks[place]? = some ⟨e.block, kind⟩ →
      UseOfEnd s g net e side (.binding place ⟨s.ident e.port, net⟩)

/-! ## One element of a list -/

section
variable {α β κ : Type}

/-- Only one element of the list contributes. -/
theorem flatMap_eq_of_unique {l : List α} {key : α → κ} {f : α → List β} {x : α}
    (hnd : (l.map key).Nodup) (hx : x ∈ l) (hf : ∀ y ∈ l, key y ≠ key x → f y = []) :
    l.flatMap f = f x := by
  induction l with
  | nil => exact absurd hx List.not_mem_nil
  | cons y l ih =>
    rw [List.map_cons, List.nodup_cons] at hnd
    rw [List.flatMap_cons]
    rcases List.mem_cons.1 hx with rfl | hxl
    · have hrest : l.flatMap f = [] := by
        rw [List.flatMap_eq_nil_iff]
        intro z hz
        refine hf z (List.mem_cons_of_mem x hz) fun hkey => hnd.1 ?_
        exact hkey ▸ List.mem_map_of_mem hz
      rw [hrest, List.append_nil]
    · have hy : f y = [] := by
        refine hf y List.mem_cons_self fun hkey => hnd.1 ?_
        exact hkey ▸ List.mem_map_of_mem hxl
      rw [hy, List.nil_append]
      exact ih hnd.2 hxl fun z hz => hf z (List.mem_cons_of_mem y hz)

theorem nodup_places (l : List α) : (l.zipIdx.map Prod.snd).Nodup := by
  rw [List.zipIdx_map_snd]
  exact List.nodup_range'

/-- What is tagged with a place comes from the element at that place. -/
theorem filter_flatMap_zipIdx {l : List α} {f : α × Nat → List β} {tag : β → Nat} {x : α} {i : Nat}
    (hf : ∀ entry, ∀ b ∈ f entry, tag b = entry.2) (hx : l[i]? = some x) :
    (l.zipIdx.flatMap f).filter (fun b => tag b = i) = f (x, i) := by
  rw [List.filter_flatMap,
    flatMap_eq_of_unique (nodup_places l) (List.mk_mem_zipIdx_iff_getElem?.2 hx) ?other]
  · rw [List.filter_eq_self]
    intro b hb
    exact decide_eq_true (hf (x, i) b hb)
  case other =>
    intro entry _ hentry
    rw [List.filter_eq_nil_iff]
    intro b hb
    rw [hf entry b hb]
    simpa using hentry

end

/-! ## The uses of one wire -/

theorem net_of_mem_assignments {w : Wire} {a : Assignment}
    (ha : a ∈ g.blocks.filterMap (assignment? s w net)) : a.net = net := by
  obtain ⟨⟨id, kind⟩, -, hb⟩ := List.mem_filterMap.1 ha
  cases kind with
  | input pin | output pin =>
    simp only [assignment?] at hb
    split at hb
    · cases hb
      rfl
    · cases hb
  | code ports text | compound t => cases hb

theorem net_of_mem_endBindings {id : String} {w : Wire} {b : Binding}
    (hb : b ∈ endBindings s id w net) : b.net = net := by
  rw [endBindings] at hb
  rcases List.mem_append.1 hb with hb | hb
  · split at hb
    · rw [List.mem_singleton.1 hb]
    · cases hb
  · split at hb
    · rw [List.mem_singleton.1 hb]
    · cases hb

/-- The assignment that an end of a wire makes at a port of the circuit. -/
def portUses (s : Sanitizer) (net : Nat) (e : Endpoint) (side : Side) (b : Block) : List Use :=
  match side, b.kind with
  | .source, .input _ => if e.block = b.id then [.assignment (.drive net (s.ident b.id))] else []
  | .target, .output _ => if e.block = b.id then [.assignment (.expose (s.ident b.id) net)] else []
  | _, _ => []

/-- The binding that an end of a wire makes at an instance. -/
def instanceUses (s : Sanitizer) (net : Nat) (e : Endpoint) (entry : Block × Nat) : List Use :=
  if e.block = entry.1.id then [.binding entry.2 ⟨s.ident e.port, net⟩] else []

/-- Everything that an end of a wire makes. -/
def endUses (s : Sanitizer) (g : Graph) (net : Nat) (e : Endpoint) (side : Side) : List Use :=
  g.blocks.flatMap (portUses s net e side) ++ g.instanceBlocks.zipIdx.flatMap (instanceUses s net e)

theorem map_assignment?_eq (w : Wire) (b : Block) :
    (assignment? s w net b).toList.map Use.assignment =
      portUses s net w.source .source b ++ portUses s net w.target .target b := by
  obtain ⟨id, kind⟩ := b
  cases kind with
  | input pin =>
    simp only [assignment?, portUses, List.append_nil]
    split <;> rfl
  | output pin =>
    simp only [assignment?, portUses, List.nil_append]
    split <;> rfl
  | code ports text | compound t => rfl

theorem map_endBindings_eq (w : Wire) (entry : Block × Nat) :
    (endBindings s entry.1.id w net).map (Use.binding entry.2) =
      instanceUses s net w.source entry ++ instanceUses s net w.target entry := by
  rw [endBindings, List.map_append, instanceUses, instanceUses]
  split <;> split <;> rfl

/-- The assignments that use a net. -/
theorem filter_assignments {circuit : String} {w : Wire} (hw : g.wires[net]? = some w) :
    (bodyOf s circuit g).assignments.filter (·.net = net) =
      g.blocks.filterMap (assignment? s w net) :=
  filter_flatMap_zipIdx (fun _ _ ha => net_of_mem_assignments ha) hw

/-- The bindings of an instance that use a net. -/
theorem filter_bindings {id : String} {w : Wire} (hw : g.wires[net]? = some w) :
    (bindings s g.wires id).filter (·.net = net) = endBindings s id w net :=
  filter_flatMap_zipIdx (fun _ _ hb => net_of_mem_endBindings hb) hw

/-- The uses of a net are those that the two ends of its wire make, in some order. -/
theorem uses_perm (circuit : String) {w : Wire} (hw : g.wires[net]? = some w) :
    ((bodyOf s circuit g).uses net).Perm
      (endUses s g net w.source .source ++ endUses s g net w.target .target) := by
  have hports : ((bodyOf s circuit g).assignments.filter (·.net = net)).map Use.assignment =
      g.blocks.flatMap fun b =>
        portUses s net w.source .source b ++ portUses s net w.target .target b := by
    rw [filter_assignments hw, List.filterMap_eq_flatMap_toList, List.map_flatMap]
    simp only [map_assignment?_eq]
  have hinstances : ((bodyOf s circuit g).instances.zipIdx.flatMap fun (i, place) =>
      (i.bindings.filter (·.net = net)).map (Use.binding place)) =
      g.instanceBlocks.zipIdx.flatMap fun entry =>
        instanceUses s net w.source entry ++ instanceUses s net w.target entry := by
    simp only [bodyOf, List.zipIdx_map, List.flatMap_map, Prod.map, instanceOf, id_eq,
      filter_bindings hw, map_endBindings_eq]
  rw [Body.uses, hports, hinstances]
  refine ((List.flatMap_append_perm _ _ _).symm.append
    (List.flatMap_append_perm _ _ _).symm).trans ?_
  rw [endUses, endUses, List.append_assoc, List.append_assoc]
  exact (List.perm_append_comm_assoc _ _ _).append_left _

/-! ## Ends in well-formed circuits -/

theorem portUses_eq_nil {e : Endpoint} {side : Side} {b : Block} (h : b.id ≠ e.block) :
    portUses s net e side b = [] := by
  obtain ⟨id, kind⟩ := b
  have hne : ¬e.block = id := fun hid => h hid.symm
  cases side <;> cases kind <;> simp [portUses, hne]

section
variable (hids : (g.blocks.map (·.id)).Nodup)
include hids

/-- An end at a port makes only what it makes there. -/
theorem endUses_of_isPort {e : Endpoint} {side : Side} {kind : BlockKind}
    (hb : ⟨e.block, kind⟩ ∈ g.blocks) (hkind : kind.isPort = true) :
    endUses s g net e side = portUses s net e side ⟨e.block, kind⟩ := by
  have hports : g.blocks.flatMap (portUses s net e side) =
      portUses s net e side ⟨e.block, kind⟩ :=
    flatMap_eq_of_unique hids hb fun c _ hc => portUses_eq_nil hc
  have hinstances : g.instanceBlocks.zipIdx.flatMap (instanceUses s net e) = [] := by
    rw [List.flatMap_eq_nil_iff]
    intro entry hentry
    obtain ⟨hc, hport⟩ := Graph.mem_instanceBlocks_iff.1 (List.fst_mem_of_mem_zipIdx hentry)
    rw [instanceUses, if_neg]
    intro hid
    rw [← eq_of_id_eq hids hb hc hid] at hport
    exact Bool.false_ne_true (hport.symm.trans hkind)
  rw [endUses, hports, hinstances, List.append_nil]

/-- An end at any other block makes one binding of its instance. -/
theorem endUses_of_instance (s : Sanitizer) (net : Nat) {e : Endpoint} (side : Side)
    {kind : BlockKind} (hb : ⟨e.block, kind⟩ ∈ g.blocks) (hkind : kind.isPort = false) :
    ∃ place, g.instanceBlocks[place]? = some ⟨e.block, kind⟩ ∧
      endUses s g net e side = [.binding place ⟨s.ident e.port, net⟩] := by
  obtain ⟨place, hplace⟩ := List.mem_iff_getElem?.1 (Graph.mem_instanceBlocks_iff.2 ⟨hb, hkind⟩)
  refine ⟨place, hplace, ?_⟩
  have hports : g.blocks.flatMap (portUses s net e side) = [] := by
    rw [List.flatMap_eq_nil_iff]
    intro c hc
    by_cases hid : c.id = e.block
    · rw [eq_of_id_eq hids hc hb hid]
      cases kind with
      | input pin | output pin => cases hkind
      | code ports text | compound t => cases side <;> rfl
    · exact portUses_eq_nil hid
  have hnd : (g.instanceBlocks.zipIdx.map fun entry => entry.1.id).Nodup := by
    have hmap : (g.instanceBlocks.zipIdx.map fun entry => entry.1.id) =
        g.instanceBlocks.map (·.id) := by
      rw [← Function.comp_def Block.id Prod.fst, ← List.map_map, List.zipIdx_map_fst]
    rw [hmap]
    exact hids.sublist (List.filter_sublist.map _)
  have hinstances : g.instanceBlocks.zipIdx.flatMap (instanceUses s net e) =
      instanceUses s net e (⟨e.block, kind⟩, place) := by
    refine flatMap_eq_of_unique hnd (List.mk_mem_zipIdx_iff_getElem?.2 hplace) ?_
    intro entry _ hentry
    rw [instanceUses, if_neg fun hid => hentry hid.symm]
  rw [endUses, hports, hinstances, instanceUses, if_pos rfl]
  rfl

end

/-- In a well-formed circuit, an end of a wire makes one use of the net. -/
theorem endUses_eq_singleton (net : Nat) {p : Project} {e : Endpoint} {side : Side}
    (hids : (p.graph.blocks.map (·.id)).Nodup) (hend : EndFits s p e side) :
    ∃ use, UseOfEnd s p.graph net e side use ∧ endUses s p.graph net e side = [use] := by
  obtain ⟨⟨id, kind⟩, hb, hid, hfits⟩ := hend
  cases hid
  have hinstance : kind.isPort = false →
      ∃ use, UseOfEnd s p.graph net e side use ∧ endUses s p.graph net e side = [use] := by
    intro hkind
    obtain ⟨place, hplace, huses⟩ := endUses_of_instance hids s net side hb hkind
    exact ⟨_, .bind hplace, huses⟩
  cases hfits with
  | input =>
    refine ⟨_, .drive hb, ?_⟩
    rw [endUses_of_isPort hids hb rfl]
    exact if_pos rfl
  | output =>
    refine ⟨_, .expose hb, ?_⟩
    rw [endUses_of_isPort hids hb rfl]
    exact if_pos rfl
  | codeOutput | codeInput => exact hinstance rfl
  | compoundOutput | compoundInput => exact hinstance rfl

/-! ## Accepted projects -/

/-- In every circuit of an accepted project, the net of a wire is declared once and used in two
places: one for the source of the wire and one for its target. -/
theorem uses_of_isOk {top : String} {p q : Project} {path : List String} {w : Wire}
    (hok : (checkProject s top p).isOk = true) (hq : p.Reaches path q)
    (hw : q.graph.wires[net]? = some w) :
    let body := bodyOf s (moduleName s top path) q.graph
    body.nets.count net = 1 ∧
      ∃ fromSource fromTarget,
        UseOfEnd s q.graph net w.source .source fromSource ∧
          UseOfEnd s q.graph net w.target .target fromTarget ∧
            (body.uses net).Perm [fromSource, fromTarget] := by
  have hwf := Check.wellFormed_of_isOk hok hq
  have hmem : w ∈ q.graph.wires := List.mem_of_getElem? hw
  obtain ⟨fromSource, hsource, hsourceUses⟩ :=
    endUses_eq_singleton net hwf.ids (hwf.sources w hmem)
  obtain ⟨fromTarget, htarget, htargetUses⟩ :=
    endUses_eq_singleton net hwf.ids (hwf.targets w hmem)
  refine ⟨?_, fromSource, fromTarget, hsource, htarget, ?_⟩
  · have hlt : net < q.graph.wires.length := (List.getElem?_eq_some_iff.1 hw).1
    exact List.count_eq_one_of_mem List.nodup_range (List.mem_range.2 hlt)
  · have hperm := uses_perm (s := s) (moduleName s top path) hw
    rwa [hsourceUses, htargetUses] at hperm

/-- Both ends of a wire from a code block to itself. -/
theorem uses_latch :
    let body := bodyOf .sha1 (moduleName .sha1 "main" ["latch"]) Project.latch.graph
    body.nets.count 1 = 1 ∧
      ∃ fromSource fromTarget,
        UseOfEnd .sha1 Project.latch.graph 1 ⟨"cell", "q"⟩ .source fromSource ∧
          UseOfEnd .sha1 Project.latch.graph 1 ⟨"cell", "b"⟩ .target fromTarget ∧
            (body.uses 1).Perm [fromSource, fromTarget] :=
  uses_of_isOk (p := Project.alarm) (w := ⟨⟨"cell", "q"⟩, ⟨"cell", "b"⟩⟩) (by decide)
    Project.reaches_latch rfl

end BlockCircuit.Verilog
