import BlockCircuit.Compilation
import BlockCircuit.Proofs.Project.Tree

/-!
# Pins and logic

A project says two things at once: which circuits there are, and which pins of the device the ports
of the outermost circuit have. The modules are about the first, the pin constraints about the second,
and neither looks at what the other is about.

* `Project.unpinned` — a project without its pins, at any depth;
* `checkProject_unpinned`, `compileCircuit_unpinned` — checks and modules are the same without pins;
* `Graph.pinning` — what the ports of a circuit say about pins, direction and pin names apart;
* `Pins.constraints_eq` — the pin constraints in terms of this alone;
* `pins_do_not_interfere` — both for any two projects.
-/

namespace BlockCircuit

variable {s : Sanitizer}

/-! ## Without pins -/

/-- A kind of block without the pin. -/
def BlockKind.unpinned : BlockKind → BlockKind
  | .input _ => .input none
  | .output _ => .output none
  | kind => kind

/-- A block without its pin. -/
def Block.unpinned (b : Block) : Block := { b with kind := b.kind.unpinned }

/-- A circuit without the pins of its ports. -/
def Graph.unpinned (g : Graph) : Graph := { g with blocks := g.blocks.map Block.unpinned }

namespace Project

mutual

/-- A project without pins, neither of its own ports nor of those below it. -/
def unpinned : Project → Project
  | ⟨g, deps⟩ => ⟨g.unpinned, unpinnedDeps deps⟩
termination_by structural p => p

/-- Dependencies without pins. -/
def unpinnedDeps : List (String × Project) → List (String × Project)
  | [] => []
  | (typeName, dep) :: deps => (typeName, unpinned dep) :: unpinnedDeps deps
termination_by structural deps => deps

end

/-- The definition of a type is the same but for its pins. -/
theorem lookup_unpinnedDeps (t : String) (deps : List (String × Project)) :
    (unpinnedDeps deps).lookup t = (deps.lookup t).map unpinned := by
  induction deps with
  | nil => rfl
  | cons entry deps ih =>
    obtain ⟨u, dep⟩ := entry
    rw [unpinnedDeps, lookup_cons_eq, lookup_cons_eq, ih]
    split <;> rfl

end Project

/-! ## Checks without pins -/

@[simp] theorem BlockKind.isCode_unpinned (kind : BlockKind) :
    kind.unpinned.isCode = kind.isCode := by
  cases kind <;> rfl

@[simp] theorem BlockKind.typeName_unpinned (kind : BlockKind) :
    kind.unpinned.typeName = kind.typeName := by
  cases kind <;> rfl

@[simp] theorem Block.id_unpinned (b : Block) : b.unpinned.id = b.id := rfl

@[simp] theorem Block.isPort_unpinned (b : Block) : b.unpinned.isPort = b.isPort := by
  obtain ⟨id, kind⟩ := b
  cases kind <;> rfl

theorem Graph.instanceBlocks_unpinned (g : Graph) :
    g.unpinned.instanceBlocks = g.instanceBlocks.map Block.unpinned := by
  simp [Graph.instanceBlocks, Graph.unpinned, List.filter_map, Function.comp_def]

/-- What is gathered from blocks without looking at their pins is the same without them. -/
theorem Graph.filterMap_unpinned {α : Type} {f f' : Block → Option α}
    (hf : ∀ b : Block, f b.unpinned = f' b) (g : Graph) :
    g.unpinned.blocks.filterMap f = g.blocks.filterMap f' := by
  show (g.blocks.map Block.unpinned).filterMap f = g.blocks.filterMap f'
  rw [List.filterMap_map]
  exact congrArg (List.filterMap · g.blocks) (funext hf)

/-- The ports of a circuit do not depend on pins. -/
theorem Graph.ports_unpinned (g : Graph) : g.unpinned.ports s = g.ports s := by
  have hinput : ∀ b : Block, b.unpinned.inputPort? s = b.inputPort? s := by
    rintro ⟨id, kind⟩
    cases kind <;> rfl
  have houtput : ∀ b : Block, b.unpinned.outputPort? s = b.outputPort? s := by
    rintro ⟨id, kind⟩
    cases kind <;> rfl
  rw [Graph.ports, Graph.ports, Graph.filterMap_unpinned hinput, Graph.filterMap_unpinned houtput]

theorem Graph.block?_unpinned (g : Graph) (id : String) :
    g.unpinned.block? id = (g.block? id).map Block.unpinned := by
  simp [Graph.block?, Graph.unpinned, List.find?_map, Function.comp_def]

namespace Check

variable {deps : List (String × Project)} {g : Graph} {circuit : String}

theorem portsOf?_unpinned (kind : BlockKind) :
    portsOf? s (Project.unpinnedDeps deps) kind.unpinned = portsOf? s deps kind := by
  cases kind with
  | input pin | output pin | code ports text => rfl
  | compound t =>
    show ((Project.unpinnedDeps deps).lookup t).map _ = (deps.lookup t).map _
    rw [Project.lookup_unpinnedDeps, Option.map_map]
    refine congrArg (Option.map · (deps.lookup t)) (funext fun dep => ?_)
    obtain ⟨g, below⟩ := dep
    exact g.ports_unpinned

theorem portProblem?_unpinned (b : Block) (port : String) (side : Side) :
    portProblem? s (Project.unpinnedDeps deps) b.unpinned port side =
      portProblem? s deps b port side := by
  have hports : portsOf? s (Project.unpinnedDeps deps) b.kind.unpinned = portsOf? s deps b.kind :=
    portsOf?_unpinned b.kind
  obtain ⟨id, kind⟩ := b
  cases kind with
  | input pin | output pin => cases side <;> rfl
  | code ports text | compound t =>
    simp only [portProblem?, Block.unpinned, BlockKind.unpinned] at hports ⊢
    rw [hports]

theorem endProblem?_unpinned (e : Endpoint) (side : Side) :
    endProblem? s (Project.unpinnedDeps deps) g.unpinned e side = endProblem? s deps g e side := by
  rw [endProblem?, endProblem?, Graph.block?_unpinned]
  cases g.block? e.block with
  | none => rfl
  | some b => exact portProblem?_unpinned b e.port side

theorem typeError?_unpinned (b : Block) :
    typeError? circuit (Project.unpinnedDeps deps) b.unpinned = typeError? circuit deps b := by
  obtain ⟨id, kind⟩ := b
  cases kind with
  | input pin | output pin | code ports text => rfl
  | compound t =>
    simp only [typeError?, Block.unpinned, BlockKind.unpinned, Project.lookup_unpinnedDeps,
      Option.isSome_map]

/-- The findings about one circuit do not depend on pins. -/
theorem graphReport_unpinned :
    graphReport s circuit (Project.unpinnedDeps deps) g.unpinned = graphReport s circuit deps g := by
  have hids : g.unpinned.blocks.map (·.id) = g.blocks.map (·.id) := by
    simp [Graph.unpinned, Function.comp_def]
  have htypes : g.unpinned.blocks.filterMap (typeError? circuit (Project.unpinnedDeps deps)) =
      g.blocks.filterMap (typeError? circuit deps) :=
    Graph.filterMap_unpinned typeError?_unpinned g
  have hcode : codeErrors s circuit g.unpinned = codeErrors s circuit g := by
    simp [codeErrors, Graph.unpinned, List.filter_map, Function.comp_def, Block.unpinned]
  have hwires : ∀ w number, wireErrors s circuit (Project.unpinnedDeps deps) g.unpinned w number =
      wireErrors s circuit deps g w number := by
    intro w number
    rw [wireErrors, wireErrors, endProblem?_unpinned, endProblem?_unpinned]
  have hwarnings : (g.unpinned.instanceBlocks.filter fun b => !g.unpinned.isConnected b.id).map
      (unconnectedWarning circuit) =
        (g.instanceBlocks.filter fun b => !g.isConnected b.id).map (unconnectedWarning circuit) := by
    rw [Graph.instanceBlocks_unpinned, List.filter_map, List.map_map]
    rfl
  rw [graphReport, graphReport, hids, htypes, hcode, hwarnings]
  simp only [hwires]
  rfl

/-- The findings about a tree do not depend on pins. -/
theorem visit_unpinned (name : String) (ancestors : List String) (p : Project) :
    visit s name ancestors p.unpinned = visit s name ancestors p := by
  refine @Project.induction
    (fun p => ∀ name ancestors, visit s name ancestors p.unpinned = visit s name ancestors p)
    (fun deps => ∀ name ancestors,
      visitDeps s name ancestors (Project.unpinnedDeps deps) = visitDeps s name ancestors deps)
    ?project ?nil ?cons p name ancestors
  case project =>
    intro g deps ih name ancestors
    rw [Project.unpinned, visit, visit, ih, graphReport_unpinned]
  case nil =>
    intro name ancestors
    rfl
  case cons =>
    intro t dep deps ihdep ihdeps name ancestors
    rw [Project.unpinnedDeps, visitDeps, visitDeps, ihdep, ihdeps]

end Check

/-- The checks find the same without pins. -/
theorem checkProject_unpinned (name : String) (p : Project) :
    checkProject s name p.unpinned = checkProject s name p := by
  rw [checkProject, checkProject, Check.visit_unpinned]

/-! ## Modules without pins -/

namespace Verilog

theorem assignment?_unpinned (w : Wire) (net : Nat) (b : Block) :
    assignment? s w net b.unpinned = assignment? s w net b := by
  obtain ⟨id, kind⟩ := b
  cases kind <;> rfl

theorem bodyOf_unpinned (circuit : String) (g : Graph) :
    bodyOf s circuit g.unpinned = bodyOf s circuit g := by
  have hassignments : ∀ w net, g.unpinned.blocks.filterMap (assignment? s w net) =
      g.blocks.filterMap (assignment? s w net) :=
    fun w net => Graph.filterMap_unpinned (assignment?_unpinned w net) g
  have hinstances : g.unpinned.instanceBlocks.map (instanceOf s circuit g.wires) =
      g.instanceBlocks.map (instanceOf s circuit g.wires) := by
    rw [Graph.instanceBlocks_unpinned, List.map_map]
    refine List.map_congr_left fun b _ => ?_
    simp [instanceOf, Block.unpinned, Block.typeName]
  simp only [bodyOf, hassignments]
  exact congrArg (Body.mk _ _) hinstances

theorem graphModules_unpinned (name : String) (g : Graph) :
    graphModules s name g.unpinned = graphModules s name g := by
  have hcode : ∀ b : Block, codeModule? s name b.unpinned = codeModule? s name b := by
    rintro ⟨id, kind⟩
    cases kind <;> rfl
  have hblocks : g.unpinned.blocks.filterMap (codeModule? s name) =
      g.blocks.filterMap (codeModule? s name) := Graph.filterMap_unpinned hcode g
  rw [graphModules, graphModules, hblocks, circuitModule, circuitModule, Graph.ports_unpinned,
    bodyOf_unpinned]

theorem graphEvents_unpinned (name : String) (g : Graph) :
    graphEvents s name g.unpinned = graphEvents s name g := by
  have hcode : ∀ b : Block, codeEvent? s name b.unpinned = codeEvent? s name b := by
    rintro ⟨id, kind⟩
    cases kind <;> rfl
  have hblocks : g.unpinned.blocks.filterMap (codeEvent? s name) =
      g.blocks.filterMap (codeEvent? s name) := Graph.filterMap_unpinned hcode g
  have hbody : bodyEvents s name g.unpinned = bodyEvents s name g := by
    rw [bodyEvents, bodyEvents, Graph.instanceBlocks_unpinned, List.filterMap_map]
    rfl
  have hlength : g.unpinned.blocks.length = g.blocks.length := List.length_map Block.unpinned
  rw [graphEvents, graphEvents, hblocks, hbody, hlength]
  rfl

/-- Emission of a tree yields the same without pins: the same modules or error, and events. -/
theorem emit_unpinned (name : String) (ancestors : List String) (p : Project) :
    emit s name ancestors p.unpinned = emit s name ancestors p := by
  refine @Project.induction
    (fun p => ∀ name ancestors, emit s name ancestors p.unpinned = emit s name ancestors p)
    (fun deps => ∀ name ancestors,
      emitDeps s name ancestors (Project.unpinnedDeps deps) = emitDeps s name ancestors deps)
    ?project ?nil ?cons p name ancestors
  case project =>
    intro g deps ih name ancestors
    rw [Project.unpinned, emit, emit, ih, graphEvents_unpinned, graphModules_unpinned]
  case nil =>
    intro name ancestors
    rfl
  case cons =>
    intro t dep deps ihdep ihdeps name ancestors
    rw [Project.unpinnedDeps, emitDeps, emitDeps, ihdep, ihdeps]

end Verilog

/-- A project compiles to the same without pins: the same text or error, and the same events. -/
theorem compileCircuit_unpinned (strict : Bool) (name : String) (p : Project) :
    compileCircuit s strict name p.unpinned = compileCircuit s strict name p := by
  have hprecheck : precheck s strict name p.unpinned = precheck s strict name p := by
    rw [precheck, precheck, checkProject_unpinned]
  have hemit : emitCircuit s name p.unpinned = emitCircuit s name p := by
    rw [emitCircuit, emitCircuit, Verilog.emit_unpinned]
  rw [compileCircuit, compileCircuit, hprecheck, hemit]

/-! ## Only pins -/

/-- The ids of the ports of a circuit with the pins that they have, in block order. -/
def Graph.pinning (g : Graph) : List (String × Option String) :=
  (g.blocks.filter Block.isPort).map fun b => (b.id, b.pin?.map (·.value))

/-- The constraint of a port with this id and pin. -/
def Pins.constraintOf (s : Sanitizer) : String × Option String → Except CompileError PinConstraint
  | (id, some pin) => .ok ⟨s.ident id, pin⟩
  | (id, none) => .error (.missingPin id)

/-- The pin constraints come from the ids of ports and their pins alone. -/
theorem Pins.constraints_eq (g : Graph) :
    Pins.constraints s g = g.pinning.mapM (Pins.constraintOf s) := by
  have hconstraint : Pins.constraint s =
      fun b => Pins.constraintOf s (b.id, b.pin?.map (·.value)) := by
    funext b
    rw [Pins.constraint]
    cases b.pin? <;> rfl
  rw [Pins.constraints, Graph.pinning, List.mapM_map, hconstraint]
  rfl

/-- What the checks find and what a project compiles to, with all events, is the same for any two
projects that differ in pins only. The pin constraints are the same for any two projects whose
outermost ports have the same ids and pins, in the same order. -/
theorem pins_do_not_interfere (s : Sanitizer) (p q : Project) :
    (p.unpinned = q.unpinned → ∀ strict name,
      checkProject s name p = checkProject s name q ∧
        compileCircuit s strict name p = compileCircuit s strict name q) ∧
      (p.graph.pinning = q.graph.pinning → compilePins s p = compilePins s q) := by
  constructor
  · intro hpins strict name
    constructor
    · rw [← checkProject_unpinned name p, hpins, checkProject_unpinned]
    · rw [← compileCircuit_unpinned strict name p, hpins, compileCircuit_unpinned]
  · intro hpinning
    have hconstraints : Pins.constraints s p.graph = Pins.constraints s q.graph := by
      rw [Pins.constraints_eq, hpinning, Pins.constraints_eq]
    rw [compilePins, compilePins, hconstraints]

/-- The small tree with pins, also at the ports of the inner circuit. -/
def Project.pinnedAlarm : Project where
  graph := { alarm.graph with blocks := alarm.graph.blocks.map (·.withPin "7") }
  deps := [("latch", .ofGraph
    { latch.graph with blocks := latch.graph.blocks.map (·.withPin "9") })]

/-- Ports with the same pins in another circuit, where they have other directions. -/
def Project.panel : Project := .ofGraph {
  blocks := [.compound "spare" "lamp", ⟨"sensor", .output (some ⟨some "A1", "7"⟩)⟩,
    ⟨"light", .input (some ⟨none, "7"⟩)⟩, ⟨"bell", .input (some ⟨some "B2", "7"⟩)⟩] }

/-- With and without pins, the small tree compiles to the same text; its pin constraints are those of
the other circuit. -/
theorem pins_do_not_interfere_alarm :
    Project.pinnedAlarm.unpinned = Project.alarm.unpinned ∧
      checkProject .sha1 "main" .pinnedAlarm = checkProject .sha1 "main" .alarm ∧
      compileCircuit .sha1 true "main" .pinnedAlarm = compileCircuit .sha1 true "main" .alarm ∧
      Project.pinnedAlarm.graph.pinning = Project.panel.graph.pinning ∧
      compilePins .sha1 .pinnedAlarm = compilePins .sha1 .panel ∧
      (compilePins .sha1 .panel).result =
        .ok "set_io sensor 7\nset_io light 7\nset_io bell 7\n" ∧
      (compilePins .sha1 .alarm).result = .error (.missingPin "sensor") := by
  have hpins : Project.pinnedAlarm.unpinned = Project.alarm.unpinned := rfl
  have hpinning : Project.pinnedAlarm.graph.pinning = Project.panel.graph.pinning := rfl
  obtain ⟨hcheck, hcompile⟩ :=
    (pins_do_not_interfere .sha1 .pinnedAlarm .alarm).1 hpins true "main"
  have hconstraints := (pins_do_not_interfere .sha1 .pinnedAlarm .panel).2 hpinning
  exact ⟨hpins, hcheck, hcompile, hpinning, hconstraints, rfl, rfl⟩

end BlockCircuit
