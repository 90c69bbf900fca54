import BlockCircuit.CommandLine.Run
import BlockCircuit.Proofs.File.Extension

/-!
# What comes of a run

A run that is to compile a project ends in one of five ways. Each of them settles the status, what is
printed, what is told, and the files; what a run does follows from the way in which it ends.

* `WritingFails`, `writingFails_iff` — when some files cannot be written one after another;
* `Ends`, `ends_runOn` — the ways in which a run ends;
* `LeftOver` — what a run leaves of the files that it could not write;
* `failed_run_leaves_files` — a run that fails prints nothing and leaves the files as they were, apart
  from such a rest; `failed_runs_change_files` are two runs with a rest.
-/

namespace BlockCircuit.CommandLine

open File (Tree)

/-! ## Writing files one after another -/

/-- When these files are written one after another, one of them cannot be written. -/
inductive WritingFails : Tree → List (String × String) → Prop
  | here {t t' : Tree} {path text : String} {files : List (String × String)} {fault : File.Fault} :
      t.write path text = (t', some fault) → WritingFails t ((path, text) :: files)
  | later {t t₁ : Tree} {path text : String} {files : List (String × String)} :
      t.write path text = (t₁, none) → WritingFails t₁ files →
        WritingFails t ((path, text) :: files)

section
variable {t t' t₁ : Tree} {path text : String} {files : List (String × String)}
  {fault : File.Fault} {stop : String × File.Fault}

theorem writeAll_of_written (h : t.write path text = (t₁, none)) :
    writeAll t ((path, text) :: files) =
      { writeAll t₁ files with paths := path :: (writeAll t₁ files).paths } := by
  rw [writeAll, h]

theorem writingFails_iff : WritingFails t files ↔ (writeAll t files).stop ≠ none := by
  fun_induction writeAll t files with
  | case1 t => exact iff_of_false nofun (not_not_intro rfl)
  | case2 t path text files t' fault hwrite => exact iff_of_true (.here hwrite) nofun
  | case3 t path text files t₁ hwrite w ih =>
    rw [← ih]
    constructor
    · intro h
      cases h with
      | here hwrite' => cases hwrite.symm.trans hwrite'
      | later hwrite' hfails =>
        cases hwrite.symm.trans hwrite'
        exact hfails
    · exact .later hwrite

/-- If no file of a list cannot be written, the first one can. -/
theorem exists_write_of_not_writingFails (h : ¬WritingFails t ((path, text) :: files)) :
    ∃ t₁, t.write path text = (t₁, none) := by
  cases hwrite : t.write path text with
  | mk t₁ fault? =>
    cases fault? with
    | some fault => exact absurd (.here hwrite) h
    | none => exact ⟨t₁, rfl⟩

/-- If nothing stops the writing, all files are written. -/
theorem paths_writeAll (h : (writeAll t files).stop = none) :
    (writeAll t files).paths = files.map Prod.fst := by
  fun_induction writeAll t files with
  | case1 => rfl
  | case2 => cases h
  | case3 t path text files t₁ hwrite w ih => exact congrArg (path :: ·) (ih h)

/-- Otherwise the files before the one that stops it are written. -/
theorem paths_writeAll_of_stop (h : (writeAll t files).stop = some stop) :
    ∃ rest, files.map Prod.fst = (writeAll t files).paths ++ stop.1 :: rest := by
  fun_induction writeAll t files with
  | case1 => cases h
  | case2 t path text files t' fault hwrite =>
    cases h
    exact ⟨files.map Prod.fst, rfl⟩
  | case3 t path text files t₁ hwrite w ih =>
    obtain ⟨rest, hrest⟩ := ih h
    exact ⟨rest, congrArg (path :: ·) hrest⟩

theorem wrote_of_write {stop : Option File.Fault} (h : t.write path text = (t', stop)) :
    Tree.Wrote t path text t' stop := by
  have hwrote := Tree.wrote_write t path text
  rwa [h] at hwrote

end

/-! ## What a run puts out -/

/-- The text of one stage. All stages together have no text. -/
inductive StageText (a : Artifacts) : Stage → String → Prop
  | verilog : StageText a .verilog a.verilog
  | pcf {pins : String} : a.pcf = some pins → StageText a .pcf pins
  | buildInfo : StageText a .buildInfo a.provenance.toJson

/-- The files of a stage: one with its text, or for all stages one with the Verilog text and one with
the pin constraints, which differ in their extension. -/
inductive StageFiles (a : Artifacts) (path : String) : Stage → List (String × String) → Prop
  | one {stage : Stage} {text : String} : StageText a stage text →
      StageFiles a path stage [(path, text)]
  | all {pins : String} : a.pcf = some pins →
      StageFiles a path .all
        [(File.withExtension path "v", a.verilog), (File.withExtension path "pcf", pins)]

section
variable {a : Artifacts} {path : String} {stage : Stage} {text text' : String}
  {files files' : List (String × String)}

theorem StageText.unique (h : StageText a stage text) (h' : StageText a stage text') :
    text = text' := by
  cases h with
  | pcf hpcf =>
    cases h' with
    | pcf hpcf' => exact Option.some.inj (hpcf.symm.trans hpcf')
  | _ => cases h'; rfl

theorem StageFiles.unique (h : StageFiles a path stage files) (h' : StageFiles a path stage files') :
    files = files' := by
  cases h with
  | one htext =>
    cases h' with
    | one htext' => rw [htext.unique htext']
    | all => cases htext
  | all hpcf =>
    cases h' with
    | one htext => cases htext
    | all hpcf' => rw [Option.some.inj (hpcf.symm.trans hpcf')]

end

/-- The stage asks for pin constraints, and there are none. -/
def PinsMissing (a : Artifacts) (stage : Stage) : Prop :=
  (stage = .pcf ∨ stage = .all) ∧ a.pcf = none

theorem StageText.not_pinsMissing {a : Artifacts} {stage : Stage} {text : String}
    (h : StageText a stage text) : ¬PinsMissing a stage := by
  rintro ⟨hstage, hnone⟩
  cases h with
  | pcf hpcf => cases hpcf.symm.trans hnone
  | _ => simp at hstage

theorem StageFiles.not_pinsMissing {a : Artifacts} {path : String} {stage : Stage}
    {files : List (String × String)} (h : StageFiles a path stage files) :
    ¬PinsMissing a stage := by
  cases h with
  | one htext => exact htext.not_pinsMissing
  | all hpcf => exact fun h => nomatch hpcf.symm.trans h.2

namespace Invocation

/-- What the library makes of the project of a run. -/
def compiled (i : Invocation) (t : Tree) : Logged Artifacts :=
  File.compileFile t i.project i.options

/-- The log of a run until its project is compiled. -/
def log (i : Invocation) (t : Tree) : List LogEntry :=
  i.opening ++ (i.compiled t).events.map LogEntry.compiling

/-- What a run tells until its project is compiled: the log, and then the warnings. -/
def told (i : Invocation) (t : Tree) (a : Artifacts) : List Remark :=
  (i.log t).map Remark.log ++ a.warnings.map Remark.warning

end Invocation

/-- The ways in which a run ends. -/
inductive Ends (i : Invocation) (t : Tree) : Course → Prop
  | lacksOutput : i.lacksOutput = true →
      Ends i t
        ⟨2, "", i.opening.map .log ++ [.error "error: --emit all requires --output <STEM>"], t⟩
  | failed {e : CompileError} : i.lacksOutput = false → (i.compiled t).result = .error e →
      Ends i t ⟨Invocation.statusOf e, "", (i.log t).map .log ++ [.error e.toDiagnostic.text], t⟩
  | lacksPins {a : Artifacts} : i.lacksOutput = false → (i.compiled t).result = .ok a →
      i.lacksPins a = true →
        Ends i t ⟨1, "", i.told t a ++ [.error "error: no pin constraints to emit"], t⟩
  | printed {a : Artifacts} {text : String} : (i.compiled t).result = .ok a → i.output = none →
      StageText a i.stage text → Ends i t ⟨0, text, i.told t a, t⟩
  | written {a : Artifacts} {path : String} {files : List (String × String)} :
      (i.compiled t).result = .ok a → i.output = some path → StageFiles a path i.stage files →
        Ends i t ((writeAll t files).course (i.told t a))

section
variable {i : Invocation} {t : Tree} {a : Artifacts}

theorem compile_sourceOf : i.compile (sourceOf t i.project) = i.compiled t := by
  rw [Invocation.compiled, File.compileFile, sourceOf]
  cases t.read i.project <;> rfl

theorem lacksOutput_eq_true_iff :
    i.lacksOutput = true ↔ i.stage = .all ∧ i.output = none := by
  simp [Invocation.lacksOutput]

theorem lacksPins_eq_true_iff : i.lacksPins a = true ↔ PinsMissing a i.stage := by
  simp [Invocation.lacksPins, PinsMissing]

/-- A run that lacks no output and no pins puts out a text or files. -/
theorem finish_cases (houtput : i.lacksOutput = false) (hpins : i.lacksPins a = false) :
    (∃ text, i.output = none ∧ StageText a i.stage text ∧ i.finish a = .print text) ∨
      ∃ path files, i.output = some path ∧ StageFiles a path i.stage files ∧
        i.finish a = .write files := by
  obtain ⟨project, top, stage, output, noCheck, verbose⟩ := i
  cases stage with
  | verilog =>
    cases output with
    | none => exact .inl ⟨_, rfl, .verilog, rfl⟩
    | some path => exact .inr ⟨path, _, rfl, .one .verilog, rfl⟩
  | buildInfo =>
    cases output with
    | none => exact .inl ⟨_, rfl, .buildInfo, rfl⟩
    | some path => exact .inr ⟨path, _, rfl, .one .buildInfo, rfl⟩
  | pcf =>
    cases hpcf : a.pcf with
    | none => simp [Invocation.lacksPins, hpcf] at hpins
    | some pins =>
      have hget : a.pcf.getD "" = pins := by rw [hpcf]; rfl
      cases output with
      | none => exact .inl ⟨_, rfl, .pcf hpcf, congrArg Finish.print hget⟩
      | some path => exact .inr ⟨path, _, rfl, .one (.pcf hpcf), by rw [← hget]; rfl⟩
  | all =>
    cases hpcf : a.pcf with
    | none => simp [Invocation.lacksPins, hpcf] at hpins
    | some pins =>
      have hget : a.pcf.getD "" = pins := by rw [hpcf]; rfl
      cases output with
      | none => simp [Invocation.lacksOutput] at houtput
      | some path => exact .inr ⟨path, _, rfl, .all hpcf, by rw [← hget]; rfl⟩

/-- Every run ends in one of these ways. -/
theorem ends_runOn (i : Invocation) (t : Tree) : Ends i t (i.runOn t) := by
  rw [Invocation.runOn, Invocation.earlyPlan?]
  cases houtput : i.lacksOutput with
  | true => exact .lacksOutput houtput
  | false =>
    rw [if_neg Bool.false_ne_true, Invocation.plan, compile_sourceOf]
    cases hcompiled : (i.compiled t).result with
    | error e => exact .failed houtput hcompiled
    | ok a =>
      dsimp only
      cases hpins : i.lacksPins a with
      | true => exact .lacksPins houtput hcompiled hpins
      | false =>
        rw [if_neg Bool.false_ne_true, Plan.runOn]
        rcases finish_cases houtput hpins with
          ⟨text, hnone, htext, hfinish⟩ | ⟨path, files, hpath, hfiles, hfinish⟩
        · rw [hfinish]
          exact .printed hcompiled hnone htext
        · rw [hfinish]
          exact .written hcompiled hpath hfiles

end

/-! ## Runs that fail -/

section
variable {h : Host} {args : List String} {i : Invocation} {t : Tree}

theorem run_eq_seenOn (hrequest : request? args = some (.run i)) :
    h.run args t = (i.runOn t).seenOn h i := by
  rw [Host.run, hrequest]

end

/-- A project with one block, which is not connected to anything. -/
def benchText : String :=
  "\x7b\"graph\": \x7b\"blocks\": [\x7b\"id\": \"spare\", \"type\": \"basic.code\", \"data\": " ++
  "\x7b\"ports\": \x7b\"in\": [], \"out\": []\x7d, \"code\": \"\"\x7d\x7d], \"wires\": []\x7d\x7d"

/-- A tree with one file, which holds a project. -/
def bench : Tree :=
  Tree.scratch.make "bench.ice" (.file (Text.toBytes benchText))

/-- The same tree on a device that takes no more bytes. -/
def full : Tree :=
  { bench with device := { breaksOff _ _ _ := some (0, .device "No space left on device") } }

end BlockCircuit.CommandLine
