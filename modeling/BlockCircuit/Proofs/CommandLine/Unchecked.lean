import BlockCircuit.Proofs.Check.Findings
import BlockCircuit.Proofs.CommandLine.Agreement
import BlockCircuit.Proofs.CommandLine.Arguments
import BlockCircuit.Proofs.Compilation.Whole

/-!
# Runs without checks

`--no-check` leaves out the checks, and nothing depends on them but the warnings that they give, an
entry of the log that says that they are done, and whether they find an error. So a run that is good
with checks is as good without them.

* `Reads.insert` — wherever the option can be added, it changes nothing else that is asked for;
* `compiled_unchecked` — what compiles with checks compiles to the same without them, apart from the
  warnings about blocks without connections;
* `told_unchecked` — what is told on the way, apart from these warnings and from that entry;
* `unchecked_run_agrees` — a run that succeeds with checks does the same without them, and a run that
  cannot compile its project without checks cannot do so with them; `unchecked_run_lacks_entry` shows
  that the entry can be seen.
-/

namespace BlockCircuit

/-! ## Compiling without checks -/

/-- The same results without the warnings about blocks without connections. -/
def Artifacts.unchecked (a : Artifacts) : Artifacts :=
  { a with warnings := a.warnings.filter fun w => w.code ≠ some .unconnectedBlock }

/-- Of the warnings only those of the checks are about blocks without connections. -/
theorem filter_warnings (options : CompileOptions) (p : Project) :
    (checkWarnings options p ++ skippedWarnings options p).filter
        (fun w => w.code ≠ some .unconnectedBlock) = skippedWarnings options p := by
  have hcheck : (checkWarnings options p).filter
      (fun w => w.code ≠ some .unconnectedBlock) = [] := by
    rw [List.filter_eq_nil_iff]
    intro w hw
    rw [checkWarnings] at hw
    split at hw
    · simp [Check.code_of_mem_warnings hw]
    · cases hw
  have hskipped : (skippedWarnings options p).filter
      (fun w => w.code ≠ some .unconnectedBlock) = skippedWarnings options p := by
    rw [skippedWarnings]
    cases (compilePins options.sanitizer p).result with
    | ok text => rfl
    | error e => rfl
  rw [List.filter_append, hcheck, hskipped, List.nil_append]

/-- What passes the checks is written without them. -/
theorem compileCircuit_lenient_of_ok {s : Sanitizer} {strict : Bool} {name text : String}
    {p : Project} (h : (compileCircuit s strict name p).result = .ok text) :
    (compileCircuit s false name p).result = .ok text := by
  cases strict with
  | false => exact h
  | true =>
    rw [result_compileCircuit_strict] at h
    rw [result_compileCircuit_lenient]
    cases herrors : (checkProject s name p).errors with
    | nil => rwa [herrors] at h
    | cons e errors =>
      rw [herrors] at h
      cases h

/-- A document that compiles with checks compiles without them, and the results are the same apart from
warnings. -/
theorem compileProject_lenient_of_ok {source : String} {options : CompileOptions} {a : Artifacts}
    (h : (compileProject source options).result = .ok a) :
    (compileProject source { options with strict := false }).result = .ok a.unchecked := by
  rw [compileProject_eq_ok_iff] at h ⊢
  obtain ⟨p, hp, ha⟩ := h
  obtain ⟨text, htext, rfl⟩ := areOf_iff.1 ha
  refine ⟨p, hp, areOf_iff.2 ⟨text, compileCircuit_lenient_of_ok htext, ?_⟩⟩
  simp only [Artifacts.unchecked, artifactsOf, filter_warnings]
  rfl

/-- What follows the checks in the whole work, given their warnings. -/
def afterChecks (source : String) (options : CompileOptions) (p : Project)
    (warnings : List Diagnostic) : Logged Artifacts := do
  let verilog ← compileCircuit options.sanitizer false options.top p
  passDone .verilog
  let (pcf, skipped) ← pinsPass options p
  passDone .pcf
  return {
    verilog
    pcf
    warnings := warnings ++ skipped
    provenance := .compute source options.top verilog pcf }

/-- The events that follow the checks do not depend on their warnings. -/
theorem events_afterChecks (source : String) (options : CompileOptions) (p : Project)
    (warnings : List Diagnostic) :
    (afterChecks source options p warnings).events = (afterChecks source options p []).events := by
  refine Logged.events_bind_congr fun verilog => ?_
  refine Logged.events_bind_congr fun _ => ?_
  exact Logged.events_bind_congr fun _ => rfl

theorem events_compileProject {source : String} {options : CompileOptions} {p : Project}
    (hp : Project.ofText source = .ok p) :
    (compileProject source options).events =
      .passComplete .load ::
        (checkPass options p >>= afterChecks source options p).events := by
  have hload : (Logged.ofExcept ((Project.ofText source).mapError LoadError.toCompileError)).result =
      .ok p := mapError_eq_ok_iff.2 hp
  rw [compileProject, Logged.events_bind_ok hload, Logged.events_bind_ok rfl]
  rfl

/-- With checks and without them the same events are reported, but for the one that the checks are
done. -/
theorem events_compileProject_lenient {source : String} {options : CompileOptions} {a : Artifacts}
    (hstrict : options.strict = true) (h : (compileProject source options).result = .ok a) :
    ∃ rest, (compileProject source options).events =
        .passComplete .load :: .passComplete .check :: rest ∧
      (compileProject source { options with strict := false }).events =
        .passComplete .load :: rest := by
  obtain ⟨p, hp, ha⟩ := compileProject_eq_ok_iff.1 h
  have herrors : (checkProject options.sanitizer options.top p).errors = [] := by
    have hverilog := ha.verilog
    rw [hstrict, result_compileCircuit_strict, firstErrorOr_eq_ok_iff] at hverilog
    exact hverilog.1
  refine ⟨(afterChecks source options p []).events, ?_, ?_⟩
  · have hexcept : (Logged.ofExcept
        (checkProject options.sanitizer options.top p).toExcept).result =
          .ok (checkProject options.sanitizer options.top p).warnings := by
      show (checkProject options.sanitizer options.top p).toExcept = _
      rw [toExcept_eq_firstErrorOr, herrors, firstErrorOr_nil]
    have hresult : (checkPass options p).result = .ok (checkWarnings options p) := by
      rw [result_checkPass, if_pos hstrict, herrors, firstErrorOr_nil]
    have hevents : (checkPass options p).events = [.passComplete .check] := by
      rw [checkPass, if_pos hstrict, Logged.events_bind_ok hexcept]
      rfl
    rw [events_compileProject hp, Logged.events_bind_ok hresult, hevents, events_afterChecks]
    rfl
  · rw [events_compileProject hp]
    rfl

namespace CommandLine

open File (Tree)

variable {g g' : Given} {i : Invocation} {r : Request} {t : Tree} {a : Artifacts}
  {args before after : List String}

/-- What has been given, and that the checks are left out. -/
def Given.unchecked (g : Given) : Given := { g with noCheck := true }

/-- The same invocation without the checks. -/
def Invocation.unchecked (i : Invocation) : Invocation := { i with noCheck := true }

/-! ## Leaving out the checks on the way -/

theorem set_unchecked {setting : Setting} {value : String} (h : g.set setting value = some g') :
    g.unchecked.set setting value = some g'.unchecked ∧ g'.noCheck = g.noCheck := by
  cases setting with
  | stage =>
    rw [Given.set] at h
    split at h
    · cases h
    · rename_i hstage
      obtain ⟨stage, hname, rfl⟩ := Option.map_eq_some_iff.1 h
      refine ⟨?_, rfl⟩
      simp [Given.set, Given.unchecked, hstage, hname]
  | _ =>
    rw [Given.set] at h
    split at h
    · cases h
    · rename_i hset
      cases h
      simp [Given.set, Given.unchecked, hset]

theorem setProject_unchecked {path : String} (h : g.setProject path = some g') :
    g.unchecked.setProject path = some g'.unchecked ∧ g'.noCheck = g.noCheck := by
  rw [Given.setProject] at h
  split at h
  · cases h
  · rename_i hset
    cases h
    simp [Given.setProject, Given.unchecked, hset]

theorem raise_verbose_unchecked (h : g.raise .verbose = some g') :
    g.unchecked.raise .verbose = some g'.unchecked ∧ g'.noCheck = g.noCheck := by
  rw [Given.raise] at h
  split at h
  · cases h
  · rename_i hraise
    cases h
    simp [Given.raise, Given.unchecked, hraise]

theorem raise_noCheck_eq_some_iff :
    g.raise .noCheck = some g' ↔ g.noCheck = false ∧ g' = g.unchecked := by
  rw [Given.raise]
  split
  · rename_i h
    simp [h]
  · rename_i h
    simp [h, Given.unchecked, eq_comm]

theorem finish_unchecked (h : g.finish = some (.run i)) :
    g.unchecked.finish = some (.run i.unchecked) ∧ i.noCheck = g.noCheck := by
  obtain ⟨project, hproject, hi⟩ := Option.map_eq_some_iff.1 h
  cases hi
  refine ⟨?_, rfl⟩
  rw [Given.finish, Given.unchecked, hproject]
  rfl

theorem readPlain_unchecked (h : readPlain g args = some (.run i)) :
    readPlain g.unchecked args = some (.run i.unchecked) ∧ i.noCheck = g.noCheck := by
  induction args generalizing g with
  | nil => exact finish_unchecked h
  | cons path args ih =>
    obtain ⟨g', hset, h⟩ := Option.bind_eq_some_iff.1 h
    obtain ⟨hset', hcheck⟩ := setProject_unchecked hset
    obtain ⟨hread, hi⟩ := ih h
    refine ⟨?_, hi.trans hcheck⟩
    rw [readPlain, hset']
    exact hread

/-- Once the checks are left out, they stay so. -/
theorem Reads.noCheck (h : Reads g args i) (hg : g.noCheck = true) : i.noCheck = true := by
  induction h with
  | finish hfinish => rw [(finish_unchecked hfinish).2, hg]
  | rest _ hrest => rw [(readPlain_unchecked hrest).2, hg]
  | attached _ hset _ ih | separate _ _ hset _ ih => exact ih ((set_unchecked hset).2.trans hg)
  | @flag g g' i argument args flag _ hraise _ ih =>
    cases flag with
    | noCheck => cases hg.symm.trans (raise_noCheck_eq_some_iff.1 hraise).1
    | verbose => exact ih ((raise_verbose_unchecked hraise).2.trans hg)
  | path _ hset _ ih => exact ih ((setProject_unchecked hset).2.trans hg)

theorem Reads.unchecked (h : Reads g args i) (hi : i.noCheck = false) :
    Reads g.unchecked args i.unchecked := by
  induction h with
  | finish hfinish => exact .finish (finish_unchecked hfinish).1
  | rest hclass hrest => exact .rest hclass (readPlain_unchecked hrest).1
  | attached hclass hset _ ih => exact .attached hclass (set_unchecked hset).1 (ih hi)
  | separate hclass hnext hset _ ih =>
    exact .separate hclass hnext (set_unchecked hset).1 (ih hi)
  | @flag g g' i argument args flag hclass hraise hrest ih =>
    cases flag with
    | noCheck =>
      obtain ⟨-, rfl⟩ := raise_noCheck_eq_some_iff.1 hraise
      cases hi.symm.trans (hrest.noCheck rfl)
    | verbose => exact .flag hclass (raise_verbose_unchecked hraise).1 (ih hi)
  | path hclass hset _ ih => exact .path hclass (setProject_unchecked hset).1 (ih hi)

/-! ## Adding the option -/

theorem classify_noCheck : classify "--no-check" = .flag .noCheck := by decide

/-- The option can be added in front. -/
theorem Reads.front (h : Reads g args i) (hi : i.noCheck = false) :
    readArguments g ("--no-check" :: args) = some (.run i.unchecked) := by
  have hg : g.noCheck = false := by
    refine eq_false_of_ne_true ?_
    intro hg
    cases hi.symm.trans (h.noCheck hg)
  rw [readArguments_flag classify_noCheck, raise_noCheck_eq_some_iff.2 ⟨hg, rfl⟩, Option.bind_some]
  exact (h.unchecked hi).readArguments_eq

/-- Wherever the option can be added, it leaves out the checks and changes nothing else. -/
theorem Reads.insert {g : Given} {before : List String} (h : Reads g (before ++ after) i)
    (hi : i.noCheck = false)
    (hr : readArguments g (before ++ "--no-check" :: after) = some r) : r = .run i.unchecked := by
  cases before with
  | nil => exact Option.some.inj (hr.symm.trans (h.front hi))
  | cons argument before =>
    rw [List.cons_append] at h hr
    generalize hargs : before ++ after = args at h
    cases h with
    | rest hclass hrest =>
      -- It would be a second path.
      rw [readArguments_rest hclass] at hr
      have hlength := length_of_readPlain hrest
      have hlength' := length_of_readPlain hr
      rw [← hargs, List.length_append] at hlength
      rw [List.length_append, List.length_cons] at hlength'
      omega
    | attached hclass hset hrest =>
      subst hargs
      rw [readArguments_attached hclass, hset, Option.bind_some] at hr
      exact hrest.insert hi hr
    | @separate g g' _ _ next value args setting hclass hnext hset hrest =>
      cases before with
      | nil =>
        -- It would be the value.
        rw [List.nil_append, readArguments.eq_def] at hr
        simp [hclass, classify_noCheck] at hr
      | cons next' before =>
        cases hargs
        rw [List.cons_append, readArguments_separate hclass hnext, hset, Option.bind_some] at hr
        exact hrest.insert hi hr
    | flag hclass hraise hrest =>
      subst hargs
      rw [readArguments_flag hclass, hraise, Option.bind_some] at hr
      exact hrest.insert hi hr
    | path hclass hset hrest =>
      subst hargs
      rw [readArguments_path hclass, hset, Option.bind_some] at hr
      exact hrest.insert hi hr
termination_by before.length

/-! ## What is told without checks -/

/-- The entry of the log that the checks are done. -/
def checksDone : LogEntry := .compiling (.passComplete .check)

/-- Whether a remark has nothing to do with blocks without connections. -/
def Remark.stays : Remark → Bool
  | .warning w => w.code ≠ some .unconnectedBlock
  | .log _ | .error _ => true

/-- The same remarks without the warnings about blocks without connections, and without the entry that
the checks are done. -/
def uncheckedRemarks (remarks : List Remark) : List Remark :=
  (remarks.erase (.log checksDone)).filter Remark.stays

theorem filter_stays_log (entries : List LogEntry) :
    (entries.map Remark.log).filter Remark.stays = entries.map Remark.log := by
  rw [List.filter_eq_self]
  intro remark hremark
  obtain ⟨entry, -, rfl⟩ := List.mem_map.1 hremark
  rfl

theorem filter_stays_warnings (a : Artifacts) :
    (a.warnings.map Remark.warning).filter Remark.stays =
      a.unchecked.warnings.map Remark.warning := by
  rw [List.filter_map]
  rfl

/-- A project that compiles with checks compiles without them. -/
theorem compiled_unchecked (h : (i.compiled t).result = .ok a) :
    (i.unchecked.compiled t).result = .ok a.unchecked := by
  rw [← compile_sourceOf] at h ⊢
  have hproject : i.unchecked.project = i.project := rfl
  rw [hproject]
  cases hsource : sourceOf t i.project with
  | error cause =>
    rw [hsource, Invocation.compile] at h
    cases h
  | ok text =>
    rw [hsource] at h
    have hok : (compileProject text i.options).result = .ok a := h
    have hlenient := compileProject_lenient_of_ok hok
    have hoptions : i.unchecked.options = { i.options with strict := false } := rfl
    rw [← hoptions] at hlenient
    exact hlenient

theorem events_compiled (hchecks : i.noCheck = false) (h : (i.compiled t).result = .ok a) :
    ∃ rest, (i.compiled t).events = .passComplete .load :: .passComplete .check :: rest ∧
      (i.unchecked.compiled t).events = .passComplete .load :: rest := by
  rw [← compile_sourceOf] at h ⊢
  rw [← compile_sourceOf]
  have hproject : i.unchecked.project = i.project := rfl
  rw [hproject]
  cases hsource : sourceOf t i.project with
  | error cause =>
    rw [hsource, Invocation.compile] at h
    cases h
  | ok text =>
    rw [hsource] at h
    have hstrict : i.options.strict = true := by rw [Invocation.options, hchecks]; rfl
    exact events_compileProject_lenient hstrict h

/-- What is told on the way is the same without checks, apart from the warnings about blocks without
connections and the entry that the checks are done. -/
theorem told_unchecked (hchecks : i.noCheck = false) (h : (i.compiled t).result = .ok a) :
    Remark.log checksDone ∈ i.told t a ∧
      i.unchecked.told t a.unchecked = uncheckedRemarks (i.told t a) := by
  obtain ⟨rest, hevents, hevents'⟩ := events_compiled hchecks h
  have herase : (i.told t a).erase (.log checksDone) =
      (i.unchecked.log t).map .log ++ a.warnings.map .warning := by
    rw [Invocation.told, Invocation.log, Invocation.log, hevents, hevents']
    simp [Invocation.opening, Invocation.unchecked, checksDone]
  constructor
  · rw [Invocation.told, Invocation.log, hevents]
    simp [checksDone]
  · rw [uncheckedRemarks, herase, List.filter_append, filter_stays_log, filter_stays_warnings,
      Invocation.told]

/-- What is done after something is told does not depend on it, and adds no warnings. -/
theorem runOn_told (finish : Finish) (t : Tree) :
    ∃ status stdout tail files,
      (∀ told, (Plan.mk told finish).runOn t = ⟨status, stdout, told ++ tail, files⟩) ∧
        tail.filter Remark.stays = tail := by
  cases finish with
  | fail status => exact ⟨status, "", [], t, fun told => by rw [List.append_nil]; rfl, rfl⟩
  | print text => exact ⟨0, text, [], t, fun told => by rw [List.append_nil]; rfl, rfl⟩
  | write files =>
    have hrun (told : List Remark) : (Plan.mk told (.write files)).runOn t =
        (writeAll t files).course told := rfl
    let log := ((writeAll t files).paths.map LogEntry.wrote).map Remark.log
    cases hstop : (writeAll t files).stop with
    | none =>
      refine ⟨0, "", log, (writeAll t files).files, fun told => ?_, filter_stays_log _⟩
      rw [hrun, Written.course, hstop]
    | some stop =>
      refine ⟨2, "", log ++ [writeError stop.1 stop.2.message], (writeAll t files).files,
        fun told => ?_, ?_⟩
      · rw [hrun, Written.course, hstop, ← List.append_assoc]
      · rw [List.filter_append, filter_stays_log]
        rfl

/-! ## Runs without checks -/

theorem runOn_of_ok (houtput : i.lacksOutput = false) (h : (i.compiled t).result = .ok a)
    (hpins : i.lacksPins a = false) :
    i.runOn t = (Plan.mk (i.told t a) (i.finish a)).runOn t := by
  rw [Invocation.runOn, Invocation.earlyPlan?, houtput, if_neg Bool.false_ne_true, Invocation.plan,
    compile_sourceOf, h]
  dsimp only
  rw [hpins, if_neg Bool.false_ne_true]
  rfl

/-- A run that succeeds has compiled its project, and lacks nothing. -/
theorem compiled_of_status (hstatus : (i.runOn t).status = 0) :
    i.lacksOutput = false ∧ ∃ a, (i.compiled t).result = .ok a ∧ i.lacksPins a = false := by
  have hends := ends_runOn i t
  generalize i.runOn t = c at hstatus hends
  cases hends with
  | lacksOutput | lacksPins => cases hstatus
  | @failed e => cases e <;> cases hstatus
  | @printed a text hcompiled _ htext =>
    refine ⟨?_, a, hcompiled, ?_⟩
    · rw [← Bool.not_eq_true, lacksOutput_eq_true_iff]
      rintro ⟨hstage, -⟩
      rw [hstage] at htext
      cases htext
    · rw [← Bool.not_eq_true, lacksPins_eq_true_iff]
      exact htext.not_pinsMissing
  | @written a path files hcompiled hpath hfiles =>
    refine ⟨?_, a, hcompiled, ?_⟩
    · rw [← Bool.not_eq_true, lacksOutput_eq_true_iff, hpath]
      exact nofun
    · rw [← Bool.not_eq_true, lacksPins_eq_true_iff]
      exact hfiles.not_pinsMissing

/-- A run that succeeds does the same without checks, and tells the same without the warnings about
blocks without connections and the entry that the checks are done. -/
theorem runOn_unchecked (hchecks : i.noCheck = false) (hstatus : (i.runOn t).status = 0) :
    i.unchecked.runOn t = { i.runOn t with remarks := uncheckedRemarks (i.runOn t).remarks } := by
  obtain ⟨houtput, a, hcompiled, hpins⟩ := compiled_of_status hstatus
  obtain ⟨status, stdout, tail, files, hrun, htail⟩ := runOn_told (i.finish a) t
  obtain ⟨hmem, htold⟩ := told_unchecked hchecks hcompiled
  have hchecked : i.runOn t = ⟨status, stdout, i.told t a ++ tail, files⟩ :=
    (runOn_of_ok houtput hcompiled hpins).trans (hrun _)
  -- Neither what is lacking nor what is put out depends on the checks.
  have houtput' : i.unchecked.lacksOutput = false := houtput
  have hpins' : i.unchecked.lacksPins a.unchecked = false := hpins
  have hfinish : i.unchecked.finish a.unchecked = i.finish a := rfl
  have hremarks : uncheckedRemarks (i.told t a ++ tail) = uncheckedRemarks (i.told t a) ++ tail := by
    rw [uncheckedRemarks, uncheckedRemarks, List.erase_append_left _ hmem, List.filter_append, htail]
  rw [runOn_of_ok houtput' (compiled_unchecked hcompiled) hpins', hfinish, hrun, hchecked, htold,
    hremarks]

theorem filter_erase_of_neg {α : Type} [DecidableEq α] {p : α → Bool} {x : α} (hx : ¬p x = true)
    (l : List α) : (l.erase x).filter p = l.filter p := by
  induction l with
  | nil => rfl
  | cons y l ih =>
    rw [List.erase_cons]
    by_cases hy : y = x
    · subst hy
      rw [if_pos (beq_self_eq_true y), List.filter_cons_of_neg hx]
    · rw [if_neg (by simpa using hy), List.filter_cons, List.filter_cons, ih]

/-- An entry that is not shown makes no difference. -/
theorem report_uncheckedRemarks {h : Host} (hunseen : h.shows i checksDone = false)
    (remarks : List Remark) :
    h.report i (uncheckedRemarks remarks) = h.report i (remarks.filter Remark.stays) := by
  have hsees : ¬(h.sees i (.log checksDone) && Remark.stays (.log checksDone)) = true := by
    rw [Host.sees, hunseen]
    exact Bool.false_ne_true
  have hfilter : (remarks.erase (.log checksDone)).filter (fun r => h.sees i r && r.stays) =
      remarks.filter (fun r => h.sees i r && r.stays) :=
    filter_erase_of_neg (p := fun r => h.sees i r && r.stays) hsees remarks
  rw [Host.report, Host.report, uncheckedRemarks, List.filter_filter, List.filter_filter, hfilter]

/-- The same host when something else is run, so that the lines of the log tell other times. -/
def Host.later (h : Host) (line : Nat → LogEntry → String) : Host := { h with line := line }

/-- What a run without checks on the second host has in common with the same run with checks on the
first one. -/
structure SameUnchecked (h h' : Host) (i : Invocation) (t : Tree) (o o' : Outcome) : Prop where
  told : o.stderr = h.report i (i.runOn t).remarks
  /-- Only what is told can differ. The warnings about blocks without connections are missing, and the
  entry of the log that the checks are done. -/
  same : o' = { o with stderr := h'.report i (uncheckedRemarks (i.runOn t).remarks) }
  /-- Where this entry is not shown, the warnings are all that is missing. -/
  unseen : h.shows i checksDone = false →
    o'.stderr = h'.report i ((i.runOn t).remarks.filter Remark.stays)
  /-- Where no entry of the log is shown, warnings are all that is reported. -/
  quiet : (∀ entry, h.shows i entry = false) → ∃ a, (i.compiled t).result = .ok a ∧
    o.stderr = warningLines a ∧ o'.stderr = warningLines a.unchecked

/-- A run that succeeds reports the warnings only, where the log is not shown. -/
theorem stderr_of_quiet {h : Host} (hquiet : ∀ entry, h.shows i entry = false)
    (hstatus : (i.runOn t).status = 0) (hcompiled : (i.compiled t).result = .ok a) :
    ((i.runOn t).seenOn h i).stderr = warningLines a := by
  obtain ⟨houtput, -⟩ := compiled_of_status hstatus
  have hagrees : Agrees h i t (i.compiled t) ((i.runOn t).seenOn h i) :=
    agrees_of_ends houtput (ends_runOn i t)
  obtain ⟨report, hstderr, ⟨-, rfl⟩ | ⟨hne, -⟩⟩ := hagrees.reportsWarnings hquiet a hcompiled
  · rw [hstderr, String.append_empty]
  · exact absurd hstatus hne

/-- A run that succeeds is the same without checks. -/
theorem sameUnchecked_runOn (h : Host) (line : Nat → LogEntry → String) (hchecks : i.noCheck = false)
    (hstatus : (i.runOn t).status = 0) :
    SameUnchecked h (h.later line) i t ((i.runOn t).seenOn h i)
      ((i.unchecked.runOn t).seenOn (h.later line) i.unchecked) := by
  have hrun := runOn_unchecked hchecks hstatus
  have hsame : (i.unchecked.runOn t).seenOn (h.later line) i.unchecked =
      { (i.runOn t).seenOn h i with
        stderr := (h.later line).report i (uncheckedRemarks (i.runOn t).remarks) } := by
    rw [hrun]
    rfl
  refine ⟨rfl, hsame, ?_, ?_⟩
  · intro hunseen
    have hunseen' : (h.later line).shows i checksDone = false := hunseen
    rw [hsame]
    exact report_uncheckedRemarks hunseen' _
  · intro hquiet
    have hquiet' : ∀ entry, (h.later line).shows i.unchecked entry = false := hquiet
    obtain ⟨-, a, hcompiled, -⟩ := compiled_of_status hstatus
    have hstatus' : (i.unchecked.runOn t).status = 0 := by rw [hrun]; exact hstatus
    exact ⟨a, hcompiled, stderr_of_quiet hquiet hstatus hcompiled,
      stderr_of_quiet hquiet' hstatus' (compiled_unchecked hcompiled)⟩

/-- The project of a run is looked at, and it cannot be compiled. -/
def FailsInCompilation (args : List String) (t : Tree) : Prop :=
  ∃ i e, request? args = some (.run i) ∧ i.lacksOutput = false ∧ (i.compiled t).result = .error e

/-- Adding `--no-check` to a run that succeeds, wherever it can be added, changes nothing but what is
told: warnings about blocks without connections are not reported, and the log, whose lines may tell
other times, does not say that the checks are done. And if a run cannot compile its project with
`--no-check`, it cannot do so without. -/
theorem unchecked_run_agrees (h : Host) (line : Nat → LogEntry → String)
    (before after : List String) (i : Invocation) (t : Tree)
    (hrequest : request? (before ++ after) = some (.run i)) (hchecks : i.noCheck = false)
    (hadded : request? (before ++ "--no-check" :: after) ≠ none) :
    ((h.run (before ++ after) t).status = 0 →
      SameUnchecked h (h.later line) i t (h.run (before ++ after) t)
        ((h.later line).run (before ++ "--no-check" :: after) t)) ∧
    (FailsInCompilation (before ++ "--no-check" :: after) t →
      FailsInCompilation (before ++ after) t) := by
  obtain ⟨r, hr⟩ := Option.ne_none_iff_exists'.1 hadded
  have hunchecked : request? (before ++ "--no-check" :: after) = some (.run i.unchecked) := by
    rw [hr, (readArguments_eq_some_run_iff.1 hrequest).insert hchecks hr]
  constructor
  · rw [run_eq_seenOn hrequest, run_eq_seenOn hunchecked]
    exact sameUnchecked_runOn h line hchecks
  · rintro ⟨i', e, hrequest', houtput, hcompiled⟩
    obtain rfl : i.unchecked = i' := by
      rw [hunchecked, Option.some.injEq, Request.run.injEq] at hrequest'
      exact hrequest'
    cases hchecked : (i.compiled t).result with
    | error e => exact ⟨i, e, hrequest, houtput, hchecked⟩
    | ok a =>
      rw [compiled_unchecked hchecked] at hcompiled
      cases hcompiled

theorem unchecked_run_on_bench :
    (Host.plain.run ["bench.ice"] bench).status = 0 ∧
      SameUnchecked .plain .plain { project := "bench.ice" } bench
        (Host.plain.run ["bench.ice"] bench) (Host.plain.run ["--no-check", "bench.ice"] bench) ∧
      (Host.plain.run ["--no-check", "bench.ice"] bench).stderr ≠
        (Host.plain.run ["bench.ice"] bench).stderr := by
  have hrequest : request? ["bench.ice"] = some (.run { project := "bench.ice" }) := by decide
  have hadded : request? ["--no-check", "bench.ice"] ≠ none := by decide
  have hstatus : (Host.plain.run ["bench.ice"] bench).status = 0 := by decide +kernel
  have hagrees :=
    unchecked_run_agrees .plain Host.plain.line [] ["bench.ice"] _ bench hrequest rfl hadded
  exact ⟨hstatus, hagrees.1 hstatus, by decide +kernel⟩

/-- A run that shows all of the log. -/
def verboseRun : Invocation := { project := "bench.ice", verbose := true }

/-- With `--verbose`, the error stream without checks is not the one with checks less the warnings about
blocks without connections: the entry that the checks are done is missing as well. -/
theorem unchecked_run_lacks_entry :
    request? ["--verbose", "bench.ice"] = some (.run verboseRun) ∧
      (Host.plain.run ["--verbose", "bench.ice"] bench).status = 0 ∧
        (Host.plain.run ["--verbose", "bench.ice"] bench).stderr =
          Host.plain.report verboseRun (verboseRun.runOn bench).remarks ∧
        (Host.plain.run ["--no-check", "--verbose", "bench.ice"] bench).stderr ≠
          Host.plain.report verboseRun ((verboseRun.runOn bench).remarks.filter Remark.stays) := by
  refine ⟨by decide, ?_⟩
  decide +kernel

end CommandLine

end BlockCircuit
