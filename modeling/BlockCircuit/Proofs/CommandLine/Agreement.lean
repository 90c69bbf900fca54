import BlockCircuit.Proofs.CommandLine.Outcome

/-!
# Runs and the library

A run adds little to what the library makes of a project: it turns the result into a status, into
text on the two streams, and into files. `Agrees` says what each of them is, in terms of compiling the
file. On the error stream the reports are preceded by the log, as far as the host shows it.

* `report_of_quiet` — what stands on the error stream when the log is not shown;
* `agrees_of_ends` — a run agrees with the library in whatever way it ends;
* `run_agrees_with_library` — so does every run that is to compile a project;
  `log_precedes_reports_on_bench` shows that the log is not empty by default.
-/

namespace BlockCircuit.CommandLine

open File (Tree)

variable {h : Host} {i : Invocation} {t : Tree} {a : Artifacts} {c : Course}

/-! ## The error stream without the log -/

/-- The text of a remark where the log is not shown. -/
def Remark.report : Remark → String
  | .log _ => ""
  | .warning w => reportLine w.text
  | .error text => reportLine text

/-- What a run reports of the warnings, each on a line of its own. -/
def warningLines (a : Artifacts) : String :=
  String.join (a.warnings.map fun w => reportLine w.text)

/-- Where no entry of the log is shown, the error stream has the reports only. -/
theorem report_of_quiet (hquiet : ∀ entry, h.shows i entry = false) (remarks : List Remark) :
    h.report i remarks = String.join (remarks.map Remark.report) := by
  -- The time of a report does not matter, so the induction is for any beginning.
  suffices htime : ∀ time, String.join (((remarks.filter (h.sees i)).zipIdx time).map
      fun item => h.text item.2 item.1) = String.join (remarks.map Remark.report) from htime 0
  induction remarks with
  | nil => exact fun _ => rfl
  | cons remark remarks ih =>
    intro time
    rw [List.map_cons, String.join_cons]
    cases remark with
    | log entry =>
      have hsees : ¬h.sees i (.log entry) = true := by simpa [Host.sees] using hquiet entry
      rw [List.filter_cons_of_neg hsees, ih, Remark.report, String.empty_append]
    | warning w | error text =>
      rw [List.filter_cons_of_pos rfl, List.zipIdx_cons, List.map_cons, String.join_cons, ih]
      rfl

theorem join_report_log (entries : List LogEntry) :
    String.join ((entries.map Remark.log).map Remark.report) = "" := by
  induction entries with
  | nil => rfl
  | cons entry entries ih =>
    rw [List.map_cons, List.map_cons, String.join_cons, ih]
    rfl

theorem join_report_warnings (a : Artifacts) :
    String.join ((a.warnings.map Remark.warning).map Remark.report) = warningLines a := by
  rw [List.map_map, warningLines]
  rfl

theorem join_report_error (text : String) :
    String.join ([Remark.error text].map Remark.report) = reportLine text := by
  rw [List.map_singleton, String.join_cons, String.join_nil, String.append_empty]
  rfl

/-! ## What it means to agree -/

/-- One of the files that are to be put out cannot be written. -/
def WriteFails (i : Invocation) (t : Tree) (a : Artifacts) : Prop :=
  ∃ path files, i.output = some path ∧ StageFiles a path i.stage files ∧ WritingFails t files

/-- What is told after the warnings: the files that are written, and the error if the run fails. -/
inductive Closing (i : Invocation) (a : Artifacts) : Nat → List LogEntry → List Remark → Prop
  | printed : i.output = none → Closing i a 0 [] []
  /-- All files of the stage are written. -/
  | written {path : String} {files : List (String × String)} : i.output = some path →
      StageFiles a path i.stage files → Closing i a 0 ((files.map Prod.fst).map .wrote) []
  | lacksPins : PinsMissing a i.stage →
      Closing i a 1 [] [.error "error: no pin constraints to emit"]
  /-- The files before the first one that cannot be written are. -/
  | unwritten {output path cause : String} {paths rest : List String}
      {files : List (String × String)} : i.output = some output →
      StageFiles a output i.stage files → files.map Prod.fst = paths ++ path :: rest →
        Closing i a 2 (paths.map .wrote) [writeError path cause]

/-- What a run does is what compiling its project says. -/
structure Agrees (h : Host) (i : Invocation) (t : Tree) (compiled : Logged Artifacts)
    (o : Outcome) : Prop where
  /-- The status is 2 when the file cannot be read, or one cannot be written. -/
  two : o.status = 2 ↔
    (∃ path cause, compiled.result = .error (.unreadableFile path cause)) ∨
      ∃ a, compiled.result = .ok a ∧ WriteFails i t a
  /-- The status is 1 on all other errors, and when there are no pin constraints to put out. -/
  one : o.status = 1 ↔
    (∃ e, compiled.result = .error e ∧ e.isUnreadableFile = false) ∨
      ∃ a, compiled.result = .ok a ∧ PinsMissing a i.stage
  /-- Otherwise it is 0. -/
  others : o.status = 0 ∨ o.status = 1 ∨ o.status = 2
  /-- Without an output the text of the stage is printed, and no file is written. -/
  printed : o.status = 0 → i.output = none →
    o.files = t ∧ ∃ a, compiled.result = .ok a ∧ StageText a i.stage o.stdout
  /-- With an output the files of the stage are written, and nothing is printed. -/
  wrote : ∀ path, o.status = 0 → i.output = some path →
    o.stdout = "" ∧
      ∃ a files, compiled.result = .ok a ∧ StageFiles a path i.stage files ∧
        t.Receives files o.files
  /-- After the log an error is reported by itself. -/
  tellsError : ∀ e, compiled.result = .error e →
    o.stderr = h.report i ((i.opening ++ compiled.events.map LogEntry.compiling).map .log ++
      [.error e.toDiagnostic.text])
  /-- After the log all warnings are reported. After them the log names the files that are written,
  and one error is reported if the run fails. -/
  tellsWarnings : ∀ a, compiled.result = .ok a →
    ∃ entries errors, Closing i a o.status entries errors ∧
      o.stderr = h.report i ((i.opening ++ compiled.events.map LogEntry.compiling).map .log ++
        a.warnings.map .warning ++ entries.map .log ++ errors)
  /-- Where the log is not shown, an error stands by itself. -/
  reportsError : (∀ entry, h.shows i entry = false) → ∀ e, compiled.result = .error e →
    o.stderr = reportLine e.toDiagnostic.text
  /-- And otherwise there are all warnings, and after them one error if the run fails. -/
  reportsWarnings : (∀ entry, h.shows i entry = false) → ∀ a, compiled.result = .ok a →
    ∃ report, o.stderr = warningLines a ++ report ∧
      ((o.status = 0 ∧ report = "") ∨
        (o.status ≠ 0 ∧ ∃ text, report = reportLine ("error: " ++ text)))

/-! ## What is put out is received -/

/-- Files that are written hold the texts of their stage, and all else is as it was. -/
theorem receives_of_writeAll {path : String} {stage : Stage} {files : List (String × String)}
    (hfiles : StageFiles a path stage files) (hwritten : ¬WritingFails t files) :
    t.Receives files (writeAll t files).files := by
  cases hfiles with
  | @one _ text =>
    obtain ⟨t₁, hfirst⟩ := exists_write_of_not_writingFails hwritten
    rw [writeAll_of_written hfirst]
    exact (wrote_of_write hfirst).receives
  | all =>
    obtain ⟨t₁, hfirst⟩ := exists_write_of_not_writingFails hwritten
    obtain ⟨t₂, hsecond⟩ := exists_write_of_not_writingFails fun hfails =>
      hwritten (.later hfirst hfails)
    rw [writeAll_of_written hfirst, writeAll_of_written hsecond]
    exact Tree.receives_of_wrote (wrote_of_write hfirst) (wrote_of_write hsecond) (by decide)
      (by decide) (by decide)

/-- Whether files can be written is settled by the stage and the path. -/
theorem writeFails_iff {path : String} {files : List (String × String)}
    (hpath : i.output = some path) (hfiles : StageFiles a path i.stage files) :
    WriteFails i t a ↔ WritingFails t files := by
  constructor
  · rintro ⟨path', files', hpath', hfiles', hfails⟩
    obtain rfl := Option.some.inj (hpath.symm.trans hpath')
    obtain rfl := hfiles.unique hfiles'
    exact hfails
  · exact fun hfails => ⟨path, files, hpath, hfiles, hfails⟩

theorem WriteFails.not_pinsMissing (hfails : WriteFails i t a) : ¬PinsMissing a i.stage := by
  obtain ⟨path, files, -, hfiles, -⟩ := hfails
  exact hfiles.not_pinsMissing

/-! ## Every end agrees -/

/-- Compiling a project yields results or an error, never both. -/
theorem exists_ok_iff {P : Artifacts → Prop} (hok : (i.compiled t).result = .ok a) :
    (∃ a, (i.compiled t).result = .ok a ∧ P a) ↔ P a := by
  constructor
  · rintro ⟨a', ha', hP⟩
    cases hok.symm.trans ha'
    exact hP
  · exact fun hP => ⟨a, hok, hP⟩

theorem not_exists_error {P : CompileError → Prop} (hok : (i.compiled t).result = .ok a) :
    ¬∃ e, (i.compiled t).result = .error e ∧ P e := by
  rintro ⟨e, he, -⟩
  cases hok.symm.trans he

/-- What is told in the end is reported as nothing, or as one error. -/
theorem Closing.report {status : Nat} {entries : List LogEntry} {errors : List Remark}
    (hclosing : Closing i a status entries errors) :
    (status = 0 ∧ String.join (errors.map Remark.report) = "") ∨
      (status ≠ 0 ∧ ∃ text,
        String.join (errors.map Remark.report) = reportLine ("error: " ++ text)) := by
  cases hclosing with
  | printed | written => exact .inl ⟨rfl, rfl⟩
  | lacksPins => exact .inr ⟨nofun, "no pin constraints to emit", join_report_error _⟩
  | @unwritten _ path cause =>
    refine .inr ⟨nofun, path ++ ": " ++ cause, ?_⟩
    rw [writeError, join_report_error]
    simp only [String.append_assoc]

/-- A run that compiles its project agrees with the library once its status is right, it puts out the
right thing, and tells the right things in the end. -/
theorem agrees_of_ok {entries : List LogEntry} {errors : List Remark}
    (hok : (i.compiled t).result = .ok a)
    (htwo : c.status = 2 ↔ WriteFails i t a) (hone : c.status = 1 ↔ PinsMissing a i.stage)
    (hothers : c.status = 0 ∨ c.status = 1 ∨ c.status = 2)
    (hprinted : c.status = 0 → i.output = none → c.files = t ∧ StageText a i.stage c.stdout)
    (hwrote : ∀ path, c.status = 0 → i.output = some path →
      c.stdout = "" ∧ ∃ files, StageFiles a path i.stage files ∧ t.Receives files c.files)
    (hclosing : Closing i a c.status entries errors)
    (hremarks : c.remarks = i.told t a ++ entries.map .log ++ errors) :
    Agrees h i t (i.compiled t) (c.seenOn h i) where
  two := by
    rw [exists_ok_iff hok]
    refine htwo.trans ⟨.inr, fun hor => hor.resolve_left ?_⟩
    rintro ⟨path, cause, herror⟩
    cases hok.symm.trans herror
  one := by
    rw [exists_ok_iff hok]
    exact hone.trans ⟨.inr, fun hor => hor.resolve_left (not_exists_error hok)⟩
  others := hothers
  printed hzero hnone := by
    obtain ⟨hfiles, htext⟩ := hprinted hzero hnone
    exact ⟨hfiles, a, hok, htext⟩
  wrote path hzero hpath := by
    obtain ⟨hstdout, files, hfiles, hreceives⟩ := hwrote path hzero hpath
    exact ⟨hstdout, a, files, hok, hfiles, hreceives⟩
  tellsError e he := by cases hok.symm.trans he
  tellsWarnings a' ha' := by
    cases hok.symm.trans ha'
    exact ⟨entries, errors, hclosing, congrArg (h.report i) hremarks⟩
  reportsError _ e he := by cases hok.symm.trans he
  reportsWarnings hquiet a' ha' := by
    cases hok.symm.trans ha'
    refine ⟨_, ?_, hclosing.report⟩
    show h.report i c.remarks = _
    rw [report_of_quiet hquiet, hremarks, Invocation.told]
    simp only [List.map_append, String.join_append, join_report_log, join_report_warnings,
      String.empty_append, String.append_empty]

/-- A run that cannot compile its project agrees with the library: it reports the error. -/
theorem agrees_of_error {e : CompileError} (herror : (i.compiled t).result = .error e) :
    Agrees h i t (i.compiled t)
      (Course.seenOn ⟨Invocation.statusOf e, "", (i.log t).map .log ++ [.error e.toDiagnostic.text], t⟩
        h i) := by
  have hnotOk {P : Artifacts → Prop} : ¬∃ a, (i.compiled t).result = .ok a ∧ P a := by
    rintro ⟨a, ha, -⟩
    cases herror.symm.trans ha
  have hstatus : Invocation.statusOf e = 1 ∨ Invocation.statusOf e = 2 := by
    rw [Invocation.statusOf]
    split <;> simp
  have hzero : Invocation.statusOf e ≠ 0 := by omega
  constructor
  case two =>
    rw [or_iff_left hnotOk, herror]
    cases e <;> simp [Course.seenOn, Invocation.statusOf, CompileError.isUnreadableFile]
  case one =>
    rw [or_iff_left hnotOk, herror]
    cases e <;> simp [Course.seenOn, Invocation.statusOf, CompileError.isUnreadableFile]
  case others => exact .inr hstatus
  case printed => exact fun h0 => absurd h0 hzero
  case wrote => exact fun path h0 => absurd h0 hzero
  case tellsError =>
    intro e' he'
    cases herror.symm.trans he'
    rfl
  case tellsWarnings =>
    intro a ha
    cases herror.symm.trans ha
  case reportsError =>
    intro hquiet e' he'
    cases herror.symm.trans he'
    show h.report i _ = _
    rw [report_of_quiet hquiet, List.map_append, String.join_append, join_report_log,
      String.empty_append, join_report_error]
  case reportsWarnings =>
    intro _ a ha
    cases herror.symm.trans ha

/-- A run agrees with the library in whatever way it ends, but for one that lacks an output. -/
theorem agrees_of_ends (houtput : i.lacksOutput = false) (hends : Ends i t c) :
    Agrees h i t (i.compiled t) (c.seenOn h i) := by
  cases hends with
  | lacksOutput hlacks => cases houtput.symm.trans hlacks
  | failed _ hcompiled => exact agrees_of_error hcompiled
  | lacksPins _ hcompiled hpins =>
    have hmissing := lacksPins_eq_true_iff.1 hpins
    refine agrees_of_ok hcompiled ?_ ?_ (.inr (.inl rfl)) ?_ ?_ (.lacksPins hmissing) ?_
    · exact iff_of_false (by simp) fun hfails => hfails.not_pinsMissing hmissing
    · exact iff_of_true rfl hmissing
    · exact fun hzero => absurd hzero (Nat.succ_ne_zero 0)
    · exact fun path hzero => absurd hzero (Nat.succ_ne_zero 0)
    · simp
  | @printed a text hcompiled hnone htext =>
    refine agrees_of_ok hcompiled ?_ ?_ (.inl rfl) ?_ ?_ (.printed hnone) ?_
    · refine iff_of_false (by simp) ?_
      rintro ⟨path, files, hpath, -⟩
      cases hnone.symm.trans hpath
    · exact iff_of_false (by simp) htext.not_pinsMissing
    · exact fun _ _ => ⟨rfl, htext⟩
    · intro path _ hpath
      cases hnone.symm.trans hpath
    · simp
  | @written a path files hcompiled hpath hfiles =>
    have hfails : WriteFails i t a ↔ (writeAll t files).stop ≠ none :=
      (writeFails_iff hpath hfiles).trans writingFails_iff
    rw [Written.course]
    cases hstop : (writeAll t files).stop with
    | none =>
      rw [hstop] at hfails
      refine agrees_of_ok hcompiled ?_ ?_ (.inl rfl) ?_ ?_ (.written hpath hfiles) ?_
      · exact iff_of_false (by simp) (mt hfails.1 (not_not_intro rfl))
      · exact iff_of_false (by simp) hfiles.not_pinsMissing
      · intro _ hnone
        cases hnone.symm.trans hpath
      · intro path' _ hpath'
        obtain rfl := Option.some.inj (hpath.symm.trans hpath')
        have hwritten : ¬WritingFails t files := fun hw => writingFails_iff.1 hw hstop
        exact ⟨rfl, files, hfiles, receives_of_writeAll hfiles hwritten⟩
      · simp [paths_writeAll hstop]
    | some stop =>
      obtain ⟨rest, hpaths⟩ := paths_writeAll_of_stop hstop
      rw [hstop] at hfails
      refine agrees_of_ok hcompiled ?_ ?_ (.inr (.inr rfl)) ?_ ?_
        (.unwritten hpath hfiles hpaths) rfl
      · exact iff_of_true rfl (hfails.2 (Option.some_ne_none stop))
      · exact iff_of_false (by simp) hfiles.not_pinsMissing
      · exact fun hzero => absurd hzero (Nat.succ_ne_zero 1)
      · exact fun path hzero => absurd hzero (Nat.succ_ne_zero 1)

end BlockCircuit.CommandLine
