import BlockCircuit.Compilation
import BlockCircuit.Proofs.Verilog.Modules

/-!
# When compilation fails

The checks list everything that is wrong with a project. Compilation with checks fails with the
first error of that list. Compilation without checks fails with the first one that stops emission: a
missing name for the outermost module, or a type that is used inside its own definition. Where both
succeed they yield the same text.

* `result_compileCircuit_lenient`, `result_compileCircuit_strict` — both modes in terms of the
  errors of the checks;
* `compileCircuit_fails_with_first_error` — what this says about errors and texts.
-/

namespace BlockCircuit

variable {s : Sanitizer} {name : String} {p : Project}

theorem toExcept_eq_firstErrorOr (r : CheckReport) :
    r.toExcept = firstErrorOr r.errors r.warnings := by
  obtain ⟨errors, warnings⟩ := r
  cases errors <;> rfl

theorem result_emitCircuit :
    (emitCircuit s name p).result =
      firstErrorOr ((Check.visit s name [] p).errors.filter CompileError.stopsEmission)
        (Verilog.render (Verilog.treeModules s name p)) := by
  rw [emitCircuit, Logged.result_bind, Verilog.result_emit]
  exact firstErrorOr_bind_ok _

/-- A missing name is always among the errors that stop emission. -/
theorem filter_errors_checkProject :
    (checkProject s name p).errors.filter CompileError.stopsEmission =
      (if name = "" then [emptyNameError] else []) ++
        (Check.visit s name [] p).errors.filter CompileError.stopsEmission := by
  rw [Check.errors_checkProject, List.filter_append]
  split <;> rfl

theorem result_precheck_lenient :
    (precheck s false name p).result =
      firstErrorOr (if name = "" then [emptyNameError] else []) () := by
  rw [precheck, if_neg Bool.false_ne_true]
  split <;> rfl

theorem result_precheck_strict :
    (precheck s true name p).result = firstErrorOr (checkProject s name p).errors () := by
  rw [precheck, if_pos rfl, Logged.result_bind]
  show (Logged.ofExcept (checkProject s name p).toExcept >>= fun _ => pure ()).result = _
  rw [Logged.result_bind]
  show ((checkProject s name p).toExcept >>= fun _ => Except.ok ()) = _
  rw [toExcept_eq_firstErrorOr]
  exact firstErrorOr_bind_ok _

/-- Without checks, compilation fails with the first error of the checks that stops emission. -/
theorem result_compileCircuit_lenient :
    (compileCircuit s false name p).result =
      firstErrorOr ((checkProject s name p).errors.filter CompileError.stopsEmission)
        (Verilog.render (Verilog.treeModules s name p)) := by
  rw [compileCircuit, Logged.result_bind, result_precheck_lenient, filter_errors_checkProject]
  exact firstErrorOr_bind _ result_emitCircuit

/-- With checks, compilation fails with the first error of the checks. -/
theorem result_compileCircuit_strict :
    (compileCircuit s true name p).result =
      firstErrorOr (checkProject s name p).errors
        (Verilog.render (Verilog.treeModules s name p)) := by
  rw [compileCircuit, Logged.result_bind, result_precheck_strict]
  cases herrors : (checkProject s name p).errors with
  | nil =>
    show (emitCircuit s name p).result = _
    have hvisit : (Check.visit s name [] p).errors = [] := by
      rw [Check.errors_checkProject] at herrors
      exact (List.append_eq_nil_iff.1 herrors).2
    rw [result_emitCircuit, hvisit]
    rfl
  | cons e errors => rfl

/-- An error of the compilation is one of the errors of the checks. -/
theorem mem_errors_of_compileCircuit {strict : Bool} {e : CompileError}
    (h : (compileCircuit s strict name p).result = .error e) :
    e ∈ (checkProject s name p).errors := by
  cases strict with
  | true =>
    rw [result_compileCircuit_strict, firstErrorOr_eq_error_iff] at h
    exact List.mem_of_head? h
  | false =>
    rw [result_compileCircuit_lenient, firstErrorOr_eq_error_iff] at h
    exact List.mem_of_mem_filter (List.mem_of_head? h)

/-- Without checks, compilation fails exactly with the first error of the checks that stops
emission, and succeeds when there is none. With checks, it fails exactly with the first error of
all, and when there is none it succeeds with the text that it yields without checks. -/
theorem compileCircuit_fails_with_first_error (s : Sanitizer) (name : String) (p : Project) :
    let errors := (checkProject s name p).errors
    let stopping := errors.filter CompileError.stopsEmission
    (∀ e, (compileCircuit s false name p).result = .error e ↔ stopping.head? = some e) ∧
      ((∃ text, (compileCircuit s false name p).result = .ok text) ↔ stopping = []) ∧
      (∀ e, (compileCircuit s true name p).result = .error e ↔ errors.head? = some e) ∧
      ((∃ text, (compileCircuit s true name p).result = .ok text) ↔ errors = []) ∧
      ∀ text, (compileCircuit s true name p).result = .ok text ↔
        errors = [] ∧ (compileCircuit s false name p).result = .ok text := by
  intro errors stopping
  have hlenient := @result_compileCircuit_lenient s name p
  have hstrict := @result_compileCircuit_strict s name p
  rw [hlenient, hstrict]
  refine ⟨fun e => firstErrorOr_eq_error_iff, ?_, fun e => firstErrorOr_eq_error_iff, ?_, ?_⟩
  · simp only [firstErrorOr_eq_ok_iff, exists_and_left, exists_eq', and_true]
    rfl
  · simp only [firstErrorOr_eq_ok_iff, exists_and_left, exists_eq', and_true]
    rfl
  · intro text
    rw [firstErrorOr_eq_ok_iff, firstErrorOr_eq_ok_iff]
    constructor
    · rintro ⟨herrors, htext⟩
      have hnil : errors = [] := herrors
      have hstopping : errors.filter CompileError.stopsEmission = [] := by
        rw [hnil, List.filter_nil]
      exact ⟨herrors, hstopping, htext⟩
    · rintro ⟨herrors, -, htext⟩
      exact ⟨herrors, htext⟩

end BlockCircuit
