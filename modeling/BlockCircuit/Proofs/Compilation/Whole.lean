import BlockCircuit.Proofs.Compilation.Constraints
import BlockCircuit.Proofs.Compilation.Failure
import BlockCircuit.Proofs.Json.Yields

/-!
# The whole work and its parts

Compiling a document checks the project once and then writes it without checks. The parts can also
be used on their own: loading, compiling the circuit, writing pin constraints, checking, recording
where results come from. Both ways come to the same.

* `result_compileProject` — the whole work is loading, and then compiling the circuit;
* `Artifacts.AreOf` — results that are those of the parts;
* `compileProject_eq_parts` — the whole work fails exactly when loading or compiling the circuit
  does, with the same error, never for want of a pin; and otherwise it yields what the parts yield.
-/

namespace BlockCircuit

variable {source : String} {options : CompileOptions} {p : Project}

/-- The warnings of the checks, when there are checks. -/
def checkWarnings (options : CompileOptions) (p : Project) : List Diagnostic :=
  if options.strict then (checkProject options.sanitizer options.top p).warnings else []

/-- The warning that takes the place of pin constraints, when they cannot be written. -/
def skippedWarnings (options : CompileOptions) (p : Project) : List Diagnostic :=
  match (compilePins options.sanitizer p).result with
  | .ok _ => []
  | .error e => [pinsSkippedWarning e]

/-- The results of a compilation with the given text of the circuit, put together from its parts. -/
def artifactsOf (source : String) (options : CompileOptions) (p : Project) (verilog : String) :
    Artifacts :=
  let pcf := (compilePins options.sanitizer p).result.toOption
  { verilog
    pcf
    warnings := checkWarnings options p ++ skippedWarnings options p
    provenance := .compute source options.top verilog pcf }

/-! ## Results of parts -/

section
variable {ε δ α : Type} {r : Except ε α}

theorem mapError_eq_ok_iff {f : ε → δ} {a : α} : r.mapError f = .ok a ↔ r = .ok a := by
  cases r <;> simp [Except.mapError]

theorem mapError_eq_error_iff {f : ε → δ} {e : δ} :
    r.mapError f = .error e ↔ ∃ fault, r = .error fault ∧ e = f fault := by
  cases r <;> simp [Except.mapError, eq_comm]

end

/-! ## The stages -/

theorem result_checkPass :
    (checkPass options p).result =
      firstErrorOr (if options.strict then (checkProject options.sanitizer options.top p).errors
        else []) (checkWarnings options p) := by
  rw [checkPass, checkWarnings]
  split
  · rw [Logged.result_bind]
    show ((checkProject options.sanitizer options.top p).toExcept >>= fun warnings =>
      .ok warnings) = _
    rw [toExcept_eq_firstErrorOr]
    exact firstErrorOr_bind_ok _
  · rfl

/-- Writing a project after the checks is compiling it with checks. -/
theorem result_checkPass_bind {α : Type} (f : List Diagnostic → String → α) :
    ((checkPass options p).result >>= fun warnings =>
        (compileCircuit options.sanitizer false options.top p).result >>= fun verilog =>
          .ok (f warnings verilog)) =
      (compileCircuit options.sanitizer options.strict options.top p).result >>= fun verilog =>
        .ok (f (checkWarnings options p) verilog) := by
  rw [result_checkPass]
  cases hstrict : options.strict with
  | false => rfl
  | true =>
    rw [if_pos rfl, result_compileCircuit_lenient, result_compileCircuit_strict]
    cases (checkProject options.sanitizer options.top p).errors with
    | nil => rfl
    | cons e errors => rfl

/-- The pin constraints never stop the work: they can only lack a pin, and that is a warning. -/
theorem result_pinsPass :
    (pinsPass options p).result =
      .ok ((compilePins options.sanitizer p).result.toOption, skippedWarnings options p) := by
  rw [pinsPass, skippedWarnings]
  cases hpins : (compilePins options.sanitizer p).result with
  | ok text => rfl
  | error e =>
    obtain ⟨block, rfl⟩ := eq_missingPin_of_compilePins hpins
    rfl

/-- The whole work is loading the document, and then compiling its circuit. -/
theorem result_compileProject :
    (compileProject source options).result = do
      let p ← (Project.ofText source).mapError LoadError.toCompileError
      let verilog ← (compileCircuit options.sanitizer options.strict options.top p).result
      return artifactsOf source options p verilog := by
  rw [compileProject, Logged.result_bind]
  refine congrArg _ (funext fun p => ?_)
  simp only [Logged.result_bind, result_pinsPass]
  exact result_checkPass_bind _

/-! ## Results and errors -/

/-- Results that are those of the parts: the text of the circuit; the pin constraints, if they can
be written; the warnings of the checks, and after them one that the pin constraints are missing, if
they are; and the record of where all this comes from. -/
structure Artifacts.AreOf (source : String) (options : CompileOptions) (p : Project)
    (a : Artifacts) : Prop where
  verilog : (compileCircuit options.sanitizer options.strict options.top p).result = .ok a.verilog
  pcf : ∀ text, a.pcf = some text ↔ (compilePins options.sanitizer p).result = .ok text
  warnings : a.warnings = checkWarnings options p ++ skippedWarnings options p
  skipped : (skippedWarnings options p).map (·.code) =
    if a.pcf = none then [some .pinsSkipped] else []
  provenance : a.provenance = .compute source options.top a.verilog a.pcf
  pcfHash : a.provenance.pcfHash = none ↔ a.pcf = none

/-- The results of the whole work are those of the parts, and nothing else is. -/
theorem areOf_iff {a : Artifacts} :
    a.AreOf source options p ↔
      ∃ verilog, (compileCircuit options.sanitizer options.strict options.top p).result =
        .ok verilog ∧ artifactsOf source options p verilog = a := by
  constructor
  · intro h
    refine ⟨a.verilog, h.verilog, ?_⟩
    have hpcf : (compilePins options.sanitizer p).result.toOption = a.pcf :=
      Option.ext fun text => toOption_eq_some_iff.trans (h.pcf text).symm
    obtain ⟨verilog, pcf, warnings, provenance⟩ := a
    rw [artifactsOf, hpcf, ← h.warnings, ← h.provenance]
  · rintro ⟨verilog, hverilog, rfl⟩
    refine ⟨hverilog, fun text => toOption_eq_some_iff, rfl, ?_, rfl, ?_⟩
    · rw [skippedWarnings, artifactsOf]
      cases (compilePins options.sanitizer p).result <;> rfl
    · exact Option.map_eq_none_iff

/-- The whole work yields the results of the parts. -/
theorem compileProject_eq_ok_iff {a : Artifacts} :
    (compileProject source options).result = .ok a ↔
      ∃ p, Project.ofText source = .ok p ∧ a.AreOf source options p := by
  simp only [result_compileProject, bind_eq_ok_iff, mapError_eq_ok_iff, areOf_iff, pure,
    Except.pure, Except.ok.injEq]

/-- The whole work fails where one of the parts does, except for the pin constraints. -/
theorem compileProject_eq_error_iff {e : CompileError} :
    (compileProject source options).result = .error e ↔
      (∃ fault, Project.ofText source = .error fault ∧ e = fault.toCompileError) ∨
        ∃ p, Project.ofText source = .ok p ∧
          (compileCircuit options.sanitizer options.strict options.top p).result = .error e := by
  simp only [result_compileProject, bind_eq_error_iff, mapError_eq_error_iff, mapError_eq_ok_iff,
    pure, Except.pure, reduceCtorEq, and_false, exists_false, or_false]

theorem isStructural_of_compileProject {e : CompileError}
    (h : (compileProject source options).result = .error e) : e.isStructural = true := by
  rcases compileProject_eq_error_iff.1 h with ⟨fault, -, rfl⟩ | ⟨p, -, hcircuit⟩
  · rfl
  · exact Check.isStructural_of_mem_errors (mem_errors_of_compileCircuit hcircuit)

/-- Compiling a document fails exactly when the document cannot be loaded, or the circuit of the
project cannot be compiled, and then with the same error; it never fails for want of a pin.
Otherwise it yields the results of the parts. -/
theorem compileProject_eq_parts (source : String) (options : CompileOptions) :
    (∀ e, (compileProject source options).result = .error e ↔
      (∃ fault, Project.ofText source = .error fault ∧ e = fault.toCompileError) ∨
        ∃ p, Project.ofText source = .ok p ∧
          (compileCircuit options.sanitizer options.strict options.top p).result = .error e) ∧
    (∀ block, (compileProject source options).result ≠ .error (.missingPin block)) ∧
    ∀ a, (compileProject source options).result = .ok a ↔
      ∃ p, Project.ofText source = .ok p ∧ a.AreOf source options p := by
  refine ⟨fun e => compileProject_eq_error_iff, ?_, fun a => compileProject_eq_ok_iff⟩
  intro block hpin
  exact Bool.false_ne_true (isStructural_of_compileProject hpin)

end BlockCircuit
