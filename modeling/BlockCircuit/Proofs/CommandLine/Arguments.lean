import BlockCircuit.CommandLine.Arguments

/-!
# How a command line is read

Reading takes one argument, or an option and its value, at a time, and goes on with what has been
given so far.

* `Reads` — a command line that asks for a project to be compiled, argument by argument;
* `readArguments_eq_some_run_iff` — these are the command lines that are read so;
* `length_of_readPlain` — after the end of the options there is just what is missing.
-/

namespace BlockCircuit.CommandLine

variable {g g' : Given} {i : Invocation} {r : Request} {args : List String}

/-! ## One argument -/

section
variable {argument next path value : String} {setting : Setting} {flag : Flag}

theorem readArguments_rest (hclass : classify argument = .endOfOptions) :
    readArguments g (argument :: args) = readPlain g args := by
  rw [readArguments.eq_def]
  simp only [hclass]

theorem readArguments_attached (hclass : classify argument = .setting setting (some value)) :
    readArguments g (argument :: args) =
      (g.set setting value).bind fun g => readArguments g args := by
  rw [readArguments.eq_def]
  simp only [hclass, Option.bind_eq_bind]

theorem readArguments_separate (hclass : classify argument = .setting setting none)
    (hnext : classify next = .plain value) :
    readArguments g (argument :: next :: args) =
      (g.set setting value).bind fun g => readArguments g args := by
  rw [readArguments.eq_def]
  simp only [hclass, hnext, Option.bind_eq_bind]

theorem readArguments_flag (hclass : classify argument = .flag flag) :
    readArguments g (argument :: args) = (g.raise flag).bind fun g => readArguments g args := by
  rw [readArguments.eq_def]
  simp only [hclass, Option.bind_eq_bind]

theorem readArguments_path (hclass : classify argument = .plain path) :
    readArguments g (argument :: args) = (g.setProject path).bind fun g => readArguments g args := by
  rw [readArguments.eq_def]
  simp only [hclass, Option.bind_eq_bind]

end

/-! ## All arguments -/

/-- The arguments ask for a project to be compiled, when some have been read already. -/
inductive Reads : Given → List String → Invocation → Prop
  | finish {g : Given} {i : Invocation} : g.finish = some (.run i) → Reads g [] i
  | rest {g : Given} {i : Invocation} {argument : String} {args : List String} :
      classify argument = .endOfOptions → readPlain g args = some (.run i) →
        Reads g (argument :: args) i
  | attached {g g' : Given} {i : Invocation} {argument value : String} {args : List String}
      {setting : Setting} :
      classify argument = .setting setting (some value) → g.set setting value = some g' →
        Reads g' args i → Reads g (argument :: args) i
  | separate {g g' : Given} {i : Invocation} {argument next value : String} {args : List String}
      {setting : Setting} :
      classify argument = .setting setting none → classify next = .plain value →
        g.set setting value = some g' → Reads g' args i → Reads g (argument :: next :: args) i
  | flag {g g' : Given} {i : Invocation} {argument : String} {args : List String} {flag : Flag} :
      classify argument = .flag flag → g.raise flag = some g' → Reads g' args i →
        Reads g (argument :: args) i
  | path {g g' : Given} {i : Invocation} {argument path : String} {args : List String} :
      classify argument = .plain path → g.setProject path = some g' → Reads g' args i →
        Reads g (argument :: args) i

theorem reads_of_readArguments (h : readArguments g args = some (.run i)) : Reads g args i := by
  fun_induction readArguments g args with
  | case1 g => exact .finish h
  | case2 g argument args hclass => exact .rest hclass h
  | case3 g argument setting value args hclass ih =>
    obtain ⟨g', hset, h⟩ := Option.bind_eq_some_iff.1 h
    exact .attached hclass hset (ih g' h)
  | case4 => cases h
  | case5 g argument setting next args hclass value hnext ih =>
    obtain ⟨g', hset, h⟩ := Option.bind_eq_some_iff.1 h
    exact .separate hclass hnext hset (ih g' h)
  | case6 => cases h
  | case7 g argument flag args hclass ih =>
    obtain ⟨g', hraise, h⟩ := Option.bind_eq_some_iff.1 h
    exact .flag hclass hraise (ih g' h)
  | case8 => cases h
  | case9 => cases h
  | case10 => cases h
  | case11 g argument path args hclass ih =>
    obtain ⟨g', hset, h⟩ := Option.bind_eq_some_iff.1 h
    exact .path hclass hset (ih g' h)

theorem Reads.readArguments_eq (h : Reads g args i) : readArguments g args = some (.run i) := by
  induction h with
  | finish hfinish => exact hfinish
  | rest hclass hrest => rw [readArguments_rest hclass, hrest]
  | attached hclass hset _ ih => rw [readArguments_attached hclass, hset, Option.bind_some, ih]
  | separate hclass hnext hset _ ih =>
    rw [readArguments_separate hclass hnext, hset, Option.bind_some, ih]
  | flag hclass hraise _ ih => rw [readArguments_flag hclass, hraise, Option.bind_some, ih]
  | path hclass hset _ ih => rw [readArguments_path hclass, hset, Option.bind_some, ih]

theorem readArguments_eq_some_run_iff : readArguments g args = some (.run i) ↔ Reads g args i :=
  ⟨reads_of_readArguments, Reads.readArguments_eq⟩

/-- After the end of the options one path is missing, or none. -/
theorem length_of_readPlain (h : readPlain g args = some r) :
    g.project.toList.length + args.length = 1 := by
  induction args generalizing g with
  | nil =>
    obtain ⟨project, hproject, -⟩ := Option.map_eq_some_iff.1 h
    rw [hproject]
    rfl
  | cons path args ih =>
    obtain ⟨g', hset, h⟩ := Option.bind_eq_some_iff.1 h
    have hlength := ih h
    rw [Given.setProject] at hset
    split at hset
    · cases hset
    · rename_i hnone
      rw [not_or, Bool.not_eq_true, Option.isSome_eq_false_iff, Option.isNone_iff_eq_none] at hnone
      cases hset
      rw [hnone.1]
      simp at hlength ⊢
      omega

end BlockCircuit.CommandLine
