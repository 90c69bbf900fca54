import BlockCircuit.Proofs.Check.Ends

/-!
# Every violation is reported once

The checks scan a circuit four times: for ids that are used again, for types without a definition,
for code blocks beside each other, and for ends of wires. A circuit may have many violations of all
these kinds at once. Each of them gives one error of its own, none hides or repeats another, and the
errors are in the order of the scans.

* `Graph.FirstIs`, `BadEnd` — the block at an end of a wire, and what can be wrong there;
* `Violation`, `Violation.Before` — the places where a circuit can be wrong, in their order;
* `Violates` — what is wrong at a place, and the error about it, without the scans;
* `errors_visit_eq_violations` — the errors about a circuit are those of its violations, in order.
-/

namespace BlockCircuit

open Check (Side EndProblem)

/-! ## The block at an end -/

namespace Graph

variable {g : Graph} {id : String} {b : Block}

/-- The first block with this id is of this kind. -/
def FirstIs (g : Graph) (id : String) (kind : BlockKind) : Prop :=
  ∃ front back, g.blocks = front ++ ⟨id, kind⟩ :: back ∧ ∀ b ∈ front, b.id ≠ id

theorem block?_eq_none_iff : g.block? id = none ↔ ∀ b ∈ g.blocks, b.id ≠ id := by
  simp [block?, List.find?_eq_none]

theorem block?_eq_some_iff_firstIs : g.block? id = some b ↔ b.id = id ∧ g.FirstIs id b.kind := by
  rw [block?, List.find?_eq_some_iff_append, beq_iff_eq]
  constructor
  · rintro ⟨rfl, front, back, hblocks, hfront⟩
    exact ⟨rfl, front, back, hblocks, by simpa using hfront⟩
  · rintro ⟨rfl, front, back, hblocks, hfront⟩
    exact ⟨rfl, front, back, hblocks, by simpa using hfront⟩

theorem FirstIs.block?_eq {kind : BlockKind} (h : g.FirstIs id kind) :
    g.block? id = some ⟨id, kind⟩ :=
  block?_eq_some_iff_firstIs.2 ⟨rfl, h⟩

end Graph

namespace Check

variable {s : Sanitizer} {circuit : String} {p : Project}

/-- What is wrong with an end of a wire at a port. Nothing is said about a block whose type has no
definition. -/
inductive BadEnd (s : Sanitizer) (p : Project) (place : Endpoint) : Side → EndProblem → Prop
  | unknownBlock {side : Side} : (∀ b ∈ p.graph.blocks, b.id ≠ place.block) →
      BadEnd s p place side (.unknownBlock place.block)
  | inputAsTarget {pin : Option Pin} : p.graph.FirstIs place.block (.input pin) →
      BadEnd s p place .target (.inputAsTarget place.block)
  | outputAsSource {pin : Option Pin} : p.graph.FirstIs place.block (.output pin) →
      BadEnd s p place .source (.outputAsSource place.block)
  | code {side : Side} {ports : Ports} {text : String} :
      p.graph.FirstIs place.block (.code ports text) → s.ident place.port ∉ side.ports ports →
      BadEnd s p place side (.undeclaredPort place.port place.block side)
  | compound {side : Side} {t : String} {dep : Project} :
      p.graph.FirstIs place.block (.compound t) → p.deps.lookup t = some dep →
      s.ident place.port ∉ side.ports (dep.graph.ports s) →
      BadEnd s p place side (.undeclaredPort place.port place.block side)

/-- An end at a block with a list of ports is refused when the port is not in the list. -/
theorem endProblem?_of_firstIs {place : Endpoint} {side : Side} {kind : BlockKind} {ports : Ports}
    (hfirst : p.graph.FirstIs place.block kind) (hports : portsOf? s p.deps kind = some ports) :
    endProblem? s p.deps p.graph place side = if s.ident place.port ∈ side.ports ports then none
      else some (.undeclaredPort place.port place.block side) := by
  rw [endProblem?, hfirst.block?_eq]
  exact portProblem?_of_ports hports

theorem portsOf?_compound {t : String} {dep : Project} (hdep : p.deps.lookup t = some dep) :
    portsOf? s p.deps (.compound t) = some (dep.graph.ports s) := by
  rw [portsOf?, hdep]
  rfl

/-- An end at a block whose type has no definition is not refused. -/
theorem endProblem?_of_undefined {place : Endpoint} {side : Side} {t : String}
    (hfirst : p.graph.FirstIs place.block (.compound t)) (hdep : p.deps.lookup t = none) :
    endProblem? s p.deps p.graph place side = none := by
  rw [endProblem?, hfirst.block?_eq]
  cases side <;> simp [portProblem?, portsOf?, hdep]

/-- The checks refuse an end for just one reason, and only for a reason there is. -/
theorem endProblem?_eq_some_iff {place : Endpoint} {side : Side} {problem : EndProblem} :
    endProblem? s p.deps p.graph place side = some problem ↔ BadEnd s p place side problem := by
  constructor
  · intro h
    cases hb : p.graph.block? place.block with
    | none =>
      rw [endProblem?, hb] at h
      cases h
      exact .unknownBlock (Graph.block?_eq_none_iff.1 hb)
    | some b =>
      obtain ⟨hid, hfirst⟩ := Graph.block?_eq_some_iff_firstIs.1 hb
      obtain ⟨id, kind⟩ := b
      cases hid
      cases kind with
      | input pin =>
        rw [endProblem?, hb] at h
        cases side <;> cases h
        exact .inputAsTarget hfirst
      | output pin =>
        rw [endProblem?, hb] at h
        cases side <;> cases h
        exact .outputAsSource hfirst
      | code ports text =>
        rw [endProblem?_of_firstIs hfirst rfl, Option.ite_none_left_eq_some] at h
        cases h.2
        exact .code hfirst h.1
      | compound t =>
        cases hdep : p.deps.lookup t with
        | none => cases h.symm.trans (endProblem?_of_undefined hfirst hdep)
        | some dep =>
          rw [endProblem?_of_firstIs hfirst (portsOf?_compound hdep), Option.ite_none_left_eq_some] at h
          cases h.2
          exact .compound hfirst hdep h.1
  · intro h
    cases h with
    | unknownBlock hnone => rw [endProblem?, Graph.block?_eq_none_iff.2 hnone]
    | inputAsTarget hfirst =>
      rw [endProblem?, hfirst.block?_eq]
      rfl
    | outputAsSource hfirst =>
      rw [endProblem?, hfirst.block?_eq]
      rfl
    | code hfirst hport => rw [endProblem?_of_firstIs hfirst rfl, if_neg hport]
    | compound hfirst hdep hport =>
      rw [endProblem?_of_firstIs hfirst (portsOf?_compound hdep), if_neg hport]

/-! ## Violations -/

/-- A place where a circuit can be wrong. -/
inductive Violation where
  /-- The block at this place has the id of an earlier one. -/
  | repeatedId (place : Nat)
  /-- The block at this place has a type without a definition. -/
  | undefinedType (place : Nat)
  /-- There are several code blocks. -/
  | repeatedCode
  /-- The wire with this number cannot end where it does on this side. -/
  | badEnd (net : Nat) (side : Side)
deriving DecidableEq, Repr

/-- The order of errors: first ids and then types, block by block, then code blocks, and in the end
wires by their numbers, the source of a wire before its target. -/
def Violation.Before : Violation → Violation → Prop
  | repeatedId i, repeatedId j => i < j
  | repeatedId _, _ => True
  | undefinedType _, repeatedId _ => False
  | undefinedType i, undefinedType j => i < j
  | undefinedType _, _ => True
  | repeatedCode, badEnd _ _ => True
  | repeatedCode, _ => False
  | badEnd m side, badEnd n other => m < n ∨ m = n ∧ side = .source ∧ other = .target
  | badEnd _ _, _ => False

theorem Violation.Before.ne {v w : Violation} (h : v.Before w) : v ≠ w := by
  rintro rfl
  cases v with
  | repeatedId i => exact Nat.lt_irrefl i h
  | undefinedType i => exact Nat.lt_irrefl i h
  | repeatedCode => exact h
  | badEnd net side =>
    rcases h with h | ⟨-, hsource, htarget⟩
    · exact Nat.lt_irrefl net h
    · cases hsource.symm.trans htarget

/-- What is wrong at a place of the circuit of a project, and the error about it. -/
inductive Violates (s : Sanitizer) (circuit : String) (p : Project) :
    Violation → CompileError → Prop
  | repeatedId {i j : Nat} {b c : Block} : p.graph.blocks[i]? = some b → j < i →
      p.graph.blocks[j]? = some c → c.id = b.id →
      Violates s circuit p (.repeatedId i) (.duplicateBlockId circuit b.id)
  | undefinedType {i : Nat} {id t : String} : p.graph.blocks[i]? = some ⟨id, .compound t⟩ →
      t ∉ p.deps.map Prod.fst →
      Violates s circuit p (.undefinedType i) (.unresolvedType circuit id t)
  | repeatedCode : 2 ≤ p.graph.blocks.countP (·.kind.isCode) →
      Violates s circuit p .repeatedCode (.duplicateModule (s.childName circuit codeType))
  | badEnd {net : Nat} {w : Wire} {side : Side} {problem : EndProblem} :
      p.graph.wires[net]? = some w → BadEnd s p (w.endAt side) side problem →
      Violates s circuit p (.badEnd net side) (.danglingWire circuit net problem.text)

/-! ## Scans -/

section Scans

variable {α : Type} {xs : List α} {place : α → Violation} {error? : α → Option CompileError}

/-- What a scan reports, each error with the place that it is about. -/
def reports (place : α → Violation) (error? : α → Option CompileError) (xs : List α) :
    List (Violation × CompileError) :=
  xs.filterMap fun x => (error? x).map (place x, ·)

theorem map_snd_reports : (reports place error? xs).map Prod.snd = xs.filterMap error? := by
  rw [reports, List.map_filterMap]
  refine List.filterMap_congr fun x _ => ?_
  rw [Option.map_map]
  exact Option.map_id'

theorem mem_reports_iff {v : Violation} {e : CompileError} :
    (v, e) ∈ reports place error? xs ↔ ∃ x ∈ xs, place x = v ∧ error? x = some e := by
  rw [reports, List.mem_filterMap]
  constructor
  · rintro ⟨x, hx, h⟩
    obtain ⟨e', he, hpair⟩ := Option.map_eq_some_iff.1 h
    cases hpair
    exact ⟨x, hx, rfl, he⟩
  · rintro ⟨x, hx, rfl, he⟩
    exact ⟨x, hx, by rw [he]; rfl⟩

theorem pairwise_reports (h : xs.Pairwise fun x y => (place x).Before (place y)) :
    (reports place error? xs).Pairwise fun v w => v.1.Before w.1 := by
  refine List.pairwise_filterMap.2 (h.imp fun {x y} hxy v hv w hw => ?_)
  obtain ⟨_, -, rfl⟩ := Option.map_eq_some_iff.1 hv
  obtain ⟨_, -, rfl⟩ := Option.map_eq_some_iff.1 hw
  exact hxy

end Scans

/-- What is repeated in a list is what stands before its place, or was seen before the list. -/
theorem repeated_eq_filterMap (seen xs : List String) :
    repeated seen xs = xs.zipIdx.filterMap fun x =>
      if x.1 ∈ seen ∨ x.1 ∈ xs.take x.2 then some x.1 else none := by
  induction xs generalizing seen with
  | nil => rfl
  | cons x xs ih =>
    -- Behind the first member, that one has been seen.
    have hrest : ∀ seen', (∀ y, y ∈ seen' ↔ y ∈ seen ∨ y = x) → repeated seen' xs =
        (xs.zipIdx 1).filterMap fun y =>
          if y.1 ∈ seen ∨ y.1 ∈ (x :: xs).take y.2 then some y.1 else none := by
      intro seen' hseen
      rw [ih, List.zipIdx_succ, List.filterMap_map]
      refine List.filterMap_congr fun y _ => ?_
      simp [hseen, or_assoc]
    rw [repeated, List.zipIdx_cons, List.filterMap_cons, List.take_zero]
    by_cases hx : x ∈ seen
    · rw [if_pos hx, if_pos (Or.inl hx), hrest]
      intro y
      exact ⟨Or.inl, fun h => h.elim id fun h => h ▸ hx⟩
    · rw [if_neg hx, if_neg (not_or.2 ⟨hx, List.not_mem_nil⟩), hrest]
      intro y
      rw [List.mem_cons, or_comm]

/-- The error about the block at a place, if an earlier block has its id. -/
def repeatedId? (circuit : String) (g : Graph) (b : Block × Nat) : Option CompileError :=
  if b.1.id ∈ (g.blocks.take b.2).map (·.id) then some (.duplicateBlockId circuit b.1.id) else none

theorem repeatedIds_eq (circuit : String) (g : Graph) :
    (repeated [] (g.blocks.map (·.id))).map (.duplicateBlockId circuit) =
      g.blocks.zipIdx.filterMap (repeatedId? circuit g) := by
  rw [repeated_eq_filterMap, List.zipIdx_map, List.filterMap_map, List.map_filterMap]
  refine List.filterMap_congr fun b _ => ?_
  simp only [repeatedId?, Function.comp, Prod.map, List.not_mem_nil, false_or, List.map_take, id]
  split <;> rfl

/-! ## The violations of a circuit -/

/-- What the four scans report, with the places. -/
def violations (s : Sanitizer) (circuit : String) (p : Project) : List (Violation × CompileError) :=
  reports (.repeatedId ·.2) (repeatedId? circuit p.graph) p.graph.blocks.zipIdx
    ++ reports (.undefinedType ·.2) (typeError? circuit p.deps ·.1) p.graph.blocks.zipIdx
    ++ reports (fun _ => .repeatedCode) some (codeErrors s circuit p.graph)
    ++ reports (fun e => .badEnd e.net e.side) (endError? s circuit p) p.graph.ends

/-- Without the places these are the errors of the checks. -/
theorem map_snd_violations (s : Sanitizer) (circuit : String) (p : Project) :
    (violations s circuit p).map Prod.snd = (graphReport s circuit p.deps p.graph).errors := by
  have htypes : p.graph.blocks.zipIdx.filterMap (typeError? circuit p.deps ·.1) =
      p.graph.blocks.filterMap (typeError? circuit p.deps) := by
    conv_rhs => rw [← List.zipIdx_map_fst 0 p.graph.blocks, List.filterMap_map]
    rfl
  rw [violations, List.map_append, List.map_append, List.map_append, map_snd_reports,
    map_snd_reports, map_snd_reports, map_snd_reports, ← repeatedIds_eq, htypes,
    List.filterMap_some, ← wireErrors_eq_filterMap_ends, graphReport]

theorem pairwise_zipIdx {α : Type} (xs : List α) : xs.zipIdx.Pairwise fun x y => x.2 < y.2 := by
  apply List.pairwise_map.1
  rw [List.zipIdx_map_snd]
  exact List.pairwise_lt_range'

/-- The ends of wires are listed by number, the source of a wire before its target. -/
theorem pairwise_ends (g : Graph) :
    g.ends.Pairwise fun e f => (Violation.badEnd e.net e.side).Before (.badEnd f.net f.side) := by
  rw [Graph.ends, List.pairwise_flatMap]
  constructor
  · rintro ⟨w, net⟩ -
    simp [Violation.Before]
  · refine (pairwise_zipIdx g.wires).imp ?_
    rintro ⟨w, m⟩ ⟨v, n⟩ hmn e he f hf
    have hnet : e.net = m ∧ f.net = n := by
      simp only [List.mem_cons, List.not_mem_nil, or_false] at he hf
      rcases he with rfl | rfl <;> rcases hf with rfl | rfl <;> exact ⟨rfl, rfl⟩
    exact .inl (hnet.1 ▸ hnet.2 ▸ hmn)

theorem pairwise_violations (s : Sanitizer) (circuit : String) (p : Project) :
    (violations s circuit p).Pairwise fun v w => v.1.Before w.1 := by
  have hblocks := pairwise_zipIdx p.graph.blocks
  have hcode : (codeErrors s circuit p.graph).Pairwise
      fun _ _ => Violation.repeatedCode.Before .repeatedCode := by
    rw [codeErrors]
    split
    · exact List.pairwise_singleton _ _
    · exact .nil
  rw [violations, List.pairwise_append, List.pairwise_append, List.pairwise_append]
  refine ⟨⟨⟨pairwise_reports hblocks, pairwise_reports hblocks, ?types⟩, pairwise_reports hcode,
    ?code⟩, pairwise_reports (pairwise_ends p.graph), ?ends⟩
  -- Of two scans, every place of the first is before every place of the second.
  all_goals
    rintro ⟨v, e⟩ hv ⟨w, f⟩ hw
    simp only [List.mem_append, mem_reports_iff] at hv hw
    obtain ⟨y, -, rfl, -⟩ := hw
  case types =>
    obtain ⟨x, -, rfl, -⟩ := hv
    trivial
  case code => rcases hv with ⟨x, -, rfl, -⟩ | ⟨x, -, rfl, -⟩ <;> trivial
  case ends => rcases hv with (⟨x, -, rfl, -⟩ | ⟨x, -, rfl, -⟩) | ⟨x, -, rfl, -⟩ <;> trivial

/-! ### One scan after another -/

theorem repeatedId?_eq_some_iff {b : Block} {i : Nat} {e : CompileError} :
    repeatedId? circuit p.graph (b, i) = some e ↔
      (∃ j c, j < i ∧ p.graph.blocks[j]? = some c ∧ c.id = b.id) ∧
        e = .duplicateBlockId circuit b.id := by
  rw [repeatedId?, Option.ite_none_right_eq_some, Option.some.injEq, eq_comm (b := e)]
  refine and_congr_left fun _ => ?_
  rw [List.mem_map]
  constructor
  · rintro ⟨c, hc, hid⟩
    obtain ⟨j, hj⟩ := List.mem_iff_getElem?.1 hc
    rw [List.getElem?_take, Option.ite_none_right_eq_some] at hj
    exact ⟨j, c, hj.1, hj.2, hid⟩
  · rintro ⟨j, c, hlt, hc, hid⟩
    refine ⟨c, List.mem_iff_getElem?.2 ⟨j, ?_⟩, hid⟩
    rw [List.getElem?_take, if_pos hlt, hc]

theorem typeError?_eq_some_iff {b : Block} {e : CompileError} :
    typeError? circuit p.deps b = some e ↔ ∃ t, b.kind = .compound t ∧ t ∉ p.deps.map Prod.fst ∧
      e = .unresolvedType circuit b.id t := by
  obtain ⟨id, kind⟩ := b
  cases kind with
  | compound t =>
    rw [typeError?, Option.ite_none_left_eq_some, Project.lookup_isSome_iff, Option.some.injEq]
    constructor
    · rintro ⟨ht, rfl⟩
      exact ⟨t, rfl, ht, rfl⟩
    · rintro ⟨_, ⟨⟩, ht, rfl⟩
      exact ⟨ht, rfl⟩
  | input | output | code => simp [typeError?]

theorem mem_codeErrors_iff {e : CompileError} :
    e ∈ codeErrors s circuit p.graph ↔ 2 ≤ p.graph.blocks.countP (·.kind.isCode) ∧
      e = .duplicateModule (s.childName circuit codeType) := by
  rw [codeErrors, ← List.countP_eq_length_filter]
  split
  · rename_i h
    rw [List.mem_singleton]
    exact (and_iff_right h).symm
  · rename_i h
    exact iff_of_false List.not_mem_nil fun hcode => h hcode.1

theorem endError?_eq_some_iff {w : WireEnd} {e : CompileError} :
    endError? s circuit p w = some e ↔ ∃ problem, BadEnd s p w.place w.side problem ∧
      e = .danglingWire circuit w.net problem.text := by
  rw [endError?, Option.map_eq_some_iff]
  simp only [endProblem?_eq_some_iff, eq_comm (b := e)]

/-- The checks report all violations, and nothing else. -/
theorem mem_violations_iff {v : Violation} {e : CompileError} :
    (v, e) ∈ violations s circuit p ↔ Violates s circuit p v e := by
  simp only [violations, List.mem_append, mem_reports_iff, Prod.exists, Option.some.injEq,
    List.mk_mem_zipIdx_iff_getElem?, repeatedId?_eq_some_iff, typeError?_eq_some_iff,
    mem_codeErrors_iff, endError?_eq_some_iff]
  constructor
  · rintro (((⟨b, i, hb, rfl, ⟨j, c, hj, hc, hid⟩, rfl⟩ | ⟨b, i, hb, rfl, t, hkind, ht, rfl⟩) |
      ⟨_, ⟨hcode, rfl⟩, rfl, rfl⟩) | ⟨⟨net, side, place⟩, hend, rfl, problem, hbad, rfl⟩)
    · exact .repeatedId hb hj hc hid
    · obtain ⟨id, kind⟩ := b
      cases hkind
      exact .undefinedType hb ht
    · exact .repeatedCode hcode
    · obtain ⟨w, hw, rfl⟩ := Graph.mem_ends_iff.1 hend
      exact .badEnd hw hbad
  · intro h
    cases h with
    | @repeatedId i j b c hb hj hc hid =>
      exact .inl (.inl (.inl ⟨b, i, hb, rfl, ⟨j, c, hj, hc, hid⟩, rfl⟩))
    | @undefinedType i id t hb ht =>
      exact .inl (.inl (.inr ⟨_, i, hb, rfl, t, rfl, ht, rfl⟩))
    | repeatedCode hcode => exact .inl (.inr ⟨_, ⟨hcode, rfl⟩, rfl, rfl⟩)
    | @badEnd net w side problem hw hbad =>
      exact .inr ⟨⟨net, side, _⟩, Graph.mem_ends_iff.2 ⟨w, hw, rfl⟩, rfl, problem, hbad, rfl⟩

/-- The checks have nothing to say about an end at a block whose type has no definition. -/
theorem not_badEnd_of_undefined {place : Endpoint} {side : Side} {problem : EndProblem} {t : String}
    (hfirst : p.graph.FirstIs place.block (.compound t)) (ht : t ∉ p.deps.map Prod.fst) :
    ¬BadEnd s p place side problem := by
  intro hbad
  have hdep : p.deps.lookup t = none := by
    rw [← Option.not_isSome_iff_eq_none, Project.lookup_isSome_iff]
    exact ht
  cases (endProblem?_eq_some_iff.2 hbad).symm.trans (endProblem?_of_undefined hfirst hdep)

/-- The errors about the circuit of a project come after those about its dependencies. They are the
errors of its violations, of each violation once, in order: ids that are used again and then types
without a definition, block by block, code blocks beside each other, and then ends of wires by the
number of the wire, its source first. The violations are all there are, whatever else is wrong, and
an end at a block whose type has no definition is none. -/
theorem errors_visit_eq_violations (s : Sanitizer) (circuit : String) (ancestors : List String)
    (p : Project) :
    ∃ found : List (Violation × CompileError),
      (visit s circuit ancestors p).errors =
          (visitDeps s circuit ancestors p.deps).errors ++ found.map Prod.snd ∧
        (found.Pairwise fun v w => v.1.Before w.1) ∧ (found.map Prod.fst).Nodup ∧
        (∀ v e, (v, e) ∈ found ↔ Violates s circuit p v e) ∧
        ∀ net w side t, p.graph.wires[net]? = some w →
          p.graph.FirstIs (w.endAt side).block (.compound t) → t ∉ p.deps.map Prod.fst →
            ∀ e, (.badEnd net side, e) ∉ found := by
  refine ⟨violations s circuit p, ?_, pairwise_violations s circuit p, ?_,
    fun _ _ => mem_violations_iff, ?_⟩
  · obtain ⟨g, deps⟩ := p
    rw [visit, CheckReport.errors_append, map_snd_violations]
  · exact List.pairwise_map.2 ((pairwise_violations s circuit p).imp Violation.Before.ne)
  · intro net w side t hw hfirst ht e he
    cases mem_violations_iff.1 he with
    | badEnd hv hbad =>
      cases hw.symm.trans hv
      exact not_badEnd_of_undefined hfirst ht hbad

end Check

/-- A circuit with violations of all kinds, one inside the other: the block that repeats an id also
has a type without a definition, and both ends of a wire are bad. -/
def Project.tangle : Project := .ofGraph {
  blocks := [.input "a", .code "c" ⟨["x"], ["y"]⟩ "assign y = x;", .compound "a" "plug",
    .code "c" ⟨[], ["z"]⟩ "assign z = 1;", .output "q", .compound "u" "socket"]
  wires := [⟨⟨"q", "out"⟩, ⟨"a", "in"⟩⟩, ⟨⟨"u", "y"⟩, ⟨"c", "x"⟩⟩, ⟨⟨"c", "z"⟩, ⟨"lamp", "in"⟩⟩] }

example : (Check.visit .sha1 "main" [] .tangle).errors = [.duplicateBlockId "main" "a",
    .duplicateBlockId "main" "c", .unresolvedType "main" "a" "plug",
    .unresolvedType "main" "u" "socket", .duplicateModule "main_vf83e2f",
    .danglingWire "main" 0 "output block `q` as a wire source",
    .danglingWire "main" 0 "input block `a` as a wire target",
    .danglingWire "main" 2 "port `z`, which block `c` does not declare as an output",
    .danglingWire "main" 2 "unknown block `lamp`"] := by
  decide +kernel

end BlockCircuit
