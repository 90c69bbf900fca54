import BlockCircuit.Proofs.Compilation.Accepted
import Mathlib.Data.List.Nodup

/-!
# Names in the module of a circuit

The module of a circuit declares its ports, the nets of its wires and its instances, all in one
scope. Ports and instances are called by the identifiers of their blocks, and nets by numbers. The
checks compare the ids of blocks, and these are not yet the names: the token of one id can be
another id, and an id can be the name of a net.

* `Module.declaredNames` — the names that a module declares;
* `declaredNames_perm` — these are the identifiers of all blocks and the names of all nets;
* `NamesApart` — what keeps them apart, beside distinct ids;
* `nodup_declaredNames_iff_of_strict` — in an accepted project, the names in the module of a circuit
  are distinct exactly when nothing of this kind happens; `repeated_names_of_homonym` shows a
  circuit in which both kinds do.
-/

namespace BlockCircuit

namespace Verilog

variable {s : Sanitizer} {g : Graph} {name text : String} {p : Project}

/-- The names that the content of a module declares. Text that was written by hand is not read. -/
def Content.declaredNames : Content → List String
  | .code _ => []
  | .circuit body => body.nets.map netName ++ body.instances.map (·.name)

/-- The names that a module declares: ports, nets and instances. -/
def Module.declaredNames (m : Module) : List String :=
  m.ports.inputs ++ m.ports.outputs ++ m.content.declaredNames

/-! ## Names of nets -/

theorem netName_injective : Function.Injective netName := by
  intro net other h
  have hlist : (netName net).toList = (netName other).toList := by rw [h]
  simp only [netName, String.toList_append] at hlist
  have hdigits : Nat.toDigits 10 net = Nat.toDigits 10 other := by
    rw [← Nat.toList_repr, ← Nat.toList_repr]
    exact List.append_cancel_left hlist
  calc net = Nat.ofDigitChars 10 (Nat.toDigits 10 net) 0 := Nat.ofDigitChars_ten_toDigits.symm
    _ = Nat.ofDigitChars 10 (Nat.toDigits 10 other) 0 := by rw [hdigits]
    _ = other := Nat.ofDigitChars_ten_toDigits

/-- The name of a net has no hyphen, so it stands for itself. -/
theorem hyphen_notMem_netName (net : Nat) : '-' ∉ (netName net).toList := by
  intro h
  rw [netName, String.toList_append, List.mem_append] at h
  rcases h with hw | hdigit
  · exact absurd hw (by decide)
  · have hmem : '-' ∈ Nat.toDigits 10 net := Nat.toList_repr ▸ hdigit
    have hisDigit := Nat.isDigit_of_mem_toDigits (by decide) (by decide) hmem
    exact absurd hisDigit (by decide)

/-- An identifier is the name of a net only if nothing had to be done for it: tokens begin with
another letter. -/
theorem ident_eq_netName_iff {id : String} {net : Nat} :
    s.ident id = netName net ↔ id = netName net := by
  constructor
  · intro h
    by_cases hid : '-' ∈ id.toList
    · have hlist : (s.token id).toList = (netName net).toList := by
        rw [← h, Sanitizer.ident_of_mem hid]
      simp [Sanitizer.token, netName] at hlist
    · rwa [Sanitizer.ident_of_notMem hid] at h
  · rintro rfl
    exact Sanitizer.ident_of_notMem (hyphen_notMem_netName net)

/-! ## The names of one circuit -/

/-- Ports and instances are called by the identifiers of all blocks. -/
theorem blockNames_perm (blocks : List Block) :
    (blocks.filterMap (Block.inputPort? s) ++ blocks.filterMap (Block.outputPort? s) ++
        (blocks.filter fun b => !b.isPort).map fun b => s.ident b.id).Perm
      (blocks.map fun b => s.ident b.id) := by
  induction blocks with
  | nil => simp
  | cons b blocks ih =>
    obtain ⟨id, kind⟩ := b
    cases kind with
    | input pin => exact ih.cons (s.ident id)
    | output pin => exact (List.perm_middle.append_right _).trans (ih.cons (s.ident id))
    | code ports text | compound t => exact List.perm_middle.trans (ih.cons (s.ident id))

/-- The names in the module of a circuit are those of its blocks and those of its nets. -/
theorem declaredNames_perm (s : Sanitizer) (name : String) (g : Graph) :
    (circuitModule s name g).declaredNames.Perm
      ((g.blocks.map fun b => s.ident b.id) ++ (List.range g.wires.length).map netName) := by
  have hblocks := blockNames_perm (s := s) g.blocks
  have hinstances : (bodyOf s name g).instances.map (·.name) =
      (g.blocks.filter fun b => !b.isPort).map fun b => s.ident b.id := by
    rw [bodyOf, List.map_map]
    rfl
  show ((g.ports s).inputs ++ (g.ports s).outputs ++
    ((List.range g.wires.length).map netName ++ (bodyOf s name g).instances.map (·.name))).Perm _
  rw [hinstances]
  refine (List.Perm.append_left _ List.perm_append_comm).trans ?_
  rw [← List.append_assoc]
  exact hblocks.append_right _

/-- What keeps the names in the module of a circuit apart, beside distinct ids of blocks. -/
structure NamesApart (s : Sanitizer) (g : Graph) : Prop where
  /-- No block is called like the net of a wire. -/
  nets : ∀ b ∈ g.blocks, ∀ net < g.wires.length, b.id ≠ netName net
  /-- The token that an id becomes is the identifier of no other block. -/
  tokens : ∀ b ∈ g.blocks, ∀ c ∈ g.blocks, '-' ∈ b.id.toList → s.token b.id = s.ident c.id → b = c

instance (s : Sanitizer) (g : Graph) : Decidable (NamesApart s g) :=
  decidable_of_iff
    ((∀ b ∈ g.blocks, ∀ net < g.wires.length, b.id ≠ netName net) ∧
      ∀ b ∈ g.blocks, ∀ c ∈ g.blocks, '-' ∈ b.id.toList → s.token b.id = s.ident c.id → b = c)
    ⟨fun h => ⟨h.1, h.2⟩, fun h => ⟨h.nets, h.tokens⟩⟩

/-- With distinct ids, identifiers are distinct unless a token is the identifier of another
block. -/
theorem ident_injOn_iff (hids : (g.blocks.map (·.id)).Nodup) :
    (∀ b ∈ g.blocks, ∀ c ∈ g.blocks, s.ident b.id = s.ident c.id → b = c) ↔
      ∀ b ∈ g.blocks, ∀ c ∈ g.blocks, '-' ∈ b.id.toList → s.token b.id = s.ident c.id → b = c := by
  constructor
  · intro h b hb c hc hhyphen htoken
    exact h b hb c hc ((Sanitizer.ident_of_mem hhyphen).trans htoken)
  · intro h b hb c hc hident
    by_cases hbid : '-' ∈ b.id.toList
    · exact h b hb c hc hbid ((Sanitizer.ident_of_mem hbid).symm.trans hident)
    · by_cases hcid : '-' ∈ c.id.toList
      · exact (h c hc b hb hcid ((Sanitizer.ident_of_mem hcid).symm.trans hident.symm)).symm
      · rw [Sanitizer.ident_of_notMem hbid, Sanitizer.ident_of_notMem hcid] at hident
        exact Check.eq_of_id_eq hids hb hc hident

/-- With distinct ids, the names in the module of a circuit are distinct exactly when they are kept
apart. -/
theorem nodup_declaredNames_iff (name : String) (hids : (g.blocks.map (·.id)).Nodup) :
    (circuitModule s name g).declaredNames.Nodup ↔ NamesApart s g := by
  have hnets : ((List.range g.wires.length).map netName).Nodup :=
    List.nodup_range.map netName_injective
  rw [(declaredNames_perm s name g).nodup_iff, List.nodup_append', and_iff_right hnets,
    List.nodup_map_iff_inj_on (List.Nodup.of_map _ hids), ident_injOn_iff hids]
  constructor
  · rintro ⟨htokens, hdisjoint⟩
    refine ⟨fun b hb net hnet hid => ?_, htokens⟩
    exact hdisjoint (List.mem_map_of_mem hb)
      (List.mem_map.2 ⟨net, List.mem_range.2 hnet, (ident_eq_netName_iff.2 hid).symm⟩)
  · intro h
    refine ⟨h.tokens, fun x hblock hnet => ?_⟩
    obtain ⟨b, hb, rfl⟩ := List.mem_map.1 hblock
    obtain ⟨net, hlt, hname⟩ := List.mem_map.1 hnet
    exact h.nets b hb net (List.mem_range.1 hlt) (ident_eq_netName_iff.1 hname.symm)

/-! ## Accepted projects -/

/-- In the text of an accepted project, the names that the module of a circuit declares are distinct
exactly when no block of the circuit is called like one of the nets, and no id becomes the token
that another block is called by. -/
theorem nodup_declaredNames_iff_of_strict
    (htext : (compileCircuit s true name p).result = .ok text) :
    ∃ modules, (emit s name [] p).result = .ok modules ∧ text = render modules ∧
      ∀ m ∈ modules, ∀ body, m.content = .circuit body →
        ∃ path q, p.Reaches path q ∧ m = circuitModule s (moduleName s name path) q.graph ∧
          (m.declaredNames.Nodup ↔ NamesApart s q.graph) := by
  obtain ⟨hok, rfl⟩ := compileCircuit_strict_eq_ok_iff.1 htext
  refine ⟨_, result_emit_of_isOk hok, rfl, fun m hm body hbody => ?_⟩
  obtain ⟨path, q, hq, rfl⟩ := exists_reaches_of_circuit hm hbody
  exact ⟨path, q, hq, rfl, nodup_declaredNames_iff _ (Check.wellFormed_of_isOk hok hq).ids⟩

/-- The module of a circuit with three wires, three ports and an instance. -/
theorem nodup_declaredNames_alarm :
    ∃ modules, (emit .sha1 "main" [] .alarm).result = .ok modules ∧
      circuitModule .sha1 "main" Project.alarm.graph ∈ modules ∧
        (circuitModule .sha1 "main" Project.alarm.graph).declaredNames.Nodup := by
  obtain ⟨modules, hemit, -, hnames⟩ := nodup_declaredNames_iff_of_strict compileCircuit_alarm
  have hmodules : treeModules .sha1 "main" .alarm = modules :=
    Except.ok.inj ((result_emit_of_isOk (by decide)).symm.trans hemit)
  have hm : circuitModule .sha1 "main" Project.alarm.graph ∈ modules :=
    hmodules ▸ circuitModule_mem_of_reaches (.here _)
  obtain ⟨path, q, hq, hcircuit, hiff⟩ := hnames _ hm _ rfl
  have hapart : ∀ path q, Project.alarm.Reaches path q → NamesApart .sha1 q.graph := by
    decide +kernel
  exact ⟨modules, hemit, hm, hiff.2 (hapart path q hq)⟩

end Verilog

/-- A circuit with an input that is called like the net of its wire, and with two outputs of which
one is called by the token of the other. -/
def Project.homonym : Project := .ofGraph {
  blocks := [.input "w0", .output "a-b", .output "v34fafd"]
  wires := [⟨⟨"w0", "out"⟩, ⟨"a-b", "in"⟩⟩] }

namespace Verilog

/-- The checks accept it, and its module declares two names twice. -/
theorem repeated_names_of_homonym :
    (checkProject .sha1 "main" .homonym).isOk = true ∧
      ∃ text modules, (compileCircuit .sha1 true "main" .homonym).result = .ok text ∧
        (emit .sha1 "main" [] .homonym).result = .ok modules ∧ text = render modules ∧
          ∃ m ∈ written modules, m.content = .circuit (bodyOf .sha1 "main" Project.homonym.graph) ∧
            m.declaredNames = ["w0", "v34fafd", "v34fafd", "w0"] ∧ ¬m.declaredNames.Nodup := by
  have hok : (checkProject .sha1 "main" .homonym).isOk = true := by decide
  have hnames : (circuitModule .sha1 "main" Project.homonym.graph).declaredNames =
      ["w0", "v34fafd", "v34fafd", "w0"] := by decide +kernel
  refine ⟨hok, _, _, compileCircuit_strict_eq_ok_iff.2 ⟨hok, rfl⟩, result_emit_of_isOk hok, rfl,
    circuitModule .sha1 "main" Project.homonym.graph, by decide +kernel, rfl, hnames, ?_⟩
  rw [hnames]
  decide

end Verilog

end BlockCircuit
