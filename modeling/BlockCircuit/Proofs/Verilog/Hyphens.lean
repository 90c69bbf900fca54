import BlockCircuit.Proofs.Check.Ends
import BlockCircuit.Proofs.Verilog.Connections

/-!
# Hyphens in the text

An identifier must not have a hyphen, and names with one are replaced by tokens on the way into the
text. Two kinds of names do not go this way: the name of the outermost module, with which the names
of all modules begin, and the ports of code, which its module declares as they are written.

* `hyphenless_token_sha1` — tokens have no hyphen;
* `Module.moduleNames`, `Module.localNames` — the names that stand in the text of a module;
* `Module.hyphenless_text_iff` — a module has a hyphen in its text only in these names, or in text that
  was written by hand;
* `exists_moduleName_eq_append` — what follows the outermost name in the name of a module;
* `hyphenless_of_mem_localNames` — all other names in the module of a circuit;
* `hyphens_of_strict` — the names with a hyphen in the text of an accepted project;
  `hyphens_of_jack` shows both kinds.
-/

namespace BlockCircuit

/-- A text has no hyphen. -/
def Hyphenless (text : String) : Prop := '-' ∉ text.toList

instance : DecidablePred Hyphenless := fun text => inferInstanceAs (Decidable ('-' ∉ text.toList))

/-! ## Characters of texts -/

section
variable {x y sep : String} {xs : List String}

@[simp] theorem hyphenless_append : Hyphenless (x ++ y) ↔ Hyphenless x ∧ Hyphenless y := by
  simp [Hyphenless, not_or]

@[simp] theorem hyphenless_join : Hyphenless (String.join xs) ↔ ∀ x ∈ xs, Hyphenless x := by
  simp [Hyphenless, String.toList_join]

/-- Texts with something between each two that has no hyphen. -/
theorem hyphenless_intercalate (hsep : Hyphenless sep) :
    Hyphenless (sep.intercalate xs) ↔ ∀ x ∈ xs, Hyphenless x := by
  induction xs with
  | nil => simp [Hyphenless]
  | cons x xs ih =>
    cases xs with
    | nil => simp
    | cons y ys =>
      rw [String.intercalate_cons_cons, hyphenless_append, hyphenless_append, ih,
        List.forall_mem_cons (l := y :: ys), and_iff_left hsep]

end

namespace Text

variable {c sep : Char} {cs : List Char} {ps : List (List Char)}

/-- Other characters than the separator stand in the pieces. -/
theorem mem_joinPieces_iff (hc : c ≠ sep) : c ∈ joinPieces sep ps ↔ ∃ p ∈ ps, c ∈ p := by
  induction ps with
  | nil => simp [joinPieces]
  | cons p ps ih =>
    cases ps with
    | nil => simp [joinPieces]
    | cons q ps => simp [joinPieces, ih, hc]

/-- Only a line break is taken away. -/
theorem mem_collapseBlank_iff (hc : c ≠ '\n') : c ∈ collapseBlank cs ↔ c ∈ cs := by
  induction cs using collapseBlank.induct with
  | case1 cs => simp [collapseBlank, hc]
  | case2 d cs hne ih => rw [collapseBlank, List.mem_cons, List.mem_cons, ih]; exact hne
  | case3 => rfl

end Text

/-! ## Tokens -/

theorem Digest.hyphen_ne_hexDigit (n : Nat) : Digest.hexDigit n ≠ '-' := by
  have hdigit : ∀ d < 16, Nat.digitChar d ≠ '-' := by decide
  exact hdigit (n % 16) (Nat.mod_lt n (by decide))

theorem Digest.hyphenless_hex (bytes : List UInt8) : Hyphenless (Digest.hex bytes) := by
  intro h
  rw [Digest.hex, String.toList_ofList, List.mem_flatMap] at h
  obtain ⟨b, -, hb⟩ := h
  rw [Digest.hexByte, List.mem_pair] at hb
  rcases hb with hb | hb <;> exact Digest.hyphen_ne_hexDigit _ hb.symm

namespace Sanitizer

/-- Tokens from SHA-1 are a letter and hexadecimal digits. -/
theorem hyphenless_token_sha1 (x : String) : Hyphenless (sha1.token x) := by
  intro h
  rw [token, String.toList_ofList, List.mem_cons] at h
  rcases h with hletter | hdigit
  · exact absurd hletter (by decide)
  · exact Digest.hyphenless_hex _ (List.mem_of_mem_take hdigit)

/-- If tokens have no hyphen, then identifiers do not. -/
theorem hyphenless_ident {s : Sanitizer} (hs : ∀ x, Hyphenless (s.token x)) (x : String) :
    Hyphenless (s.ident x) := by
  by_cases hx : '-' ∈ x.toList
  · rw [ident_of_mem hx]
    exact hs x
  · rwa [ident_of_notMem hx]

end Sanitizer

namespace Verilog

variable {s : Sanitizer} {name circuit text x : String} {p : Project} {g : Graph} {m : Module}

/-! ## Names in the text of a module -/

/-- The names in an assignment. -/
def Assignment.names : Assignment → List String
  | drive net port => [netName net, port]
  | expose port net => [port, netName net]

/-- The names in a binding. -/
def Binding.names (b : Binding) : List String :=
  [b.port, netName b.net]

/-- The names in an instance, apart from that of its module. -/
def Instance.localNames (i : Instance) : List String :=
  i.name :: i.bindings.flatMap Binding.names

/-- The names in a body, apart from those of modules. -/
def Body.localNames (b : Body) : List String :=
  b.nets.map netName ++ b.assignments.flatMap Assignment.names
    ++ b.instances.flatMap Instance.localNames

/-- The names in what a module holds, apart from those of modules. Text that was written by hand is
not read. -/
def Content.localNames : Content → List String
  | .code _ => []
  | .circuit body => body.localNames

/-- The text that was written by hand. -/
def Content.copiedText : Content → String
  | .code text => text
  | .circuit _ => ""

/-- The names of modules in the text of a module: its own, and those of its instances. -/
def Module.moduleNames (m : Module) : List String :=
  m.name :: m.instances.map (·.module)

/-- The other names in the text of a module: ports, nets, instances, and ports of instances. -/
def Module.localNames (m : Module) : List String :=
  m.ports.inputs ++ m.ports.outputs ++ m.content.localNames

/-! ## Hyphens come from names -/

theorem Assignment.hyphenless_text_iff {a : Assignment} :
    Hyphenless a.text ↔ ∀ x ∈ a.names, Hyphenless x := by
  cases a <;> simp +decide [Assignment.text, Assignment.names]

theorem Binding.hyphenless_text_iff {b : Binding} :
    Hyphenless b.text ↔ ∀ x ∈ b.names, Hyphenless x := by
  simp +decide [Binding.text, Binding.names]

theorem Instance.hyphenless_text_iff {i : Instance} :
    Hyphenless i.text ↔ Hyphenless i.module ∧ ∀ x ∈ i.localNames, Hyphenless x := by
  have hsep : Hyphenless ",\n" := by decide
  have hbindings : Hyphenless (",\n".intercalate (i.bindings.map Binding.text)) ↔
      ∀ x ∈ i.bindings.flatMap Binding.names, Hyphenless x := by
    rw [hyphenless_intercalate hsep, List.forall_mem_map, List.forall_mem_flatMap]
    simp only [Binding.hyphenless_text_iff]
  simp +decide [Instance.text, Instance.localNames, hbindings, and_assoc]

theorem Body.hyphenless_text_iff {b : Body} :
    Hyphenless b.text ↔
      (∀ i ∈ b.instances, Hyphenless i.module) ∧ ∀ x ∈ b.localNames, Hyphenless x := by
  have hsep : Hyphenless "\n" := by decide
  have hnet (net : Nat) : Hyphenless (netName net) := hyphen_notMem_netName net
  have hdeclaration (net : Nat) : Hyphenless ("wire " ++ netName net ++ ";\n") := by
    simp +decide [hnet]
  rw [Body.text, hyphenless_append, hyphenless_append, hyphenless_join, hyphenless_join,
    hyphenless_intercalate hsep]
  simp only [Body.localNames, List.forall_mem_append, List.forall_mem_map,
    List.forall_mem_flatMap, hdeclaration, hnet, Assignment.hyphenless_text_iff,
    Instance.hyphenless_text_iff, forall_and]
  tauto

/-- What a module holds has a hyphen in a name or in text that was written by hand. -/
theorem Module.hyphenless_content_iff (m : Module) :
    Hyphenless m.content.text ↔ (∀ i ∈ m.instances, Hyphenless i.module) ∧
      (∀ x ∈ m.content.localNames, Hyphenless x) ∧ Hyphenless m.content.copiedText := by
  obtain ⟨name, ports, content⟩ := m
  cases content with
  | code text => simp [Content.text, Module.instances, Content.localNames, Content.copiedText]
  | circuit body =>
    have hempty : Hyphenless "" := by decide
    rw [Content.copiedText, and_iff_left hempty]
    exact Body.hyphenless_text_iff

theorem hyphenless_indentBody_iff {body : String} :
    Hyphenless (String.ofList (indentBody body.toList)) ↔ Hyphenless body := by
  have hpieces : '-' ∈ indentBody body.toList ↔ '-' ∈ Text.collapseBlank body.toList := by
    conv_rhs => rw [← Text.joinPieces_pieces '\n' (Text.collapseBlank body.toList)]
    rw [indentBody, Text.mem_joinPieces_iff (by decide), Text.mem_joinPieces_iff (by decide)]
    simp
  rw [Hyphenless, String.toList_ofList, hpieces, Text.mem_collapseBlank_iff (by decide)]
  rfl

theorem hyphenless_portList_iff {ports : Ports} :
    Hyphenless (portList ports) ↔ ∀ x ∈ ports.inputs ++ ports.outputs, Hyphenless x := by
  have hsep : Hyphenless ", " := by decide
  rw [portList, hyphenless_intercalate hsep]
  simp +decide [declarations, or_imp, forall_and]

/-- The text of a module that is written has a hyphen exactly when a name in it has one, or text that
was written by hand. -/
theorem Module.hyphenless_text_iff (hm : m.text ≠ "") :
    Hyphenless m.text ↔
      (∀ x ∈ m.moduleNames ++ m.localNames, Hyphenless x) ∧ Hyphenless m.content.copiedText := by
  have hempty : ¬(m.name = "" ∨ m.content.text = "") := not_or.2 (Module.text_ne_empty_iff.1 hm)
  have hkeyword : Hyphenless "module " ∧ Hyphenless " (" ∧ Hyphenless ");\n" ∧
      Hyphenless "\nendmodule\n" := by decide
  rw [Module.text, moduleText, if_neg hempty]
  simp only [hyphenless_append, hkeyword, true_and, and_true, hyphenless_portList_iff,
    hyphenless_indentBody_iff, m.hyphenless_content_iff, Module.moduleNames, Module.localNames,
    List.forall_mem_append, List.forall_mem_cons, List.forall_mem_map]
  tauto

/-! ## Names of one circuit -/

section
variable (hs : ∀ x, Hyphenless (s.token x))
include hs

theorem hyphenless_of_mem_ports (hx : x ∈ (g.ports s).inputs ++ (g.ports s).outputs) :
    Hyphenless x := by
  rcases List.mem_append.1 hx with hinput | houtput
  · obtain ⟨id, -, -, rfl⟩ := Check.mem_inputs_iff.1 hinput
    exact Sanitizer.hyphenless_ident hs id
  · obtain ⟨id, -, -, rfl⟩ := Check.mem_outputs_iff.1 houtput
    exact Sanitizer.hyphenless_ident hs id

/-- An assignment is between a net and a block of the circuit. -/
theorem hyphenless_of_mem_assignment {a : Assignment}
    (ha : a ∈ (bodyOf s circuit g).assignments) (hx : x ∈ a.names) : Hyphenless x := by
  rcases mem_assignments_iff.1 ha with ⟨e, -, rfl⟩ | ⟨e, -, rfl⟩
  · rcases List.mem_pair.1 hx with rfl | rfl
    · exact hyphen_notMem_netName e.net
    · exact Sanitizer.hyphenless_ident hs e.place.block
  · rcases List.mem_pair.1 hx with rfl | rfl
    · exact Sanitizer.hyphenless_ident hs e.place.block
    · exact hyphen_notMem_netName e.net

/-- An instance is called by the identifier of its block, and binds identifiers of ports of wires. -/
theorem hyphenless_of_mem_instanceOf {b : Block}
    (hx : x ∈ (instanceOf s circuit g.wires b).localNames) : Hyphenless x := by
  rcases List.mem_cons.1 hx with rfl | hbinding
  · exact Sanitizer.hyphenless_ident hs b.id
  · obtain ⟨binding, hbinding, hx⟩ := List.mem_flatMap.1 hbinding
    obtain ⟨side, w, -, -, hport⟩ := mem_bindings_iff.1 hbinding
    rcases List.mem_pair.1 hx with rfl | rfl
    · rw [hport]
      exact Sanitizer.hyphenless_ident hs _
    · exact hyphen_notMem_netName binding.net

/-- All names in the module of a circuit are identifiers of blocks or of their ports, or names of
nets, apart from the names of modules. -/
theorem hyphenless_of_mem_localNames (hx : x ∈ (circuitModule s circuit g).localNames) :
    Hyphenless x := by
  rcases List.mem_append.1 hx with hports | hbody
  · exact hyphenless_of_mem_ports hs hports
  · rcases List.mem_append.1 hbody with hother | hinstance
    · rcases List.mem_append.1 hother with hnet | hassignment
      · obtain ⟨net, -, rfl⟩ := List.mem_map.1 hnet
        exact hyphen_notMem_netName net
      · obtain ⟨a, ha, hx⟩ := List.mem_flatMap.1 hassignment
        exact hyphenless_of_mem_assignment hs ha hx
    · obtain ⟨i, hi, hx⟩ := List.mem_flatMap.1 hinstance
      obtain ⟨b, -, rfl⟩ := List.mem_map.1 hi
      exact hyphenless_of_mem_instanceOf hs hx

/-- The name of a module is that of the outermost one, and what follows has no hyphen. -/
theorem exists_moduleName_eq_append (name : String) (path : List String) :
    ∃ rest, moduleName s name path = name ++ rest ∧ Hyphenless rest := by
  refine ⟨_, moduleName_eq_append_join path, ?_⟩
  rw [hyphenless_join, List.forall_mem_map]
  intro t _
  exact hyphenless_append.2 ⟨by decide, hs t⟩

end

/-! ## Names in a tree -/

/-- Every name of a module in the text of a tree is the one at the end of a path. -/
theorem exists_moduleName_of_mem (hm : m ∈ treeModules s name p) (hx : x ∈ m.moduleNames) :
    ∃ path, x = moduleName s name path := by
  obtain ⟨path, q, -, hm⟩ := mem_treeModules_iff.1 hm
  rcases mem_graphModules_iff.1 hm with ⟨id, ports, text, -, rfl⟩ | rfl
  · rw [List.mem_singleton.1 hx]
    exact ⟨path ++ [codeType], (moduleName_concat codeType).symm⟩
  · rcases List.mem_cons.1 hx with rfl | hinstance
    · exact ⟨path, rfl⟩
    · obtain ⟨i, hi, rfl⟩ := List.mem_map.1 hinstance
      obtain ⟨b, -, rfl⟩ := List.mem_map.1 hi
      exact ⟨path ++ [b.typeName], (moduleName_concat b.typeName).symm⟩

/-- Another name has a hyphen only if it is a port that the code of a module declares. -/
theorem exists_code_of_mem_localNames (hs : ∀ x, Hyphenless (s.token x))
    (hm : m ∈ treeModules s name p) (hx : x ∈ m.localNames) (hhyphen : ¬Hyphenless x) :
    ∃ path q id ports code, p.Reaches path q ∧ .code id ports code ∈ q.graph.blocks ∧
      m = ⟨moduleName s name (path ++ [codeType]), ports, .code code⟩ ∧
        x ∈ ports.inputs ++ ports.outputs := by
  obtain ⟨path, q, hq, hm⟩ := mem_treeModules_iff.1 hm
  rcases mem_graphModules_iff.1 hm with ⟨id, ports, code, hb, rfl⟩ | rfl
  · refine ⟨path, q, id, ports, code, hq, hb, ?_, ?_⟩
    · rw [moduleName_concat]
    · exact (List.mem_append.1 hx).resolve_right List.not_mem_nil
  · exact absurd (hyphenless_of_mem_localNames hs hx) hhyphen

/-! ## Accepted projects -/

/-- In the text of an accepted project, the name of each module, in its header and at its instances,
begins with the name of the outermost module, and what follows has no hyphen. All other names have
none, except ports in the header of the module of code, which has the ports as the code block
declares them. There are no other hyphens in the text but those of code. -/
theorem hyphens_of_strict (htext : (compileCircuit .sha1 true name p).result = .ok text) :
    ∃ modules, (emit .sha1 name [] p).result = .ok modules ∧ text = render modules ∧
      ∀ m ∈ modules,
        (∀ x ∈ m.moduleNames, ∃ rest, x = name ++ rest ∧ Hyphenless rest) ∧
          (∀ x ∈ m.localNames, ¬Hyphenless x →
            ∃ path q id ports code, p.Reaches path q ∧ .code id ports code ∈ q.graph.blocks ∧
              m = ⟨moduleName .sha1 name (path ++ [codeType]), ports, .code code⟩ ∧
                x ∈ ports.inputs ++ ports.outputs) ∧
            (m.text ≠ "" → (Hyphenless m.text ↔
              (∀ x ∈ m.moduleNames ++ m.localNames, Hyphenless x) ∧
                Hyphenless m.content.copiedText)) := by
  obtain ⟨hok, rfl⟩ := compileCircuit_strict_eq_ok_iff.1 htext
  refine ⟨_, result_emit_of_isOk hok, rfl, fun m hm => ⟨fun x hx => ?_, fun x hx hhyphen => ?_,
    Module.hyphenless_text_iff⟩⟩
  · obtain ⟨path, rfl⟩ := exists_moduleName_of_mem hm hx
    exact exists_moduleName_eq_append Sanitizer.hyphenless_token_sha1 name path
  · exact exists_code_of_mem_localNames Sanitizer.hyphenless_token_sha1 hm hx hhyphen

/-- The input of this circuit has a hyphen, and the text does not. -/
theorem hyphens_of_socket :
    ∃ text, (compileCircuit .sha1 true "main" .socket).result = .ok text ∧ Hyphenless text := by
  have hok : (checkProject .sha1 "main" .socket).isOk = true := by decide
  have htext := compileCircuit_strict_eq_ok_iff.2 ⟨hok, rfl⟩
  obtain ⟨modules, hemit, hrender, hnames⟩ := hyphens_of_strict htext
  obtain rfl : modules = [circuitModule .sha1 "main" Project.socket.graph] :=
    Except.ok.inj (hemit.symm.trans (result_emit_of_isOk hok))
  obtain ⟨hmodule, hlocal, hiff⟩ := hnames _ List.mem_cons_self
  have hwritten : (circuitModule .sha1 "main" Project.socket.graph).text ≠ "" :=
    Module.text_ne_empty_iff.2 ⟨by decide, by decide +kernel⟩
  refine ⟨_, htext, ?_⟩
  rw [hrender]
  apply (hiff hwritten).2
  refine ⟨List.forall_mem_append.2 ⟨?_, ?_⟩, by decide⟩
  · intro x hx
    obtain ⟨rest, rfl, hrest⟩ := hmodule x hx
    exact hyphenless_append.2 ⟨by decide, hrest⟩
  · intro x hx
    by_contra hhyphen
    obtain ⟨path, q, id, ports, code, -, -, hcode, -⟩ := hlocal x hx hhyphen
    -- The only module stands for a circuit.
    cases congrArg Module.content hcode

end Verilog

/-- A circuit with a code block that declares a port with a hyphen, at which no wire ends. -/
def Project.jack : Project := .ofGraph {
  blocks := [.code "c" ⟨["a-b"], ["y"]⟩ "assign y = 1;", .output "q"]
  wires := [⟨⟨"c", "y"⟩, ⟨"q", "in"⟩⟩] }

namespace Verilog

/-- The checks accept it under a name with a hyphen, and both stand in the text. -/
theorem hyphens_of_jack :
    (checkProject .sha1 "my-top" .jack).isOk = true ∧
      ∃ text modules, (compileCircuit .sha1 true "my-top" .jack).result = .ok text ∧
        (emit .sha1 "my-top" [] .jack).result = .ok modules ∧ text = render modules ∧
          (∃ m ∈ written modules, "my-top" ∈ m.moduleNames) ∧ ¬Hyphenless "my-top" ∧
            (∃ m ∈ written modules, "a-b" ∈ m.localNames) ∧ ¬Hyphenless "a-b" := by
  have hok : (checkProject .sha1 "my-top" .jack).isOk = true := by decide
  refine ⟨hok, _, _, compileCircuit_strict_eq_ok_iff.2 ⟨hok, rfl⟩, result_emit_of_isOk hok, rfl,
    ?_, by decide, ?_, by decide⟩
  · decide +kernel
  · decide +kernel

end Verilog

end BlockCircuit
