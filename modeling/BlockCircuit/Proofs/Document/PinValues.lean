import BlockCircuit.Proofs.Compilation.Constraints
import BlockCircuit.Proofs.Document.Replaced
import BlockCircuit.Proofs.Json.Integers
import Mathlib.Algebra.Group.Int.Defs

/-!
# Pins that are written as numbers

The value of a pin may be a string or a number, and a number counts as the string of its digits. Integers
that fit a word of 64 bits keep all their digits on the way through a text, so they may be written either
way, anywhere in a document.

A pin is deep inside of a document. `PinWritten` leads to it, through any number of dependencies and
through records that are objects or arrays, and says which block of the project it belongs to. What
another value of the pin changes is then carried outwards, record by record.

* `BlockPlace`, `Project.HasPin` — where a block is in the tree of a project, and the pin it has there;
* `PinWritten` — two documents that differ in the value of one pin only;
* `PinWritten.replaces` — if the first is loaded, so is the second, and its pin has its value;
* `Project.lineEndsWith_of_hasPin` — the line of the pin among the constraints;
* `Project.pins_agree_as_number_and_text` — an integer as a number and as a string of its digits.
-/

namespace BlockCircuit

/-- Where a block is in the tree of a project: the path that leads to its circuit, and its number
there. -/
structure BlockPlace where
  path : List String
  number : Nat
deriving DecidableEq, Repr

/-- A block below a dependency. -/
def BlockPlace.below (t : String) (place : BlockPlace) : BlockPlace :=
  { place with path := t :: place.path }

/-- If a block is a port, it has a pin with this value. -/
def Block.PinnedTo (value : String) (b : Block) : Prop :=
  b.isPort = true → ∃ name, b.pin? = some ⟨name, value⟩

/-- At this place of a project there is a block, and if the block is a port, it has a pin with this
value. -/
def Project.HasPin (p : Project) (place : BlockPlace) (value : String) : Prop :=
  ∃ q b, p.Reaches place.path q ∧ q.graph.blocks[place.number]? = some b ∧
    b.PinnedTo value

namespace Document

section
variable {α : Type} {F : Form α} {u u' : α}

/-- Two documents of a project that differ in the value of one pin only. The pin belongs to the block at
this place of the project, if the project has the block at all: of several dependencies with one key,
only the last one counts. -/
inductive PinWritten (F : Form α) (u u' : α) : Option BlockPlace → α → α → Prop
  | graph {pin pin' data data' block block' blocks blocks' graph graph' w w' : α} {number : Nat} :
      InField F .pin (.required "value" .pinValue) u u' pin pin' →
      InField F .blockData (.nullable "pin" (.record .pin)) pin pin' data data' →
      InField F .block (.nullable "data" (.record .blockData)) data data' block block' →
      InItem F number block block' blocks blocks' →
      InField F .graph (.required "blocks" (.list (.record .block))) blocks blocks' graph graph' →
      InField F .project (.required "graph" (.record .graph)) graph graph' w w' →
      PinWritten F u u' (some ⟨[], number⟩) w w'
  | dependency {place? : Option BlockPlace} {t : String} {later : List String}
      {dep dep' deps deps' w w' : α} :
      PinWritten F u u' place? dep dep' → InEntry F t later dep dep' deps deps' →
      InField F .project (.optional "deps" (.table (.record .project)) []) deps deps' w w' →
      PinWritten F u u' (if t ∈ later then none else place?.map (.below t)) w w'

/-! ## Blocks

The first of two documents has a pin with the value `value`, and the second one has `value'` in its
place. -/

section
variable {value value' : String}

/-- Two pins that differ in their value. -/
def PinRewritten (value value' : String) (pin pin' : Pin) : Prop :=
  pin.value = value ∧ pin' = { pin with value := value' }

/-- Two data that differ in the value of the pin. -/
def DataRewritten (value value' : String) (data data' : BlockData) : Prop :=
  ∃ pin pin', PinRewritten value value' pin pin' ∧ data.pin = some pin ∧
    data' = { data with pin := some pin' }

/-- What is known of two wholes that differ in the value of one pin, if this is known of the second of
them. -/
def Rewritten {A : Type} (value value' : String) (known : A → Prop) (a a' : A) : Prop :=
  (value = value' → a = a') ∧ known a'

theorem PinRewritten.eq {pin pin' : Pin} (h : PinRewritten value value' pin pin')
    (hvalue : value = value') : pin = pin' := by
  obtain ⟨rfl, rfl⟩ := h
  rw [← hvalue]

theorem DataRewritten.eq {data data' : BlockData} (h : DataRewritten value value' data data')
    (hvalue : value = value') : data = data' := by
  obtain ⟨pin, pin', hpin, hdata, rfl⟩ := h
  rw [← hpin.eq hvalue, ← hdata]

/-- Blocks of one type have data that differ in the value of the pin. -/
theorem exists_kindOf {data data' : BlockData} {kind : BlockKind} (h : KindOf data kind)
    (hdata : DataRewritten value value' data data') :
    ∃ kind', KindOf data' kind' ∧ kind'.typeName = kind.typeName ∧
      (kind'.isPort = true → ∃ name, kind'.pin? = some ⟨name, value'⟩) := by
  obtain ⟨pin, _, ⟨-, rfl⟩, -, rfl⟩ := hdata
  cases h with
  | input => exact ⟨_, .input, rfl, fun _ => ⟨pin.name, rfl⟩⟩
  | output => exact ⟨_, .output, rfl, fun _ => ⟨pin.name, rfl⟩⟩
  | code hports hcode => exact ⟨_, .code hports hcode, rfl, nofun⟩
  | compound hinput houtput hcode => exact ⟨_, .compound hinput houtput hcode, rfl, nofun⟩

section
variable (hF : F.Lawful) {v v' w w' : α}
include hF

theorem Replaces.pin (hv : Replaces F .pinValue v v' fun a a' => a = value ∧ a' = value')
    (h : InField F .pin (.required "value" .pinValue) v v' w w') :
    Replaces F (.record .pin) w w' (PinRewritten value value') := by
  refine hF.field h hv ?_
  rintro _ _ ⟨name, a, ⟨⟩⟩ ⟨name', a', ⟨⟩⟩ pin ⟨rfl, rfl⟩ hexchanged hbuild
  cases hbuild
  obtain ⟨rfl, hvalue⟩ := hexchanged.tail (by decide)
  obtain ⟨rfl, rfl, -⟩ := hvalue.head (by decide)
  exact ⟨_, rfl, rfl, rfl⟩

theorem Replaces.blockData (hv : Replaces F (.record .pin) v v' (PinRewritten value value'))
    (h : InField F .blockData (.nullable "pin" (.record .pin)) v v' w w') :
    Replaces F (.record .blockData) w w' (DataRewritten value value') := by
  refine hF.field h hv ?_
  rintro pin pin' ⟨pin?, ports, code, ⟨⟩⟩ ⟨pin?', rest⟩ data hpin hexchanged hbuild
  cases hbuild
  obtain ⟨rfl, rfl, rfl⟩ := hexchanged.head (by decide)
  exact ⟨_, rfl, pin, pin', hpin, rfl, rfl⟩

theorem Replaces.block (hv : Replaces F (.record .blockData) v v' (DataRewritten value value'))
    (h : InField F .block (.nullable "data" (.record .blockData)) v v' w w') :
    Replaces F (.record .block) w w' (Rewritten value value' (Block.PinnedTo value')) := by
  refine hF.field h hv ?_
  rintro data data' ⟨id, typeName, data?, ⟨⟩⟩ ⟨id', typeName', data?', ⟨⟩⟩ b hdata hexchanged hbuild
  obtain ⟨rfl, hrest⟩ := hexchanged.tail (by decide)
  obtain ⟨rfl, hdata'⟩ := hrest.tail (by decide)
  obtain ⟨rfl, rfl, -⟩ := hdata'.head (by decide)
  obtain ⟨hid, htype, hkind⟩ := buildBlock_eq_ok_iff.1 hbuild
  obtain ⟨kind', hkind', htype', hpin⟩ := exists_kindOf hkind hdata
  have hbuild' : buildBlock id typeName data' = .ok ⟨id, kind'⟩ :=
    buildBlock_eq_ok_iff.2 ⟨rfl, htype'.trans htype, hkind'⟩
  refine ⟨_, hbuild', fun hvalue => ?_, hpin⟩
  obtain rfl := hdata.eq hvalue
  exact Except.ok.inj (hbuild.symm.trans hbuild')

/-- A graph with the block of the pin. -/
theorem Replaces.graph {number : Nat} {blocks blocks' : α}
    (hv : Replaces F (.record .block) v v' (Rewritten value value' (Block.PinnedTo value')))
    (hitem : InItem F number v v' blocks blocks')
    (h : InField F .graph (.required "blocks" (.list (.record .block))) blocks blocks' w w') :
    Replaces F (.record .graph) w w' (Rewritten value value' fun g =>
      ∃ b, (Graph.blocks g)[number]? = some b ∧ b.PinnedTo value') := by
  refine hF.field h (hF.item hitem hv) ?_
  rintro _ _ ⟨bs, wires, ⟨⟩⟩ ⟨bs', wires', ⟨⟩⟩ g hblocks hexchanged hbuild
  cases hbuild
  obtain ⟨rfl, rfl, hwires⟩ := hexchanged.head (by decide)
  cases hwires
  obtain ⟨b, b', ⟨heq, hpinned⟩, hb', hsame⟩ := hblocks.exists_getElem?
  exact ⟨_, rfl, fun hvalue => by rw [hsame (heq hvalue)], b', hb', hpinned⟩

/-- A project with this graph. -/
theorem Replaces.project {number : Nat}
    (hv : Replaces F (.record .graph) v v' (Rewritten value value' fun g =>
      ∃ b, (Graph.blocks g)[number]? = some b ∧ b.PinnedTo value'))
    (h : InField F .project (.required "graph" (.record .graph)) v v' w w') :
    Replaces F (.record .project) w w' (Rewritten value value' fun p =>
      ∀ place ∈ some (⟨[], number⟩ : BlockPlace), Project.HasPin p place value') := by
  refine hF.field h hv ?_
  rintro g g' ⟨_, deps, ⟨⟩⟩ ⟨_, deps', ⟨⟩⟩ p ⟨heq, b, hb, hpinned⟩ hexchanged hbuild
  cases hbuild
  obtain ⟨rfl, rfl, hdeps⟩ := hexchanged.head (by decide)
  cases hdeps
  refine ⟨_, rfl, fun hvalue => by rw [heq hvalue], ?_⟩
  rintro _ ⟨⟩
  exact ⟨_, b, .here _, hb, hpinned⟩

/-- A project with a dependency that has the pin, unless a later one has the same key. -/
theorem Replaces.dependency {t : String} {later : List String} {deps deps' : α}
    {place? : Option BlockPlace}
    (hv : Replaces F (.record .project) v v' (Rewritten value value' fun p =>
      ∀ place ∈ place?, Project.HasPin p place value'))
    (hentry : InEntry F t later v v' deps deps')
    (h : InField F .project (.optional "deps" (.table (.record .project)) []) deps deps' w w') :
    Replaces F (.record .project) w w' (Rewritten value value' fun p =>
      ∀ place ∈ if t ∈ later then none else place?.map (.below t),
        Project.HasPin p place value') := by
  refine hF.field h (hF.entry hentry hv) ?_
  rintro _ _ ⟨g, ds, ⟨⟩⟩ ⟨g', ds', ⟨⟩⟩ p hdeps hexchanged hbuild
  cases hbuild
  obtain ⟨rfl, hdeps'⟩ := hexchanged.tail (by decide)
  obtain ⟨rfl, rfl, -⟩ := hdeps'.head (by decide)
  obtain ⟨dep, dep', ⟨heq, hdep⟩, hlookup, hsame⟩ := hdeps.exists_lookup
  refine ⟨_, rfl, fun hvalue => by rw [hsame (heq hvalue)], fun place hplace => ?_⟩
  by_cases ht : t ∈ later
  · rw [if_pos ht] at hplace
    cases hplace
  · rw [if_neg ht] at hplace
    obtain ⟨inner, hinner, rfl⟩ := Option.map_eq_some_iff.1 hplace
    obtain ⟨q, b, hq, hb, hpinned⟩ := hdep inner hinner
    exact ⟨q, b, .through (Project.mem_of_lookup (hlookup ht)) hq, hb, hpinned⟩

/-- A document with another value of one pin is loaded if the first one is, and the pin has this
value. -/
theorem PinWritten.replaces {place? : Option BlockPlace}
    (hv : Replaces F .pinValue v v' fun a a' => a = value ∧ a' = value')
    (h : PinWritten F v v' place? w w') :
    Replaces F (.record .project) w w' (Rewritten value value' fun p =>
      ∀ place ∈ place?, Project.HasPin p place value') := by
  -- Outwards from the pin, first to the project that has the block, and then from each dependency to the
  -- project around it.
  induction h with
  | graph hpin hdata hblock hitem hgraph hproject =>
    have hb := ((hv.pin hF hpin).blockData hF hdata).block hF hblock
    exact (hb.graph hF hitem hgraph).project hF hproject
  | dependency _ hentry hfield ih => exact ih.dependency hF hentry hfield

end

end

/-! ## Number and text -/

theorem InField.symm {kind : RecordKind} {f : Field} {v v' w w' : α}
    (h : InField F kind f v v' w w') : InField F kind f v' v w' w := by
  cases h with
  | member hf hw hw' => exact .member hf hw' hw
  | place hf hw hw' => exact .place hf hw' hw

theorem PinWritten.symm {place? : Option BlockPlace} {w w' : α} (h : PinWritten F u u' place? w w') :
    PinWritten F u' u place? w' w := by
  induction h with
  | graph hpin hdata hblock hitem hgraph hproject =>
    obtain ⟨hnumber, hblocks, hblocks'⟩ := hitem
    exact .graph hpin.symm hdata.symm hblock.symm ⟨hnumber, hblocks', hblocks⟩ hgraph.symm
      hproject.symm
  | dependency _ hentry hfield ih =>
    obtain ⟨hlater, hdeps, hdeps'⟩ := hentry
    exact .dependency ih ⟨hlater, hdeps', hdeps⟩ hfield.symm

end

section
variable {v : Json.Value} {a b : String} {budget : Nat}

/-- The text of a number or of a string stands for one value of a pin. -/
theorem standsFor_pinValue_iff {w : List Char} (hw : Json.Spells v w) (hv : PinValueOf v a) :
    StandsFor budget .pinValue w b ↔ b = a := by
  have hread : ofValue v .pinValue = .ok a := by
    rw [← reads_pinValue] at hv
    exact hv
  have hdepth : v.depth ≤ budget := by
    cases hv <;> exact Nat.zero_le _
  have hstands := standsFor_of_spells hw hdepth hread
  constructor
  · rintro ⟨rest, hscanned, -⟩
    obtain ⟨rest', hscanned', -⟩ := hstands
    cases hscanned.symm.trans hscanned'
    rfl
  · rintro rfl
    exact hstands

theorem replaces_texts {v' : Json.Value} {u u' : String} {a' : String} (hu : Json.Spells v u.toList)
    (hu' : Json.Spells v' u'.toList) (hv : PinValueOf v a) (hv' : PinValueOf v' a') :
    Replaces .texts .pinValue u u' fun b b' => b = a ∧ b' = a' where
  ne_null := by
    rintro ⟨left, hnull⟩
    have hstands : StandsFor 0 .pinValue u.toList a := (standsFor_pinValue_iff hu hv).2 rfl
    obtain ⟨rest, hread, -⟩ := hstands
    exact ne_null_of_read hread left hnull
  standsFor _ _ hb :=
    ⟨a', (standsFor_pinValue_iff hu' hv').2 rfl, (standsFor_pinValue_iff hu hv).1 hb, rfl⟩

theorem replaces_values {v' : Json.Value} {a' : String} (hv : PinValueOf v a)
    (hv' : PinValueOf v' a') : Replaces .values .pinValue v v' fun b b' => b = a ∧ b' = a' where
  ne_null := by
    rintro rfl
    cases hv
  standsFor _ b hb := by
    have hb : PinValueOf v b := reads_pinValue ▸ hb
    have hread : Reads .pinValue v' a' := reads_pinValue ▸ hv'
    refine ⟨a', hread, ?_, rfl⟩
    cases hb <;> cases hv <;> rfl

end

end Document

namespace Project

open Document (Form PinWritten Replaces)

/-- If this block of the outermost circuit is a port, its line among the pin constraints ends with this
value. -/
def LineEndsWith (p : Project) (number : Nat) (value : String) : Prop :=
  ∀ s text b, (compilePins s p).result = .ok text → p.graph.blocks[number]? = some b →
    b.isPort = true →
      text = Pins.text ((p.graph.blocks.take number).filterMap (Pins.constraint? s)) ++
        ("set_io " ++ s.ident b.id ++ " " ++ value ++ "\n") ++
          Pins.text ((p.graph.blocks.drop (number + 1)).filterMap (Pins.constraint? s))

/-- If a document is loaded, the pin at this place of the project has this value, and so has its line
among the pin constraints. -/
def PinIs (value : String) (place? : Option BlockPlace) (load : Except LoadError Project) : Prop :=
  ∀ p, load = .ok p → ∀ place ∈ place?,
    p.HasPin place value ∧ (place.path = [] → p.LineEndsWith place.number value)

/-- Two documents are loaded, or neither of them is. In the first one the pin at this place of the
project is `value`, and in the second one it is `value'`. If the two are the same, so are the
projects. -/
structure PinsAgree (value value' : String) (place? : Option BlockPlace)
    (load load' : Except LoadError Project) : Prop where
  loaded : (∃ p, load = .ok p) ↔ ∃ p, load' = .ok p
  same : value = value' → ∀ p, load = .ok p ↔ load' = .ok p
  pin : PinIs value place? load
  pin' : PinIs value' place? load'

/-- The constraint of a port has the value of its pin. -/
theorem lineEndsWith_of_hasPin {p : Project} {number : Nat} {value : String}
    (h : p.HasPin ⟨[], number⟩ value) : p.LineEndsWith number value := by
  rintro s text b htext hb hport
  obtain ⟨_, b, ⟨_⟩, hb', hpinned⟩ := h
  cases hb.symm.trans hb'
  obtain ⟨name, hpin⟩ := hpinned hport
  obtain ⟨-, rfl⟩ := compilePins_eq_ok_iff.1 htext
  obtain ⟨hlt, rfl⟩ := List.getElem?_eq_some_iff.1 hb
  -- The text is cut where the blocks are cut.
  have hblocks : p.graph.blocks.take number ++ p.graph.blocks[number] ::
      p.graph.blocks.drop (number + 1) = p.graph.blocks := by
    rw [← List.drop_eq_getElem_cons hlt, List.take_append_drop]
  conv_lhs => rw [← hblocks]
  rw [List.filterMap_append, List.filterMap_cons_some (Pins.constraint?_of_pin? hpin)]
  simp [Pins.text, PinConstraint.line, String.append_assoc]

section
variable {α : Type} {F : Form α} (hF : F.Lawful) {load : α → Except LoadError Project} (budget : Nat)
  (hload : ∀ w p, load w = .ok p ↔ F.standsFor budget (.record .project) w p)
  {place? : Option BlockPlace} {u u' w w' : α} {value value' : String}
include hF hload

/-- A document with another value of a pin is loaded if the first one is. -/
theorem exists_of_pinWritten (hu : Replaces F .pinValue u u' fun a a' => a = value ∧ a' = value')
    (h : PinWritten F u u' place? w w') {p : Project} (hp : load w = .ok p) :
    ∃ p', load w' = .ok p' ∧ (value = value' → p = p') ∧ PinIs value' place? (load w') := by
  obtain ⟨p', hp', hsame, hpin⟩ := (h.replaces hF hu).standsFor budget p ((hload w p).1 hp)
  have hloaded := (hload w' p').2 hp'
  refine ⟨p', hloaded, hsame, fun q hq => ?_⟩
  cases hloaded.symm.trans hq
  rintro ⟨path, number⟩ hplace
  refine ⟨hpin _ hplace, ?_⟩
  rintro rfl
  exact lineEndsWith_of_hasPin (hpin _ hplace)

theorem pinsAgree_of_pinWritten (hu : Replaces F .pinValue u u' fun a a' => a = value ∧ a' = value')
    (hu' : Replaces F .pinValue u' u fun a a' => a = value' ∧ a' = value)
    (h : PinWritten F u u' place? w w') : PinsAgree value value' place? (load w) (load w') := by
  have hthere {p : Project} := exists_of_pinWritten hF budget hload hu h (p := p)
  have hback {p : Project} := exists_of_pinWritten hF budget hload hu' h.symm (p := p)
  constructor
  case loaded =>
    constructor
    · rintro ⟨p, hp⟩
      obtain ⟨p', hp', -⟩ := hthere hp
      exact ⟨p', hp'⟩
    · rintro ⟨p', hp'⟩
      obtain ⟨p, hp, -⟩ := hback hp'
      exact ⟨p, hp⟩
  case same =>
    intro hvalue p
    constructor
    · intro hp
      obtain ⟨p', hp', hsame, -⟩ := hthere hp
      rwa [hsame hvalue]
    · intro hp'
      obtain ⟨p', hp, hsame, -⟩ := hback hp'
      rwa [hsame hvalue.symm]
  case pin =>
    intro p hp
    obtain ⟨p', hp', -⟩ := hthere hp
    obtain ⟨-, -, -, hpin⟩ := hback hp'
    exact hpin p hp
  case pin' =>
    intro p' hp'
    obtain ⟨p, hp, -⟩ := hback hp'
    obtain ⟨-, -, -, hpin⟩ := hthere hp
    exact hpin p' hp'

end

/-! ### A board with a large number -/

section
open Document (writtenArray spells_writtenArray arrayText_writtenArray isPart_of_spells InField InItem
  Field RecordKind PinValueOf)

/-- Texts of these values. -/
def AllSpell : List Json.Value → List String → Prop :=
  List.Forall₂ fun v w => Json.Spells v w.toList

theorem AllSpell.arrayText {values : List Json.Value} {items : List String}
    (h : AllSpell values items) : Document.ArrayText items (writtenArray items).toList := by
  refine arrayText_writtenArray ?_
  induction h with
  | nil => exact nofun
  | cons hv _ ih => exact List.forall_mem_cons.2 ⟨isPart_of_spells hv, ih⟩

/-- A record that is written as an array, with another text in one place. -/
theorem AllSpell.inField (kind : RecordKind) {f : Field} (front back : List String) {u u' : String}
    {values values' : List Json.Value} (h : AllSpell values (front ++ u :: back))
    (h' : AllSpell values' (front ++ u' :: back)) (hf : kind.fields[front.length]? = some f) :
    InField .texts kind f u u' (writtenArray (front ++ u :: back))
      (writtenArray (front ++ u' :: back)) :=
  .place hf h.arrayText h'.arrayText

/-- A document of one output. All its records are arrays. -/
def boardDocument (value : String) : String :=
  writtenArray [writtenArray [writtenArray [writtenArray ["\"led\"", "\"basic.output\"",
    writtenArray [writtenArray ["null", value]]]], writtenArray []]]

/-- What this is a text of. -/
def boardValue (value : Json.Value) : Json.Value :=
  .array [.array [.array [.array [.string "led", .string "basic.output",
    .array [.array [.null, value]]]], .array []]]

/-- What it stands for. -/
def board (value : String) : Project :=
  .ofGraph ⟨[⟨"led", .output (some ⟨none, value⟩)⟩], []⟩

section
variable {v v' : Json.Value} {u u' : String} (hu : Json.Spells v u.toList)
include hu

theorem allSpell_pin : AllSpell [.null, v] ["null", u] := .cons .null (.cons hu .nil)

theorem allSpell_block :
    AllSpell [.string "led", .string "basic.output", v] ["\"led\"", "\"basic.output\"", u] :=
  .cons (.string (Json.spellsString_self (by decide)))
    (.cons (.string (Json.spellsString_self (by decide))) (.cons hu .nil))

theorem allSpell_graph : AllSpell [v, .array []] [u, writtenArray []] :=
  .cons hu (.cons (spells_writtenArray .nil) .nil)

theorem spells_boardDocument : Json.Spells (boardValue v) (boardDocument u).toList := by
  have hdata := spells_writtenArray (.cons (spells_writtenArray (allSpell_pin hu)) .nil)
  have hblocks := spells_writtenArray (.cons (spells_writtenArray (allSpell_block hdata)) .nil)
  exact spells_writtenArray (.cons (spells_writtenArray (allSpell_graph hblocks)) .nil)

theorem ofText_boardDocument {value : String} (hv : PinValueOf v value) :
    ofText (boardDocument u) = .ok (board value) := by
  rw [ofText_eq_ok_iff]
  have hspells := spells_boardDocument hu
  cases hv with
  | string | number => exact Document.standsFor_of_spells hspells (Nat.le_of_ble_eq_true rfl) rfl

theorem pinWritten_boardDocument (hu' : Json.Spells v' u'.toList) :
    PinWritten .texts u u' (some ⟨[], 0⟩) (boardDocument u) (boardDocument u') := by
  have hpin {v : Json.Value} {u : String} (hu : Json.Spells v u.toList) :=
    spells_writtenArray (allSpell_pin hu)
  have hdata {v : Json.Value} {u : String} (hu : Json.Spells v u.toList) :=
    spells_writtenArray (.cons (hpin hu) .nil)
  have hblock {v : Json.Value} {u : String} (hu : Json.Spells v u.toList) :=
    spells_writtenArray (allSpell_block (hdata hu))
  have hblocks {v : Json.Value} {u : String} (hu : Json.Spells v u.toList) :=
    spells_writtenArray (.cons (hblock hu) .nil)
  have hgraph {v : Json.Value} {u : String} (hu : Json.Spells v u.toList) :=
    spells_writtenArray (allSpell_graph (hblocks hu))
  exact .graph ((allSpell_pin hu).inField .pin ["null"] [] (allSpell_pin hu') rfl)
    (AllSpell.inField .blockData [] [] (.cons (hpin hu) .nil) (.cons (hpin hu') .nil) rfl)
    ((allSpell_block (hdata hu)).inField .block ["\"led\"", "\"basic.output\""] []
      (allSpell_block (hdata hu')) rfl)
    (@InItem.item _ .texts _ _ _ [] [] _ _ rfl (AllSpell.arrayText (.cons (hblock hu) .nil))
      (AllSpell.arrayText (.cons (hblock hu') .nil)))
    ((allSpell_graph (hblocks hu)).inField .graph [] [writtenArray []] (allSpell_graph (hblocks hu'))
      rfl)
    (AllSpell.inField .project [] [] (.cons (hgraph hu) .nil) (.cons (hgraph hu') .nil) rfl)

end

theorem pinWritten_boardValue (v v' : Json.Value) :
    PinWritten .values v v' (some ⟨[], 0⟩) (boardValue v) (boardValue v') :=
  .graph (@InField.place _ .values _ _ _ _ [.null] [] _ _ rfl rfl rfl)
    (@InField.place _ .values _ _ _ _ [] [] _ _ rfl rfl rfl)
    (@InField.place _ .values _ _ _ _ [.string "led", .string "basic.output"] [] _ _ rfl rfl rfl)
    (@InItem.item _ .values _ _ _ [] [] _ _ rfl rfl rfl)
    (@InField.place _ .values _ _ _ _ [] [.array []] _ _ rfl rfl rfl)
    (@InField.place _ .values _ _ _ _ [] [] _ _ rfl rfl rfl)

end

/-! ### Numbers and texts -/

/-- As the value of a pin anywhere in a document, be that a text or a value, there may be an integer that
fits a signed or an unsigned word of 64 bits, written as a number. The document is loaded if it is loaded
with any string in the place of the number, and the pin has just the digits of the number as its value.
With the string of these digits it is the same project. If the pin belongs to a port of the outermost
circuit, the line of this port among the pin constraints ends with the digits. -/
theorem pins_agree_as_number_and_text {n : ℤ} (hlow : -2 ^ 63 ≤ n) (hhigh : n < 2 ^ 64)
    (value : String) (place? : Option BlockPlace) :
    (∀ u w w', Json.SpellsString value u.toList → PinWritten .texts u (toString n) place? w w' →
        PinsAgree value (toString n) place? (ofText w) (ofText w')) ∧
      ∀ w w', PinWritten .values (.string value) (.number (.integer n)) place? w w' →
        PinsAgree value (toString n) place? (ofValue w) (ofValue w') := by
  -- Within these bounds, no integer is read as a floating-point number.
  have hnumeral : Json.Numeral (.integer n) (toString n).toList :=
    Json.numeral_toString (by rw [Json.maxNegated]; omega) (by rw [Json.maxSignificand]; omega)
  constructor
  · intro u w w' hu h
    have hnumber : Json.Spells (.number (.integer n)) (toString n).toList := .number hnumeral
    exact pinsAgree_of_pinWritten Form.lawful_texts maxDepth (fun _ _ => ofText_eq_ok_iff)
      (Document.replaces_texts (.string hu) hnumber .string .number)
      (Document.replaces_texts hnumber (.string hu) .number .string) h
  · intro w w' h
    exact pinsAgree_of_pinWritten Form.lawful_values 0 (fun _ _ => ofValue_eq_ok_iff_reads)
      (Document.replaces_values .string .number) (Document.replaces_values .number .string) h

/-- The largest number in a text, and the smallest one in a value. -/
theorem pins_agree_as_number_and_text_board :
    (ofText (boardDocument "18446744073709551615") = .ok (board "18446744073709551615") ∧
      ofText (boardDocument "\"18446744073709551615\"") = .ok (board "18446744073709551615") ∧
        (compilePins .sha1 (board "18446744073709551615")).result =
          .ok "set_io led 18446744073709551615\n") ∧
      ofValue (boardValue (.number (.integer (-2 ^ 63)))) = .ok (board "-9223372036854775808") ∧
        ofValue (boardValue (.string "-9223372036854775808")) =
          .ok (board "-9223372036854775808") := by
  obtain ⟨htexts, -⟩ := pins_agree_as_number_and_text (n := 18446744073709551615) (by decide)
    (by decide) "18446744073709551615" (some ⟨[], 0⟩)
  obtain ⟨-, hvalues⟩ := pins_agree_as_number_and_text (n := -2 ^ 63) (by decide) (by decide)
    "-9223372036854775808" (some ⟨[], 0⟩)
  have hnumber : Json.Spells (.number (.integer 18446744073709551615))
      "18446744073709551615".toList := .number (Json.numeral_toString (by decide) (by decide))
  have hquoted : Json.SpellsString "18446744073709551615" "\"18446744073709551615\"".toList :=
    Json.spellsString_self (by decide)
  have hagree := htexts _ _ _ hquoted (pinWritten_boardDocument (.string hquoted) hnumber)
  have hload := ofText_boardDocument hnumber .number
  obtain ⟨text, htext⟩ :
      ∃ text, (compilePins .sha1 (board "18446744073709551615")).result = .ok text := ⟨_, rfl⟩
  have hline := (hagree.pin' _ hload _ rfl).2 rfl .sha1 text _ htext rfl rfl
  have hagree' := hvalues _ _ (pinWritten_boardValue _ _)
  have hload' : ofValue (boardValue (.string "-9223372036854775808")) =
      .ok (board "-9223372036854775808") := rfl
  refine ⟨⟨hload, (hagree.same rfl _).2 hload, ?_⟩, (hagree'.same rfl _).1 hload', hload'⟩
  rw [htext, hline]
  rfl

end Project

end BlockCircuit
