import BlockCircuit.Proofs.Text.Pieces
import BlockCircuit.Verilog.Body

/-!
# What the text of a module keeps of its body

The body of a module may be text that was written by hand, so it must reach the output line by line.
One line may be lost on the way: the first empty line between two others, which is how an instance
without bindings is closed up. All other lines are kept in their order, behind one blank each. What
the lines hold is not looked at, and neither are the name and the ports.

* `closedUp_indentBody` — the lines of an indented body, and which of them is missing;
* `unindent_indentBody` — without the indentation they are the lines of the body again;
* `portsDeclared`, `portsDeclared_portList` — a port list is read back;
* `moduleText_keeps_body` — the text of a module.
-/

namespace BlockCircuit.Verilog

open Text (pieces joinPieces collapseBlank splitAtCommas HasInnerBlank ClosedUp closedUp_collapseBlank)

/-! ## Bodies -/

/-- A text without the first character of each line. -/
def unindent (text : List Char) : List Char :=
  ['\n'].intercalate ((text.splitOn '\n').map List.tail)

/-- The lines of an indented body are those of the body, each behind a blank; the first empty line
between two others is missing. -/
theorem closedUp_indentBody (body : List Char) :
    ∃ kept, ClosedUp (body.splitOn '\n') kept ∧
      indentBody body = ['\n'].intercalate (kept.map (' ' :: ·)) := by
  refine ⟨pieces '\n' (collapseBlank body), ?_, ?_⟩
  · rw [← Text.pieces_eq_splitOn]
    exact closedUp_collapseBlank body
  · rw [indentBody, Text.joinPieces_eq_intercalate]

/-- Taking the indentation away leaves the body with one blank line closed up. -/
theorem unindent_indentBody (body : List Char) : unindent (indentBody body) = collapseBlank body := by
  have hne : (pieces '\n' (collapseBlank body)).map (' ' :: ·) ≠ [] := by
    simp [Text.pieces_ne_nil]
  have hlines : ∀ line ∈ (pieces '\n' (collapseBlank body)).map (' ' :: ·), '\n' ∉ line := by
    intro line hline
    obtain ⟨piece, hpiece, rfl⟩ := List.mem_map.1 hline
    simpa using Text.notMem_of_mem_pieces hpiece
  rw [unindent, ← Text.pieces_eq_splitOn, indentBody, Text.pieces_joinPieces hne hlines]
  simp [Function.comp_def, ← Text.joinPieces_eq_intercalate, Text.joinPieces_pieces]

/-- Nothing is closed up in a body without an empty line between two others. -/
theorem collapseBlank_of_not_hasInnerBlank {body : List Char}
    (h : ¬HasInnerBlank (body.splitOn '\n')) : collapseBlank body = body := by
  rw [← Text.pieces_eq_splitOn] at h
  have hkept := (closedUp_collapseBlank body).eq_of_not_hasInnerBlank h
  rw [← Text.joinPieces_pieces '\n' (collapseBlank body), hkept, Text.joinPieces_pieces]

/-! ## Port lists -/

/-- The name in a declaration, if it is one of the given direction. -/
def declared? (direction : String) (declaration : List Char) : Option String :=
  match Text.cut? ' ' declaration with
  | some (word, name) => if word = direction.toList then some (String.ofList name) else none
  | none => none

/-- The ports that a port list declares, which is cut at its commas. -/
def portsDeclared (text : String) : Ports where
  inputs := (splitAtCommas text.toList).filterMap (declared? "input")
  outputs := (splitAtCommas text.toList).filterMap (declared? "output")

section
variable {direction : String} {names : List String} {ports : Ports}

theorem declared?_append (hdirection : ' ' ∉ direction.toList) (other name : String) :
    declared? other (direction.toList ++ ' ' :: name.toList) =
      if direction = other then some name else none := by
  simp [declared?, Text.cut?_append hdirection, String.toList_inj]

/-- Of the declarations in one direction, those in another are all or none. -/
theorem filterMap_declared? (hdirection : ' ' ∉ direction.toList) (other : String)
    (names : List String) :
    ((declarations direction names).map String.toList).filterMap (declared? other) =
      if direction = other then names else [] := by
  by_cases hother : direction = other
  · subst hother
    simp [declarations, List.filterMap_map, Function.comp_def, declared?_append hdirection]
  · simp [declarations, List.filterMap_map, Function.comp_def, declared?_append hdirection, hother]

/-- No declaration has a comma if no name has one. -/
theorem comma_notMem_declarations (hdirection : ',' ∉ direction.toList)
    (hnames : ∀ name ∈ names, ',' ∉ name.toList) :
    ∀ declaration ∈ (declarations direction names).map String.toList, ',' ∉ declaration := by
  intro declaration hmem
  simp only [declarations, List.map_map, List.mem_map, Function.comp_apply] at hmem
  obtain ⟨name, hname, rfl⟩ := hmem
  simp [hdirection, hnames name hname]

/-- A port list is read back if no name has a comma. -/
theorem portsDeclared_portList (hinputs : ∀ name ∈ ports.inputs, ',' ∉ name.toList)
    (houtputs : ∀ name ∈ ports.outputs, ',' ∉ name.toList) :
    portsDeclared (portList ports) = ports := by
  have hinput : ' ' ∉ "input".toList := by decide
  have houtput : ' ' ∉ "output".toList := by decide
  have hcommas : ∀ declaration ∈
      (declarations "input" ports.inputs ++ declarations "output" ports.outputs).map String.toList,
        ',' ∉ declaration := by
    rw [List.map_append, List.forall_mem_append]
    exact ⟨comma_notMem_declarations (by decide) hinputs,
      comma_notMem_declarations (by decide) houtputs⟩
  have hread (other : String) : (splitAtCommas (portList ports).toList).filterMap (declared? other) =
      ((declarations "input" ports.inputs ++ declarations "output" ports.outputs).map
        String.toList).filterMap (declared? other) := by
    rw [portList, String.toList_intercalate]
    by_cases hnone : declarations "input" ports.inputs ++ declarations "output" ports.outputs = []
    · rw [hnone]
      rfl
    · exact congrArg (List.filterMap (declared? other))
        (Text.splitAtCommas_intercalate (by simpa using hnone) hcommas)
  rw [portsDeclared, hread, hread, List.map_append, List.filterMap_append, List.filterMap_append,
    filterMap_declared? hinput, filterMap_declared? hinput, filterMap_declared? houtput,
    filterMap_declared? houtput]
  simp

end

/-! ## Modules -/

/-- The text of a module with a name and a body is its header, the lines of the body, each behind one
blank, and `endmodule`. The first line of the body that is empty and neither the first nor the last
is missing, if there is one, and all other lines are there in their order. So no line is lost that
has anything in it, and a body without such a line is found again by taking the indentation away. The
header declares the inputs and then the outputs, in their order. Names without commas are read back
from it. -/
theorem moduleText_keeps_body {name body : String} (ports : Ports) (hname : name ≠ "")
    (hbody : body ≠ "") :
    let lines := body.toList.splitOn '\n'
    (∃ kept indented, ClosedUp lines kept ∧
      indented = ['\n'].intercalate (kept.map (' ' :: ·)) ∧
        moduleText name ports body = "module " ++ name ++ " (" ++ portList ports ++ ");\n" ++
          String.ofList indented ++ "\nendmodule\n" ∧
            kept.filter (· ≠ []) = lines.filter (· ≠ []) ∧
              (¬HasInnerBlank lines → unindent indented = body.toList)) ∧
      portList ports = ", ".intercalate
        (ports.inputs.map ("input " ++ ·) ++ ports.outputs.map ("output " ++ ·)) ∧
      ((∀ port ∈ ports.inputs ++ ports.outputs, ',' ∉ port.toList) →
        portsDeclared (portList ports) = ports) := by
  intro lines
  refine ⟨?_, rfl, ?_⟩
  · obtain ⟨kept, hkept, hindent⟩ := closedUp_indentBody body.toList
    refine ⟨kept, indentBody body.toList, hkept, hindent, ?_, hkept.filter_eq, ?_⟩
    · rw [moduleText, if_neg (not_or.2 ⟨hname, hbody⟩)]
    · intro hblank
      rw [unindent_indentBody, collapseBlank_of_not_hasInnerBlank hblank]
  · intro hports
    rw [List.forall_mem_append] at hports
    exact portsDeclared_portList hports.1 hports.2

/-- A body that begins and ends with an empty line, which both stay. -/
theorem moduleText_keeps_buffer :
    "buffer" ≠ "" ∧ "\nassign y = a;\n" ≠ "" ∧
      (∃ indented, moduleText "buffer" ⟨["a"], ["y"]⟩ "\nassign y = a;\n" =
          "module buffer (input a, output y);\n" ++ String.ofList indented ++ "\nendmodule\n" ∧
        unindent indented = "\nassign y = a;\n".toList) ∧
      portsDeclared "input a, output y" = ⟨["a"], ["y"]⟩ := by
  have hname : "buffer" ≠ "" := by decide
  have hbody : "\nassign y = a;\n" ≠ "" := by decide
  have hblank : ¬HasInnerBlank ("\nassign y = a;\n".toList.splitOn '\n') := by decide +kernel
  obtain ⟨⟨kept, indented, -, -, htext, -, hbody'⟩, hlist, hread⟩ :=
    moduleText_keeps_body ⟨["a"], ["y"]⟩ hname hbody
  have hports : portList ⟨["a"], ["y"]⟩ = "input a, output y" := by decide +kernel
  rw [hports] at htext hread
  refine ⟨hname, hbody, ⟨indented, ?_, hbody' hblank⟩, hread (by decide)⟩
  rw [htext]
  rfl

/-- Of two empty lines inside the body one stays. -/
example : moduleText "m" ⟨[], []⟩ "a\n\nb\n\nc" = "module m ();\n a\n b\n \n c\nendmodule\n" := by
  decide +kernel

end BlockCircuit.Verilog
