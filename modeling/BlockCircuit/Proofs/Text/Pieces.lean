import BlockCircuit.Text.Pieces

/-!
# Cutting texts and closing up blank lines

A text that is made of parts with something between them can be cut into its parts again, as long as
no part has what stands between them. Modules and pin constraints are written in lines, port lists
are written with commas, and what a reader of such a text gets back is said here.

* `pieces_eq_splitOn`, `pieces_joinPieces`, `splitOn_flatMap` — pieces are those of the library, and are
  found again;
* `cut?_append`, `splitAtCommas_intercalate` — the same for one cut, and for commas with a blank;
* `ClosedUp` — the first empty line between two others is deleted, and no other line;
* `closedUp_collapseBlank` — this is what making one line break of two comes to.
-/

namespace BlockCircuit.Text

variable {sep c : Char} {cs front back p : List Char} {ps : List (List Char)}

/-! ## Pieces -/

theorem pieces_cons (sep c : Char) (cs : List Char) :
    pieces sep (c :: cs) =
      if c = sep then [] :: pieces sep cs else (pieces sep cs).modifyHead (c :: ·) := by
  rw [pieces]
  by_cases hc : c = sep
  · rw [if_pos hc, if_pos hc]
  · rw [if_neg hc, if_neg hc]
    cases h : pieces sep cs with
    | nil => exact absurd h (pieces_ne_nil sep cs)
    | cons p ps => rfl

/-- Cutting at each separator is what the library calls splitting. -/
theorem pieces_eq_splitOn (sep : Char) (cs : List Char) : pieces sep cs = cs.splitOn sep := by
  induction cs with
  | nil => simp [pieces]
  | cons c cs ih => simp [pieces_cons, List.splitOn_cons_eq_if_modifyHead, ih]

theorem joinPieces_eq_intercalate (sep : Char) (ps : List (List Char)) :
    joinPieces sep ps = [sep].intercalate ps := by
  induction ps with
  | nil => simp [joinPieces]
  | cons p ps ih =>
    cases ps with
    | nil => simp [joinPieces]
    | cons q qs => simp [joinPieces, ih]

theorem notMem_of_mem_pieces (h : p ∈ pieces sep cs) : sep ∉ p := by
  induction cs generalizing p with
  | nil => simp_all [pieces]
  | cons c cs ih =>
    unfold pieces at h
    split at h
    · rcases List.mem_cons.1 h with rfl | h
      · exact List.not_mem_nil
      · exact ih h
    · rename_i hc
      split at h
      · obtain rfl := List.mem_singleton.1 h
        simpa using Ne.symm hc
      · rename_i q qs hpieces
        rcases List.mem_cons.1 h with rfl | h
        · have hq : sep ∉ q := ih (hpieces ▸ List.mem_cons_self)
          simp [Ne.symm hc, hq]
        · exact ih (hpieces ▸ List.mem_cons_of_mem q h)

/-- Pieces without a separator are found again when they have been joined. -/
theorem pieces_joinPieces (hne : ps ≠ []) (hps : ∀ p ∈ ps, sep ∉ p) :
    pieces sep (joinPieces sep ps) = ps := by
  rw [pieces_eq_splitOn, joinPieces_eq_intercalate, List.splitOn_intercalate sep hps hne]

/-- A text in which a separator follows every part is cut into the parts and an empty rest. -/
theorem splitOn_flatMap (hps : ∀ p ∈ ps, sep ∉ p) :
    (ps.flatMap (· ++ [sep])).splitOn sep = ps ++ [[]] := by
  induction ps with
  | nil => simp
  | cons p ps ih =>
    rw [List.forall_mem_cons] at hps
    rw [List.flatMap_cons, List.append_assoc, List.singleton_append,
      List.splitOn_append_cons_self_of_not_mem hps.1, ih hps.2, List.cons_append]

/-! ## One cut -/

/-- What stands before the first separator of a text, and what stands after it. -/
def cut? (sep : Char) : List Char → Option (List Char × List Char)
  | [] => none
  | c :: cs => if c = sep then some ([], cs) else (cut? sep cs).map (Prod.map (c :: ·) id)

/-- A text is cut where the separator comes first. -/
theorem cut?_append (h : sep ∉ front) : cut? sep (front ++ sep :: back) = some (front, back) := by
  induction front with
  | nil => simp [cut?]
  | cons c front ih =>
    obtain ⟨hc, hfront⟩ := not_or.1 (mt List.mem_cons.2 h)
    simp [cut?, Ne.symm hc, ih hfront]

/-! ## Commas -/

/-- The parts of a text between commas that have a blank after them. -/
def splitAtCommas : List Char → List (List Char)
  | ',' :: ' ' :: cs => [] :: splitAtCommas cs
  | c :: cs => (splitAtCommas cs).modifyHead (c :: ·)
  | [] => [[]]

theorem splitAtCommas_cons (hc : c ≠ ',') (cs : List Char) :
    splitAtCommas (c :: cs) = (splitAtCommas cs).modifyHead (c :: ·) := by
  rw [splitAtCommas]
  rintro rest rfl
  exact absurd rfl hc

theorem splitAtCommas_of_notMem (h : ',' ∉ p) : splitAtCommas p = [p] := by
  induction p with
  | nil => rfl
  | cons c p ih =>
    obtain ⟨hc, hp⟩ := not_or.1 (mt List.mem_cons.2 h)
    rw [splitAtCommas_cons (Ne.symm hc), ih hp, List.modifyHead_cons]

theorem splitAtCommas_append (h : ',' ∉ p) (cs : List Char) :
    splitAtCommas (p ++ ',' :: ' ' :: cs) = p :: splitAtCommas cs := by
  induction p with
  | nil => rfl
  | cons c p ih =>
    obtain ⟨hc, hp⟩ := not_or.1 (mt List.mem_cons.2 h)
    rw [List.cons_append, splitAtCommas_cons (Ne.symm hc), ih hp, List.modifyHead_cons]

/-- Parts without a comma are found again. -/
theorem splitAtCommas_intercalate (hne : ps ≠ []) (hps : ∀ p ∈ ps, ',' ∉ p) :
    splitAtCommas ([',', ' '].intercalate ps) = ps := by
  induction ps with
  | nil => exact absurd rfl hne
  | cons p ps ih =>
    rw [List.forall_mem_cons] at hps
    cases ps with
    | nil => simpa using splitAtCommas_of_notMem hps.1
    | cons q qs =>
      rw [List.intercalate_cons_cons, List.append_assoc, List.cons_append, List.singleton_append,
        splitAtCommas_append hps.1, ih (List.cons_ne_nil q qs) hps.2]

/-! ## Blank lines -/

/-- Some empty line is neither the first line nor the last. -/
def HasInnerBlank (lines : List (List Char)) : Prop :=
  [] ∈ lines.tail.dropLast

instance : DecidablePred HasInnerBlank := fun lines =>
  inferInstanceAs (Decidable ([] ∈ lines.tail.dropLast))

/-- The lines that are left when the first empty line that is neither the first line nor the last is
deleted, if there is one. -/
inductive ClosedUp : (lines kept : List (List Char)) → Prop
  | unchanged {lines : List (List Char)} : ¬HasInnerBlank lines → ClosedUp lines lines
  | deleted {first : List Char} {front back : List (List Char)} :
      (∀ line ∈ front, line ≠ []) → back ≠ [] →
        ClosedUp (first :: (front ++ [] :: back)) (first :: (front ++ back))

namespace ClosedUp

variable {lines kept : List (List Char)}

/-- What the first line holds does not matter. -/
theorem modifyHead (f : List Char → List Char) (h : ClosedUp lines kept) :
    ClosedUp (lines.modifyHead f) (kept.modifyHead f) := by
  cases h with
  | unchanged h =>
    refine .unchanged ?_
    cases lines with
    | nil => exact h
    | cons first lines => exact h
  | deleted hfront hback => exact .deleted hfront hback

/-- One more line before a line that is not empty, or that is the only one. -/
theorem cons {first : List Char} (h : ClosedUp lines kept)
    (hfirst : lines.head? = some [] → lines.tail = []) :
    ClosedUp (first :: lines) (first :: kept) := by
  cases h with
  | unchanged h =>
    refine .unchanged ?_
    cases lines with
    | nil => exact h
    | cons line lines =>
      cases lines with
      | nil => simp [HasInnerBlank]
      | cons next lines =>
        have hline : line ≠ [] := by
          rintro rfl
          cases hfirst rfl
        simp only [HasInnerBlank, List.tail_cons, List.dropLast_cons_cons, List.mem_cons] at h ⊢
        rintro (hblank | hblank)
        · exact hline hblank.symm
        · exact h hblank
  | @deleted line front back hfront hback =>
    have hline : line ≠ [] := by
      rintro rfl
      simpa using hfirst rfl
    exact .deleted (List.forall_mem_cons.2 ⟨hline, hfront⟩) hback

/-- All lines that are not empty are kept, in their order. -/
theorem filter_eq (h : ClosedUp lines kept) :
    kept.filter (· ≠ []) = lines.filter (· ≠ []) := by
  cases h with
  | unchanged => rfl
  | deleted => simp [List.filter_cons]

/-- Without an empty line between two others nothing is deleted. -/
theorem eq_of_not_hasInnerBlank (h : ClosedUp lines kept) (hlines : ¬HasInnerBlank lines) :
    kept = lines := by
  cases h with
  | unchanged => rfl
  | @deleted first front back _ hback =>
    refine absurd ?_ hlines
    have hlast : (front ++ [] :: back).dropLast = front ++ [] :: back.dropLast := by
      rw [List.dropLast_append_of_ne_nil (List.cons_ne_nil _ _), List.dropLast_cons_of_ne_nil hback]
    rw [HasInnerBlank, List.tail_cons, hlast]
    simp

end ClosedUp

/-- Making one of the first two line breaks in a row deletes the first empty line between two
others. -/
theorem closedUp_collapseBlank (cs : List Char) :
    ClosedUp (pieces '\n' cs) (pieces '\n' (collapseBlank cs)) := by
  induction cs using collapseBlank.induct with
  | case1 cs =>
    have hfront : ∀ line ∈ ([] : List (List Char)), line ≠ [] := nofun
    exact .deleted hfront (pieces_ne_nil '\n' cs)
  | case2 c cs hnext ih =>
    rw [collapseBlank, pieces_cons, pieces_cons]
    · by_cases hc : c = '\n'
      · rw [if_pos hc, if_pos hc]
        -- No line break follows, so the next line is not empty unless the text ends.
        refine ih.cons ?_
        intro hhead
        cases cs with
        | nil => rfl
        | cons d cs =>
          by_cases hd : d = '\n'
          · exact (hnext cs hc (hd ▸ rfl)).elim
          · rw [pieces_cons, if_neg hd] at hhead
            cases h : pieces '\n' cs <;> simp [h] at hhead
      · rw [if_neg hc, if_neg hc]
        exact ih.modifyHead _
    · exact hnext
  | case3 => exact .unchanged (by decide)

end BlockCircuit.Text
