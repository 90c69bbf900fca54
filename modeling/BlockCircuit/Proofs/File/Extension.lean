import BlockCircuit.Proofs.File.Writing
import BlockCircuit.Proofs.Text.Pieces

/-!
# Files that differ in their extension

A run that puts out everything writes two files whose paths differ in the extension only. A path
with a file name gives a path with another last name for each extension, so the two lead to two
places. A path without one stays as it is, and cannot be written.

* `names_withExtension` — what the names of a path with another extension are;
* `place_ne_of_extension_ne` — paths that differ in their extension lead to different places;
* `receives_of_wrote` — two files that differ in their extension are written side by side.
-/

namespace BlockCircuit

namespace File

variable {path extension : String} {front : List String} {name : List Char}

/-- A file name is found at the end of a path. -/
theorem dropTail_of_isPlain {rest : List (List Char)} (h : IsPlain (String.ofList name)) :
    dropTail (name :: rest) = name :: rest := by
  have hempty : name ≠ [] := by
    rintro rfl
    exact h.1 rfl
  have hdot : name ≠ ['.'] := by
    rintro rfl
    exact h.2.1 rfl
  cases rest with
  | nil => simp [dropTail, hempty]
  | cons other rest => simp [dropTail, hempty, hdot]

theorem dropTail_subset (names : List (List Char)) : dropTail names ⊆ names := by
  fun_induction dropTail names with
  | case1 => exact List.Subset.refl _
  | case2 => exact List.nil_subset _
  | case3 => exact List.Subset.refl _
  | case4 name rest _ _ ih => exact List.subset_cons_of_subset name ih
  | case5 => exact List.Subset.refl _

theorem notMem_stem (h : '/' ∉ name) : '/' ∉ stem name := by
  unfold stem
  dsimp only
  split
  · exact h
  · intro hmem
    have hmem := List.mem_of_mem_drop (List.mem_reverse.1 hmem)
    exact h (List.mem_reverse.1 ((List.dropWhile_sublist _).subset hmem))

/-- The last of the names of a path is the last of its pieces. -/
theorem reverse_pieces_of_names {path : String} {front : List String} {name : String}
    (h : names path = front ++ [name]) :
    ∃ rest, (Text.pieces '/' path.toList).reverse = name.toList :: rest := by
  obtain ⟨before, last, hpieces, -, hlast⟩ := List.map_eq_append_iff.1 h
  obtain ⟨piece, rfl, rfl⟩ := List.map_eq_singleton_iff.1 hlast
  exact ⟨before.reverse, by rw [hpieces, String.toList_ofList]; simp⟩

/-- If a path with some extension ends in a plain name, so does the path with any other extension:
the name is cut off before the extension, and all else is the same. -/
theorem names_withExtension {path extension₀ : String} {front₀ : List String} {name₀ : String}
    (h : names (withExtension path extension₀) = front₀ ++ [name₀]) (hname : IsPlain name₀) :
    ∃ front stem, ∀ extension : String, '/' ∉ extension.toList →
      names (withExtension path extension) =
        front ++ [String.ofList (stem ++ '.' :: extension.toList)] := by
  have hplain : IsPlain (String.ofList name₀.toList) := by rwa [String.ofList_toList]
  unfold withExtension at h ⊢
  split at h
  · rename_i hdrop
    obtain ⟨rest, hpieces⟩ := reverse_pieces_of_names h
    rw [hpieces, dropTail_of_isPlain hplain] at hdrop
    cases hdrop
  · rename_i name parents hdrop
    split at h
    · rename_i hdots
      obtain ⟨rest, hpieces⟩ := reverse_pieces_of_names h
      rw [hpieces, dropTail_of_isPlain hplain] at hdrop
      cases hdrop
      rcases hdots with hdot | hdots
      · exact absurd (congrArg String.ofList hdot) hplain.2.1
      · exact absurd (congrArg String.ofList hdots) hplain.2.2
    · rename_i hdots
      refine ⟨parents.reverse.map String.ofList, stem name, ?_⟩
      intro extension hextension
      have hslash : ∀ p ∈ name :: parents, '/' ∉ p := by
        intro p hp
        have hmem := dropTail_subset _ (hdrop ▸ hp)
        exact Text.notMem_of_mem_pieces (List.mem_reverse.1 hmem)
      rw [if_neg hdots, names, String.toList_ofList, Text.pieces_joinPieces]
      · simp
      · simp
      · intro p hp
        rcases List.mem_append.1 hp with hp | hp
        · exact hslash p (List.mem_cons_of_mem _ (List.mem_reverse.1 hp))
        · obtain rfl := List.mem_singleton.1 hp
          have hstem := notMem_stem (hslash name List.mem_cons_self)
          simp [hstem, hextension]

namespace Tree

variable {t t₁ t₂ : Tree} {path e₁ e₂ text₁ text₂ : String} {place₁ place₂ : List String}

/-- Paths that differ in their extension lead to different places. -/
theorem place_ne_of_extension_ne (h₁ : t₁.IsFilePath (withExtension path e₁) place₁)
    (h₂ : t₂.IsFilePath (withExtension path e₂) place₂) (he₁ : '/' ∉ e₁.toList)
    (he₂ : '/' ∉ e₂.toList) (hne : e₁ ≠ e₂) : place₁ ≠ place₂ := by
  obtain ⟨front₁, name₁, parent₁, hnames₁, hname₁, -, -, rfl⟩ := h₁.names
  obtain ⟨front₂, name₂, parent₂, hnames₂, -, -, -, rfl⟩ := h₂.names
  obtain ⟨front, stem, hstem⟩ := names_withExtension hnames₁ hname₁
  have hlast₁ := List.append_inj_right' ((hstem e₁ he₁).symm.trans hnames₁) rfl
  have hlast₂ := List.append_inj_right' ((hstem e₂ he₂).symm.trans hnames₂) rfl
  intro hplace
  have hlast := List.append_inj_right' hplace rfl
  rw [← hlast₁, ← hlast₂, List.singleton_inj, String.ofList_inj] at hlast
  have hext := List.append_cancel_left hlast
  exact hne (String.toList_inj.1 (List.cons.inj hext).2)

/-- A file holds what it held after another one is written beside it, or a part of that one. -/
theorem Wrote.holds_of_extension_ne {stop : Option Fault}
    (h₁ : Wrote t (withExtension path e₁) text₁ t₁ none)
    (h₂ : Wrote t₁ (withExtension path e₂) text₂ t₂ stop) (he₁ : '/' ∉ e₁.toList)
    (he₂ : '/' ∉ e₂.toList) (hne : e₁ ≠ e₂) :
    t₂.Holds (withExtension path e₁) (Text.toBytes text₁) := by
  cases h₁ with
  | whole hfile₁ =>
    cases h₂ with
    | refused => exact hfile₁.holds_put
    | brokeOff hfile₂ | whole hfile₂ =>
      have hplaces := place_ne_of_extension_ne hfile₁ hfile₂ he₁ he₂ hne
      exact holds_put_of_ne hfile₁.resolve_put hfile₁.entry?_put hfile₂.noDirectory hplaces

/-- Two files whose paths differ in the extension are written side by side. -/
theorem receives_of_wrote (h₁ : Wrote t (withExtension path e₁) text₁ t₁ none)
    (h₂ : Wrote t₁ (withExtension path e₂) text₂ t₂ none) (he₁ : '/' ∉ e₁.toList)
    (he₂ : '/' ∉ e₂.toList) (hne : e₁ ≠ e₂) :
    t.Receives [(withExtension path e₁, text₁), (withExtension path e₂, text₂)] t₂ := by
  have hfirst := h₁.holds_of_extension_ne h₂ he₁ he₂ hne
  have hsecond := h₂.receives
  exact ⟨List.forall_mem_cons.2 ⟨hfirst, hsecond.holds⟩, h₁.keepsBut_cons hsecond.keeps⟩

end Tree

end File

end BlockCircuit
