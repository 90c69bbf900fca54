/-!
# Pieces of a text

A text is cut at every occurrence of a separator, so a text with `n` separators has `n + 1` pieces,
some of which may be empty. `joinPieces` puts them together again. Lines are the pieces between line
breaks.
-/

namespace BlockCircuit.Text

/-- The pieces of a text between the separators. -/
def pieces (sep : Char) : List Char → List (List Char)
  | [] => [[]]
  | c :: cs =>
      if c = sep then [] :: pieces sep cs
      else
        match pieces sep cs with
        | [] => [[c]]
        | p :: ps => (c :: p) :: ps

/-- Pieces with a separator between each two. -/
def joinPieces (sep : Char) : List (List Char) → List Char
  | [] => []
  | [p] => p
  | p :: ps => p ++ sep :: joinPieces sep ps

/-- There is always a piece. -/
theorem pieces_ne_nil (sep : Char) (cs : List Char) : pieces sep cs ≠ [] := by
  cases cs with
  | nil => simp [pieces]
  | cons c cs =>
    unfold pieces
    split
    · simp
    · split <;> simp

/-- Cutting loses nothing. -/
theorem joinPieces_pieces (sep : Char) (cs : List Char) : joinPieces sep (pieces sep cs) = cs := by
  induction cs with
  | nil => rfl
  | cons c cs ih =>
    unfold pieces
    cases h : pieces sep cs with
    | nil => exact absurd h (pieces_ne_nil sep cs)
    | cons p ps =>
      rw [h] at ih
      split
      · rename_i hc
        subst hc
        simp [joinPieces, ih]
      · cases ps with
        | nil => simpa [joinPieces] using ih
        | cons q qs => simpa [joinPieces] using ih

/-! ## Lines -/

/-- The text with the first two line breaks in a row made one, that is, without its first empty line
between two others. -/
def collapseBlank : List Char → List Char
  | '\n' :: '\n' :: cs => '\n' :: cs
  | c :: cs => c :: collapseBlank cs
  | [] => []

/-- The number of lines of a text, where an empty last one does not count. -/
def countLines (cs : List Char) : Nat :=
  let lines := pieces '\n' cs
  if lines.getLast? = some [] then lines.length - 1 else lines.length

end BlockCircuit.Text
