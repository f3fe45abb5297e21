/-!
# Cutting texts at separators

A production line is cut at its arrows `->` and a dotted item at its dots. Cutting scans from
the left and takes the first separator it meets, so the pieces never overlap a separator and
joining them with the separator gives the text back.
-/

namespace GrammarBench.Text

/-- The pieces of a text between its arrows `->`, scanning from the left. A text without an
arrow is one piece. -/
def cutArrows : List Char → List (List Char)
  | [] => [[]]
  | '-' :: '>' :: rest => [] :: cutArrows rest
  | c :: rest =>
    match cutArrows rest with
    | piece :: pieces => (c :: piece) :: pieces
    | [] => [[c]]

/-- Joining the pieces with arrows gives the text back. -/
def joinArrows : List (List Char) → List Char
  | [] => []
  | [piece] => piece
  | piece :: pieces => piece ++ '-' :: '>' :: joinArrows pieces

/-- Cutting always gives at least one piece. -/
theorem cutArrows_ne_nil (cs : List Char) : cutArrows cs ≠ [] := by
  fun_induction cutArrows cs <;> simp_all

/-- Putting a character in front of the first piece puts it in front of the joined text. -/
theorem joinArrows_cons_cons (c : Char) (piece : List Char) (pieces : List (List Char)) :
    joinArrows ((c :: piece) :: pieces) = c :: joinArrows (piece :: pieces) := by
  cases pieces <;> simp [joinArrows]

/-- Joining the pieces with arrows gives the text back. -/
theorem joinArrows_cutArrows (cs : List Char) : joinArrows (cutArrows cs) = cs := by
  fun_induction cutArrows cs with
  | case1 => rfl
  | case2 rest ih =>
    obtain ⟨piece, pieces, split⟩ := List.exists_cons_of_ne_nil (cutArrows_ne_nil rest)
    rw [split] at ih ⊢
    simp [joinArrows, ih]
  | case3 c rest _ piece pieces split ih =>
    rw [split] at ih
    rw [joinArrows_cons_cons, ih]
  | case4 c rest _ split => exact absurd split (cutArrows_ne_nil rest)

example : cutArrows "S->aSb".toList = ["S".toList, "aSb".toList] := by decide
example : cutArrows "S-->a".toList = ["S-".toList, "a".toList] := by decide
example : cutArrows "S->a->b".toList = ["S".toList, "a".toList, "b".toList] := by decide
example : cutArrows "S".toList = ["S".toList] := by decide

end GrammarBench.Text
