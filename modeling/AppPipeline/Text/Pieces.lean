/-!
# Pieces of a text

`pieces` cuts a text at every separator; joined by it, the pieces give the
text again (`join_pieces`).
-/

namespace AppPipeline.Text

/-- The parts between separators; there is at least one. -/
def pieces (sep : Char) : List Char → List (List Char)
  | [] => [[]]
  | c :: s =>
    if c = sep then [] :: pieces sep s
    else
      match pieces sep s with
      | p :: ps => (c :: p) :: ps
      | [] => [[c]]

theorem pieces_ne_nil (sep : Char) (s : List Char) : pieces sep s ≠ [] := by
  cases s with
  | nil => simp [pieces]
  | cons c s =>
    simp only [pieces]
    split
    · simp
    · split <;> simp

/-- The pieces with the separator between them. -/
def join (sep : Char) : List (List Char) → List Char
  | [] => []
  | [p] => p
  | p :: q :: ps => p ++ sep :: join sep (q :: ps)

theorem join_pieces (sep : Char) (s : List Char) : join sep (pieces sep s) = s := by
  induction s with
  | nil => rfl
  | cons c s ih =>
    simp only [pieces]
    split
    · next h =>
      subst h
      cases hp : pieces c s with
      | nil => exact absurd hp (pieces_ne_nil c s)
      | cons p ps => simp [join, ← hp, ih]
    · split
      · next p ps hp =>
        rw [hp] at ih
        cases ps with
        | nil => simpa [join] using ih
        | cons q qs => simpa [join] using ih
      · next hp => exact absurd hp (pieces_ne_nil sep s)

end AppPipeline.Text
