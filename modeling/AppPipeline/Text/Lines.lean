/-!
# Lines of a text

A line ends at a line feed, a carriage return (the pair of both ends one
line), a vertical tab, a form feed, U+001C to U+001E, U+0085, U+2028 or
U+2029. A last line without an end counts as a line; an empty text has none.
-/

namespace AppPipeline.Text

def isLineEnd (c : Char) : Bool :=
  let n := c.toNat
  (10 ≤ n && n ≤ 13) || (28 ≤ n && n ≤ 30) || n == 0x85 || n == 0x2028 || n == 0x2029

/-- Splits at line ends; `line` holds the present line backwards. -/
def linesFrom (line : List Char) : List Char → List (List Char)
  | [] => if line.isEmpty then [] else [line.reverse]
  | '\r' :: '\n' :: s => line.reverse :: linesFrom [] s
  | c :: s => if isLineEnd c then line.reverse :: linesFrom [] s else linesFrom (c :: line) s

/-- The lines of a text, without their ends. -/
def lines (s : String) : List String := (linesFrom [] s.toList).map String.ofList

theorem lines_empty : lines "" = [] := by decide

/-! ## Line feeds only -/

/-- Every carriage return, and every pair of one with a line feed, becomes a line feed. -/
def unifyBreaks : List Char → List Char
  | [] => []
  | '\r' :: '\n' :: s => '\n' :: unifyBreaks s
  | c :: s => (if c = '\r' then '\n' else c) :: unifyBreaks s

end AppPipeline.Text
