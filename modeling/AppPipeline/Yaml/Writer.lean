import AppPipeline.Json.Basic
import AppPipeline.Number.Decimal
import AppPipeline.Yaml.Scalar

/-!
# Writing YAML

`write` lays JSON data out in blocks. An entry of a mapping starts a line;
its value follows the colon, or the next lines if it has parts. Lists in a
mapping are not indented further. A key that is empty, long or of several
lines is written after a question mark. A document that a reader could take
to go on ends with three points.
-/

namespace AppPipeline.Yaml

/-- The plain text of a scalar that is no text. -/
def plainScalar : Json → List Char
  | .null => "null".toList
  | .bool b => (if b then "true" else "false").toList
  | .int n => (toString n).toList
  | .float x => x.yamlText.toList
  | _ => []

/-! ## Blocks -/

mutual

/-- A value right after a mark, which its parts follow on the same line at `indent`. -/
def afterMark (indent : Nat) : Json → List Char
  | .str s => ' ' :: textLine indent indent s.toList
  | .list xs => if xs.isEmpty then [' ', '[', ']', '\n'] else ' ' :: items true indent xs
  | .object es =>
    if es.isEmpty then [' ', '\x7b', '\x7d', '\n'] else ' ' :: entries true indent es
  | j => ' ' :: plainScalar j ++ ['\n']
termination_by structural j => j

/-- A value after a key at `indent` and its colon, which ends at `column`. -/
def afterKey (indent column : Nat) : Json → List Char
  | .str s => ' ' :: textLine (indent + 2) (column + 1) s.toList
  | .list xs => if xs.isEmpty then [' ', '[', ']', '\n'] else '\n' :: items false indent xs
  | .object es =>
    if es.isEmpty then [' ', '\x7b', '\x7d', '\n'] else '\n' :: entries false (indent + 2) es
  | j => ' ' :: plainScalar j ++ ['\n']
termination_by structural j => j

/-- The items of a list at `indent`; the first may stand behind a mark. -/
def items (behind : Bool) (indent : Nat) : List Json → List Char
  | [] => []
  | x :: xs =>
    (if behind then [] else spaces indent) ++ '-' :: afterMark (indent + 2) x
      ++ items false indent xs
termination_by structural xs => xs

/-- The entries of a mapping at `indent`; the first may stand behind a mark. -/
def entries (behind : Bool) (indent : Nat) : List (String × Json) → List Char
  | [] => []
  | (k, v) :: es =>
    (if behind then [] else spaces indent)
      ++ (if isSimpleKey k.toList then
          let key := keyText indent k.toList
          key ++ ':' :: afterKey indent (indent + (Text.codes key).length + 1) v
        else
          '?' :: ' ' :: textLine (indent + 2) (indent + 2) k.toList
            ++ spaces indent ++ ':' :: afterMark (indent + 2) v)
      ++ entries false indent es
termination_by structural es => es

end

/-! ## Documents -/

/-- The text, written as a line, could go on. -/
def textEndsOpen (s : List Char) : Bool := styleOf false s == .literal && keepsBreaks s

mutual

/-- The last text of the value could go on. -/
def endsOpen : Json → Bool
  | .str s => textEndsOpen s.toList
  | .list xs => itemsEndOpen xs
  | .object es => entriesEndOpen es
  | _ => false
termination_by structural j => j

def itemsEndOpen : List Json → Bool
  | [] => false
  | x :: xs => if xs.isEmpty then endsOpen x else itemsEndOpen xs
termination_by structural xs => xs

def entriesEndOpen : List (String × Json) → Bool
  | [] => false
  | (_, v) :: es => if es.isEmpty then endsOpen v else entriesEndOpen es
termination_by structural es => es

end

def endMark : List Char := ['.', '.', '.', '\n']

def document : Json → List Char
  | .str s =>
    let cs := s.toList
    textLine 2 0 cs ++ (if styleOf false cs == .plain || textEndsOpen cs then endMark else [])
  | .list xs =>
    if xs.isEmpty then ['[', ']', '\n']
    else items true 0 xs ++ (if itemsEndOpen xs then endMark else [])
  | .object es =>
    if es.isEmpty then ['\x7b', '\x7d', '\n']
    else entries true 0 es ++ (if entriesEndOpen es then endMark else [])
  | j => plainScalar j ++ '\n' :: endMark

/-- The YAML text of JSON data. -/
def write (j : Json) : String := String.ofList (document j)

/-- The most levels of data that is written. -/
def mostLevels : Nat := 330

/-- The YAML text of JSON data, unless it has too many levels. -/
def write? (j : Json) : Option String := if j.levels ≤ mostLevels then some (write j) else none

end AppPipeline.Yaml
