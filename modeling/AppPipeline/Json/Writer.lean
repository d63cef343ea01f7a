import AppPipeline.Json.Basic
import AppPipeline.Number.Decimal
import AppPipeline.Text.Code
import AppPipeline.Text.Hex

/-!
# Writing JSON text

Texts are written in ASCII: other characters, and controls without a short
escape, become code escapes of four lower-case digits, in pairs past U+FFFF.
The delete character counts as a control.
A layout is compact or indented; empty lists and objects take no lines.
-/

namespace AppPipeline.Json

/-! ## Texts and numbers -/

def codeEscape (n : Nat) : List Char := '\\' :: 'u' :: Text.hexDigits 4 n

/-- The letter that makes a short escape for a code. -/
def shortEscape? (n : Nat) : Option Char :=
  if n = 0x22 then some '"'
  else if n = 0x5C then some '\\'
  else if n = 0x0A then some 'n'
  else if n = 0x0D then some 'r'
  else if n = 0x09 then some 't'
  else if n = 0x08 then some 'b'
  else if n = 0x0C then some 'f'
  else none

def writtenCode (n : Nat) : List Char :=
  match shortEscape? n with
  | some letter => ['\\', letter]
  | none =>
    if 0x20 ≤ n ∧ n < 0x7F then [Char.ofNat n]
    else if n < 0x10000 then codeEscape n
    else
      let beyond := n - 0x10000
      codeEscape (0xD800 + beyond / 0x400) ++ codeEscape (0xDC00 + beyond % 0x400)

def writtenText (s : String) : List Char :=
  '"' :: (Text.codes s.toList).flatMap writtenCode ++ ['"']

def writtenFloat : Double → List Char
  | .nan => "NaN".toList
  | .infinite negative => (if negative then "-Infinity" else "Infinity").toList
  | x => x.text.toList

/-! ## Values -/

/-- The texts between the parts of a list or an object. -/
structure Spacing where
  /-- before the first item, at the depth of the items -/
  opening : Nat → List Char
  /-- between two items, at their depth -/
  between : Nat → List Char
  /-- after the last item, at the depth of the container -/
  closing : Nat → List Char

def newLine (depth : Nat) : List Char := '\n' :: List.replicate (2 * depth) ' '

/-- All on one line. -/
def Spacing.compact : Spacing := ⟨fun _ => [], fun _ => [',', ' '], fun _ => []⟩

/-- An item a line, two spaces for each depth. -/
def Spacing.indented : Spacing := ⟨newLine, fun d => ',' :: newLine d, newLine⟩

mutual

def written (sp : Spacing) (depth : Nat) : Json → List Char
  | .null => "null".toList
  | .bool b => (if b then "true" else "false").toList
  | .int n => (toString n).toList
  | .float x => writtenFloat x
  | .str s => writtenText s
  | .list [] => ['[', ']']
  | .list (x :: xs) =>
    '[' :: sp.opening (depth + 1) ++ written sp (depth + 1) x ++ writtenItems sp (depth + 1) xs
      ++ sp.closing depth ++ [']']
  | .object [] => ['\x7b', '\x7d']
  | .object ((k, x) :: xs) =>
    '\x7b' :: sp.opening (depth + 1) ++ writtenText k ++ ':' :: ' ' :: written sp (depth + 1) x
      ++ writtenFields sp (depth + 1) xs ++ sp.closing depth ++ ['\x7d']
termination_by structural j => j

def writtenItems (sp : Spacing) (depth : Nat) : List Json → List Char
  | [] => []
  | x :: xs => sp.between depth ++ written sp depth x ++ writtenItems sp depth xs
termination_by structural xs => xs

def writtenFields (sp : Spacing) (depth : Nat) : List (String × Json) → List Char
  | [] => []
  | (k, x) :: xs =>
    sp.between depth ++ writtenText k ++ ':' :: ' ' :: written sp depth x
      ++ writtenFields sp depth xs
termination_by structural xs => xs

end

/-- The text of a value on one line. -/
def compactText (j : Json) : String := String.ofList (written .compact 0 j)

/-- The text of a value with an item a line. -/
def indentedText (j : Json) : String := String.ofList (written .indented 0 j)

end AppPipeline.Json
