import AppPipeline.Number.Decimal
import AppPipeline.Number.Literal
import AppPipeline.Value.Basic

/-!
# Values in messages

`literal` writes a value unambiguously, texts in quotes; `display` writes a
text as it is, a date or a moment in the form of the calendar, and any other
value as its literal. Values inside containers are always literals. A container
inside itself is written as three points between its brackets.

Integers with too many digits and values that are nested too deeply have no
text; `displayFault?` says when.
-/

namespace AppPipeline

namespace Value

/-! ## Parts -/

def byteLiteral (mark : Char) (b : Nat) : List Char :=
  let c := Char.ofNat b
  if c = '\\' ∨ c = mark then ['\\', c]
  else if c = '\t' then ['\\', 't']
  else if c = '\n' then ['\\', 'n']
  else if c = '\r' then ['\\', 'r']
  else if 0x20 ≤ b ∧ b < 0x7F then [c]
  else '\\' :: 'x' :: Text.hexDigits 2 b

def bytesLiteral (bs : List Nat) : String :=
  let mark := Text.quoteMark (bs.map Char.ofNat)
  "b" ++ String.ofList (mark :: bs.flatMap (byteLiteral mark) ++ [mark])

/-- What stands for a container inside itself. -/
def ellipsis : Value → String
  | .map _ => "\x7b...\x7d"
  | .pair _ _ => "(...)"
  | .set _ => "set(...)"
  | _ => "[...]"

/-! ## Texts -/

mutual

/-- The literal of a value whose references are written by `knot`. -/
def literalWith (knot : Nat → String) : Value → String
  | .null => "None"
  | .bool b => if b then "True" else "False"
  | .int n => toString n
  | .float x => x.text
  | .text s => Text.quoted s
  | .bytes bs => bytesLiteral bs
  | .date d => d.literal
  | .moment t => t.literal
  | .list items => "[" ++ String.intercalate ", " (literals knot items) ++ "]"
  | .pair a b => "(" ++ literalWith knot a ++ ", " ++ literalWith knot b ++ ")"
  | .set [] => "set()"
  | .set (x :: xs) =>
    "\x7b" ++ String.intercalate ", " (literalWith knot x :: literals knot xs) ++ "\x7d"
  | .map entries => "\x7b" ++ String.intercalate ", " (entryLiterals knot entries) ++ "\x7d"
  | .knot n => knot n
termination_by structural v => v

def literals (knot : Nat → String) : List Value → List String
  | [] => []
  | x :: xs => literalWith knot x :: literals knot xs
termination_by structural xs => xs

def entryLiterals (knot : Nat → String) : List (Value × Value) → List String
  | [] => []
  | (k, v) :: rest =>
    (literalWith knot k ++ ": " ++ literalWith knot v) :: entryLiterals knot rest
termination_by structural xs => xs

end

/-- The most containers around a value that is written. -/
def deepest : Nat := 985

/-- The literal of a container inside those of the path; `left` bounds the nesting. -/
def knotLiteral (knots : Knots) (left : Nat) (path : List Nat) (n : Nat) : String :=
  let v := resolve knots (.knot n)
  match left with
  | 0 => v.ellipsis
  | l + 1 =>
    if path.contains n then v.ellipsis else literalWith (knotLiteral knots l (n :: path)) v

def literal (knots : Knots) (v : Value) : String := literalWith (knotLiteral knots deepest []) v

def display (knots : Knots) : Value → String
  | .text s => s
  | .date d => d.text
  | .moment t => t.text
  | v => v.literal knots

/-! ## Values without a text -/

inductive DisplayFault where
  | number (fault : Literal.Fault)
  | tooDeep
  deriving DecidableEq, Repr

def DisplayFault.message : DisplayFault → String
  | .number f => f.message
  | .tooDeep => "nested too deeply"

mutual

/-- Why a value has no literal; `level` counts the containers that may be around its parts. -/
def faultWith (knot : Nat → Nat → Option DisplayFault) (level : Nat) : Value → Option DisplayFault
  | .int n => if Literal.isWritable n then none else some (.number .tooLarge)
  | .list items => if level = 0 then some .tooDeep else faultAmong knot (level - 1) items
  | .set items => if level = 0 then some .tooDeep else faultAmong knot (level - 1) items
  | .pair a b =>
    if level = 0 then some .tooDeep
    else (faultWith knot (level - 1) a).or (faultWith knot (level - 1) b)
  | .map entries => if level = 0 then some .tooDeep else entryFault knot (level - 1) entries
  | .knot n => knot level n
  | _ => none
termination_by structural v => v

def faultAmong (knot : Nat → Nat → Option DisplayFault) (level : Nat) :
    List Value → Option DisplayFault
  | [] => none
  | x :: xs => (faultWith knot level x).or (faultAmong knot level xs)
termination_by structural xs => xs

def entryFault (knot : Nat → Nat → Option DisplayFault) (level : Nat) :
    List (Value × Value) → Option DisplayFault
  | [] => none
  | (k, v) :: rest =>
    ((faultWith knot level k).or (faultWith knot level v)).or (entryFault knot level rest)
termination_by structural xs => xs

end

def knotFault (knots : Knots) (left : Nat) (path : List Nat) (level n : Nat) :
    Option DisplayFault :=
  match left with
  | 0 => some .tooDeep
  | l + 1 =>
    if path.contains n then none
    else faultWith (knotFault knots l (n :: path)) level (resolve knots (.knot n))

/-- Why a value has no text. -/
def displayFault? (knots : Knots) (v : Value) : Option DisplayFault :=
  faultWith (knotFault knots (deepest + 1) []) deepest v

end Value

/-- JSON data in a message. -/
def Json.display (j : Json) : String := (Value.ofJson j).display #[]

def Json.literal (j : Json) : String := (Value.ofJson j).literal #[]

end AppPipeline
