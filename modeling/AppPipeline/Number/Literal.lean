import AppPipeline.Number.Double
import AppPipeline.Text.Blank
import AppPipeline.Text.Digit
import AppPipeline.Text.Quoted

/-!
# Numbers given as texts

* `integer`: the integer that a text stands for in a base;
* `decimal`: the binary number that a text stands for, which may also be
  infinite or no number at all.

ASCII blanks around a number do not count, its digits may be those of any
script, and an underscore may stand between two digits. Integers of more than
`digitLimit` decimal digits are neither read nor written.
-/

namespace AppPipeline.Literal

/-! ## Faults -/

/-- The most decimal digits that an integer may be read from or written with. -/
def digitLimit : Nat := 4300

inductive Fault where
  | noInteger (base : Nat) (text : String)
  | noDecimal (text : String)
  /-- an integer has more digits than are read -/
  | tooLong (digits : Nat)
  /-- an integer has more digits than are written -/
  | tooLarge
  deriving DecidableEq, Repr

/-- How much is shown of a text that is no integer. -/
def shownLength : Nat := 200

def Fault.message : Fault → String
  | .noInteger base text =>
    "invalid literal for int() with base " ++ toString base ++ ": "
      ++ String.ofList ((Text.quoted text).toList.take shownLength)
  | .noDecimal text => "could not convert string to float: " ++ Text.quoted text
  | .tooLong digits => limitText ++ ": value has " ++ toString digits ++ " digits" ++ adviceText
  | .tooLarge => limitText ++ adviceText
where
  limitText : String :=
    "Exceeds the limit (" ++ toString digitLimit ++ " digits) for integer string conversion"
  adviceText : String := "; use sys.set_int_max_str_digits() to increase the limit"

/-- The integer has at most `digitLimit` digits. -/
def isWritable (n : Int) : Bool := n.natAbs < Nat.pow 10 digitLimit

/-! ## Plain characters -/

/-- The ASCII character that counts for a character: blanks and digits of every
script have one, what has none counts as a question mark. -/
def plainChar (c : Char) : Char :=
  if c.toNat < 127 then c
  else if Text.isBlank c then ' '
  else if (Text.digitValue? c).isSome then Text.plainDigit c
  else '?'

def isAsciiBlank (c : Char) : Bool := (9 ≤ c.toNat && c.toNat ≤ 13) || c == ' '

/-- The text in plain characters, without the blanks around it. -/
def plain (s : List Char) : List Char :=
  (((s.map plainChar).dropWhile isAsciiBlank).reverse.dropWhile isAsciiBlank).reverse

/-! ## Signs and digits -/

def signed (negative : Bool) (n : Int) : Int := if negative then -n else n

/-- A sign in front of digits. -/
def leadingSign : List Char → Bool × List Char
  | '-' :: t => (true, t)
  | '+' :: t => (false, t)
  | t => (false, t)

def naturalOf (ds : List Char) : Nat := ds.foldl (fun n c => n * 10 + (c.toNat - 48)) 0

/-- The value of a digit of a base. -/
def digit? (base : Nat) (c : Char) : Option Nat := (Text.hexValue? c).filter (· < base)

/-- The values of the digits that stand here, and the rest; between two digits an
underscore may stand. -/
def digitRun (base : Nat) (afterDigit : Bool) : List Char → List Nat × List Char
  | [] => ([], [])
  | c :: s =>
    match digit? base c with
    | some d =>
      let (ds, rest) := digitRun base true s
      (d :: ds, rest)
    | none =>
      if c = '_' ∧ afterDigit ∧ s.head?.any fun d => (digit? base d).isSome then
        digitRun base false s
      else ([], c :: s)

def valueOf (base : Nat) (ds : List Nat) : Nat := ds.foldl (fun n d => n * base + d) 0

/-! ## Integers -/

/-- The letter that announces a base. -/
def baseMark? (base : Nat) : Option Char :=
  if base = 2 then some 'b'
  else if base = 8 then some 'o'
  else if base = 16 then some 'x'
  else none

def withoutMark (base : Nat) : List Char → List Char
  | '0' :: c :: t => if baseMark? base = some c.toLower then t else '0' :: c :: t
  | t => t

/-- The integer of a text in a base; a sign and the mark of the base may stand there. -/
def integer (base : Nat) (s : List Char) : Except Fault Int :=
  let (negative, t) := leadingSign (plain s)
  let (ds, rest) := digitRun base false (withoutMark base t)
  if base = 10 ∧ digitLimit < ds.length then .error (.tooLong ds.length)
  else if ds.isEmpty || !rest.isEmpty then .error (.noInteger base (String.ofList s))
  else .ok (signed negative (valueOf base ds))

/-! ## Decimal numbers -/

/-- The exponent that stands here; nothing else may. -/
def exponent? : List Char → Option Int
  | [] => some 0
  | e :: t =>
    let (negative, u) := leadingSign t
    let (ds, rest) := digitRun 10 false u
    if e = 'e' ∧ ds ≠ [] ∧ rest = [] then some (signed negative (valueOf 10 ds)) else none

/-- A decimal number in lower case, with no sign. -/
def unsignedDecimal? (negative : Bool) (t : List Char) : Option Double :=
  if t = "inf".toList ∨ t = "infinity".toList then some (.infinite negative)
  else if t = "nan".toList then some .nan
  else
    let (whole, rest) := digitRun 10 false t
    let (places, rest) :=
      match rest with
      | '.' :: r => digitRun 10 false r
      | r => ([], r)
    if whole.isEmpty && places.isEmpty then none
    else
      (exponent? rest).map fun e =>
        Double.ofDecimal negative (valueOf 10 (whole ++ places)) (e - places.length)

/-- The binary number of a text; a sign may stand there. -/
def decimal (s : List Char) : Except Fault Double :=
  let (negative, t) := leadingSign ((plain s).map Char.toLower)
  match unsignedDecimal? negative t with
  | some x => .ok x
  | none => .error (.noDecimal (String.ofList s))

end AppPipeline.Literal
