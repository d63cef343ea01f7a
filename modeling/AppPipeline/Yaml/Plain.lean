import AppPipeline.Text.Pieces

/-!
# What a plain scalar denotes

A scalar without quotes denotes null, a truth value, an integer, a number
with a point, a date or moment, one of the special marks, or else itself.
`Plain.kind` decides which; a line feed at the end of the text makes no
difference. `isText` says that it denotes itself.
-/

namespace AppPipeline.Yaml.Plain

inductive Kind where
  | null
  | truth
  | integer
  | decimal
  | moment
  | merge
  | value
  /-- a mark of the notation itself -/
  | mark
  | text
  deriving DecidableEq, Repr

open Text (pieces)

/-! ## Classes of characters -/

def isDigit (c : Char) : Bool := '0' ≤ c && c ≤ '9'

def isSpaced (p : Char → Bool) (c : Char) : Bool := p c || c == '_'

/-- The text without a leading sign. -/
def unsigned : List Char → List Char
  | '-' :: s => s
  | '+' :: s => s
  | s => s

/-- At least one character, all of a class or underscores. -/
def isRun (p : Char → Bool) (s : List Char) : Bool := !s.isEmpty && s.all (isSpaced p)

/-- A character of one class, then characters of another or underscores. -/
def isHeaded (first rest : Char → Bool) : List Char → Bool
  | [] => false
  | c :: s => first c && s.all (isSpaced rest)

/-! ## Words -/

def nullWords : List (List Char) := ["", "~", "null", "Null", "NULL"].map String.toList

def truthWords : List (List Char) :=
  ["yes", "Yes", "YES", "no", "No", "NO", "true", "True", "TRUE", "false", "False", "FALSE",
   "on", "On", "ON", "off", "Off", "OFF"].map String.toList

def infinityWords : List (List Char) := [".inf", ".Inf", ".INF"].map String.toList

def notNumberWords : List (List Char) := [".nan", ".NaN", ".NAN"].map String.toList

/-! ## Numbers -/

def isNonZero (c : Char) : Bool := '1' ≤ c && c ≤ '9'

def isOctal (c : Char) : Bool := '0' ≤ c && c ≤ '7'

def isBinary (c : Char) : Bool := c == '0' || c == '1'

def isHex (c : Char) : Bool := isDigit c || ('a' ≤ c && c ≤ 'f') || ('A' ≤ c && c ≤ 'F')

/-- A part of a number to the base sixty: below sixty, one or two digits. -/
def isSixtieth : List Char → Bool
  | [c] => isDigit c
  | [a, b] => '0' ≤ a && a ≤ '5' && isDigit b
  | _ => false

/-- A number to the base sixty. -/
def isSexagesimal (s : List Char) : Bool :=
  match pieces ':' s with
  | p :: q :: ps => isHeaded isNonZero isDigit p && (q :: ps).all isSixtieth
  | _ => false

def isUnsignedInteger (s : List Char) : Bool :=
  match s with
  | ['0'] => true
  | '0' :: 'b' :: ds => isRun isBinary ds
  | '0' :: 'x' :: ds => isRun isHex ds
  | '0' :: ds => isRun isOctal ds
  | s => isHeaded isNonZero isDigit s || isSexagesimal s

def isInteger (s : List Char) : Bool := isUnsignedInteger (unsigned s)

/-- Nothing, or `e`, a sign and digits. -/
def isExponent : List Char → Bool
  | [] => true
  | e :: sign :: ds =>
    (e == 'e' || e == 'E') && (sign == '-' || sign == '+') && !ds.isEmpty && ds.all isDigit
  | _ => false

/-- Digits and underscores, then perhaps an exponent. -/
def isFraction (s : List Char) : Bool := isExponent (s.dropWhile (isSpaced isDigit))

/-- Digits, a point and a fraction. -/
def isPointed (s : List Char) : Bool :=
  match s.span (· != '.') with
  | (whole, '.' :: fraction) => isHeaded isDigit isDigit whole && isFraction fraction
  | _ => false

/-- A point, a digit and a fraction; a sign is not allowed. -/
def isBarePoint : List Char → Bool
  | '.' :: d :: s => isDigit d && isFraction s
  | _ => false

/-- A number to the base sixty whose last part has a point. -/
def isPointedSexagesimal (s : List Char) : Bool :=
  match s.span (· != '.') with
  | (whole, '.' :: fraction) =>
    match pieces ':' whole with
    | p :: q :: ps =>
      isHeaded isDigit isDigit p && (q :: ps).all isSixtieth && fraction.all (isSpaced isDigit)
    | _ => false
  | _ => false

def isDecimal (s : List Char) : Bool :=
  isPointed (unsigned s) || isBarePoint s || isPointedSexagesimal (unsigned s)
    || infinityWords.contains (unsigned s) || notNumberWords.contains s

/-! ## Dates and moments -/

/-- The parts of a date and perhaps a time of day, as they are written. -/
structure MomentParts where
  year : List Char
  month : List Char
  day : List Char
  /-- hour, minute, second, fraction and zone -/
  time : Option (List Char × List Char × List Char × List Char × List Char)
  deriving DecidableEq, Repr

/-- Between `least` and `most` digits, and what follows them. -/
def digitsBetween (least most : Nat) (s : List Char) : Option (List Char × List Char) :=
  let ds := (s.take most).takeWhile isDigit
  if least ≤ ds.length then some (ds, s.drop ds.length) else none

def after? (c : Char) : List Char → Option (List Char)
  | [] => none
  | d :: s => if d = c then some s else none

/-- The digits after a point, if there is one, and what follows them. -/
def fractionDigits : List Char → List Char × List Char
  | '.' :: s => s.span isDigit
  | s => ([], s)

def isGap (c : Char) : Bool := c == ' ' || c == '\t'

/-- The mark between a date and a time: a letter, or at least one gap. -/
def timeMark? : List Char → Option (List Char)
  | 'T' :: s => some s
  | 't' :: s => some s
  | c :: s => if isGap c then some (s.dropWhile isGap) else none
  | [] => none

/-- A zone: nothing, `Z`, or a signed offset. -/
def isZone (s : List Char) : Bool :=
  match s with
  | [] => true
  | ['Z'] => true
  | sign :: rest =>
    (sign == '-' || sign == '+') &&
      match digitsBetween 1 2 rest with
      | some (_, []) => true
      | some (_, ':' :: ms) =>
        match digitsBetween 2 2 ms with
        | some (_, []) => true
        | _ => false
      | _ => false

def timeParts? (s : List Char) :
    Option (List Char × List Char × List Char × List Char × List Char) := do
  let s ← timeMark? s
  let (hour, s) ← digitsBetween 1 2 s
  let s ← after? ':' s
  let (minute, s) ← digitsBetween 2 2 s
  let s ← after? ':' s
  let (second, s) ← digitsBetween 2 2 s
  let (frac, s) := fractionDigits s
  let zone := s.dropWhile isGap
  if isZone zone && (s.isEmpty || !zone.isEmpty) then some (hour, minute, second, frac, zone)
  else none

/-- A date with parts of any allowed width, perhaps with a time. -/
def looseMoment? (s : List Char) : Option MomentParts := do
  let (year, s) ← digitsBetween 4 4 s
  let s ← after? '-' s
  let (month, s) ← digitsBetween 1 2 s
  let s ← after? '-' s
  let (day, s) ← digitsBetween 1 2 s
  if s.isEmpty then some ⟨year, month, day, none⟩
  else (timeParts? s).map fun t => ⟨year, month, day, some t⟩

/-- A lone date has two digits for month and day. -/
def isMoment (s : List Char) : Bool :=
  match looseMoment? s with
  | some p => p.time.isSome || (p.month.length == 2 && p.day.length == 2)
  | none => false

/-! ## Kinds -/

/-- What a text without a line feed at its end denotes. -/
def formKind (s : List Char) : Kind :=
  if truthWords.contains s then .truth
  else if isDecimal s then .decimal
  else if isInteger s then .integer
  else if s = ['<', '<'] then .merge
  else if nullWords.contains s then .null
  else if isMoment s then .moment
  else if s = ['='] then .value
  else if s = ['!'] ∨ s = ['&'] ∨ s = ['*'] then .mark
  else .text

/-- The text without a line feed at its end, unless it is nothing else. -/
def withoutBreak (s : List Char) : List Char :=
  if s.getLast? = some '\n' ∧ s ≠ ['\n'] then s.dropLast else s

def kind (s : List Char) : Kind := formKind (withoutBreak s)

def isText (s : List Char) : Bool := kind s == .text

end AppPipeline.Yaml.Plain
