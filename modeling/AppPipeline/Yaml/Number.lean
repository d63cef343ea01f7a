import AppPipeline.Text.LowerCase
import AppPipeline.Yaml.Fault
import AppPipeline.Yaml.Plain

/-!
# Numbers and moments of scalars

The value of a scalar that is tagged as an integer, a decimal number, a date
or a moment. Underscores do not count. A scalar whose tag was given need not
have the form of its kind; it may then have no value.
-/

namespace AppPipeline.Yaml

open Literal (signed naturalOf)

/-! ## Signs -/

/-- The text without underscores and sign, and whether it was negative. -/
def signedText (s : List Char) : Except ReadFault (Bool × List Char) :=
  match s.filter (· != '_') with
  | [] => .error .emptyNumber
  | '-' :: t => .ok (true, t)
  | '+' :: t => .ok (false, t)
  | t => .ok (false, t)

/-! ## Integers -/

/-- The integer of a text in a base. -/
def radixValue (base : Nat) (s : List Char) : Except ReadFault Int :=
  (Literal.integer base s).mapError .number

/-- The value of parts to the base sixty, from `n` on. -/
def sixtieths (n : Int) : List (List Char) → Except ReadFault Int
  | [] => .ok n
  | p :: ps => do sixtieths (n * 60 + (← radixValue 10 p)) ps

def integerValue (s : List Char) : Except ReadFault Int := do
  let (negative, t) ← signedText s
  let n ←
    match t with
    | [] => throw .emptyNumber
    | ['0'] => pure 0
    | '0' :: 'b' :: ds => radixValue 2 ds
    | '0' :: 'x' :: ds => radixValue 16 ds
    | '0' :: _ => radixValue 8 t
    | _ => if t.contains ':' then sixtieths 0 (Text.pieces ':' t) else radixValue 10 t
  return signed negative n

/-! ## Decimal numbers -/

/-- The decimal number of a text. -/
def decimalOf (s : List Char) : Except ReadFault Double := (Literal.decimal s).mapError .number

/-- The sum of parts to the base sixty, the last part first, each rounded on its own. -/
def sixtiethSum (sum : Double) (base : Nat) : List Double → Except ReadFault Double
  | [] => .ok sum
  | x :: xs =>
    match Double.ofInt base with
    | .finite negative m e =>
      sixtiethSum (sum.add (x.mul (.finite negative m e))) (base * 60) xs
    | _ => .error .hugeNumber

def notNumberWord : List Char := ".nan".toList

/-- The text in lower case, without underscores and sign, and whether it was negative. -/
def loweredText (s : List Char) : Except ReadFault (Bool × List Char) :=
  signedText (Text.lower (s.filter (· != '_')))

/-- The text is the word for no number, perhaps with a sign. -/
def isNotNumberWord (s : List Char) : Bool :=
  match loweredText s with
  | .ok (_, t) => t == notNumberWord
  | .error _ => false

def decimalValue (s : List Char) : Except ReadFault Double := do
  let (negative, t) ← loweredText s
  let x ←
    if t = ".inf".toList then pure (.infinite false)
    else if t = notNumberWord then pure .nan
    else if t.contains ':' then
      let parts ← (Text.pieces ':' t).mapM decimalOf
      sixtiethSum (Double.zero false) 1 parts.reverse
    else decimalOf t
  return if negative then x.neg else x

/-! ## Dates and moments -/

/-- The six digits of a fraction that count, as microseconds. -/
def microseconds (ds : List Char) : Nat :=
  let ds := ds.take 6
  naturalOf (ds ++ List.replicate (6 - ds.length) '0')

/-- The minutes of an offset. -/
def zoneOffset (zone : List Char) : Option Int :=
  match zone with
  | [] => none
  | c :: t =>
    if c == 'Z' then some 0
    else
      match Text.pieces ':' t with
      | [h, m] => some (signed (c == '-') (naturalOf h * 60 + naturalOf m : Nat))
      | _ => some (signed (c == '-') (naturalOf t * 60 : Nat))

/-- A date, or a moment if there is a time of day. -/
inductive CalendarValue where
  | date (d : Date)
  | moment (m : Moment)
  deriving DecidableEq, Repr

def calendarValue (s : List Char) : Except ReadFault CalendarValue :=
  match Plain.looseMoment? (Plain.withoutBreak s) with
  | none => .error .noMoment
  | some p =>
    let y := naturalOf p.year
    let m := naturalOf p.month
    let d := naturalOf p.day
    let made : Except CalendarFault CalendarValue :=
      match p.time with
      | none => (Date.make y m d).map .date
      | some (hour, minute, second, places, zone) =>
        (Moment.make y m d (naturalOf hour) (naturalOf minute) (naturalOf second)
          (microseconds places) (zoneOffset zone)).map .moment
    match made with
    | .ok v => .ok v
    | .error f => .error (.calendar f)

end AppPipeline.Yaml
