import AppPipeline.Number.Double

/-!
# Decimal texts of binary numbers

* `Decimal`: digits times a power of ten;
* `shortest`: the fewest digits that read back as the same number, of those
  the nearest, a tie going to the even digit;
* `rounded`: a given number of significant digits, a tie to the even one;
* `Layout`: where positional notation ends and how exponents are written,
  with the three layouts in use.
-/

namespace AppPipeline

/-- The number `digits * 10 ^ exponent`. -/
structure Decimal where
  digits : Nat
  exponent : Int
  deriving DecidableEq, Repr

namespace Double

/-! ## Grids of decimal numbers -/

/-- The least `p` with `num / den < 10 ^ p`, for a quotient that is no power of ten below one. -/
def decimalPoint (num den : Nat) : Int :=
  if den ≤ num then (Nat.toDigits 10 (num / den)).length
  else 1 - (Nat.toDigits 10 (den / num)).length

/-- A finite number with the ends of the interval that rounds to it, over one denominator. -/
structure Interval where
  low : Nat
  value : Nat
  high : Nat
  den : Nat
  closed : Bool

def interval (m : Nat) (e : Int) : Interval :=
  let up := Nat.pow 2 (e - 2).toNat
  let below := if m = Nat.pow 2 52 ∧ -1074 < e then 1 else 2
  { low := (4 * m - below) * up
    value := 4 * m * up
    high := (4 * m + 2) * up
    den := Nat.pow 2 (2 - e).toNat
    closed := m % 2 == 0 }

/-- The multiple `c` of the grid `10 ^ k` rounds to the number. -/
def Interval.holds (i : Interval) (c : Nat) (k : Int) : Bool :=
  let p := c * i.den * Nat.pow 10 k.toNat
  let down := Nat.pow 10 (-k).toNat
  if i.closed then i.low * down ≤ p && p ≤ i.high * down
  else i.low * down < p && p < i.high * down

/-- The multiple of the grid `10 ^ k` next to the number that rounds to it, if there is one. -/
def Interval.onGrid? (i : Interval) (k : Int) : Option Decimal :=
  let num := i.value * Nat.pow 10 (-k).toNat
  let den := i.den * Nat.pow 10 k.toNat
  let f := num / den
  let near := roundDiv num den
  if i.holds near k then some ⟨near, k⟩
  else if i.holds f k then some ⟨f, k⟩
  else if i.holds (f + 1) k then some ⟨f + 1, k⟩
  else none

/-- Tries ever finer grids, `left` of them. -/
def Interval.firstGrid (i : Interval) (left : Nat) (k : Int) : Decimal :=
  match left with
  | 0 => ⟨roundDiv (i.value * Nat.pow 10 (-k).toNat) (i.den * Nat.pow 10 k.toNat), k⟩
  | n + 1 => (i.onGrid? k).getD (i.firstGrid n (k - 1))

def shortest (m : Nat) (e : Int) : Decimal :=
  if m = 0 then ⟨0, 0⟩
  else
    let i := interval m e
    i.firstGrid 16 (decimalPoint i.value i.den - 1)

def rounded (places : Nat) (m : Nat) (e : Int) : Decimal :=
  if m = 0 then ⟨0, 0⟩
  else
    let num := m * Nat.pow 2 e.toNat
    let den := Nat.pow 2 (-e).toNat
    let k := decimalPoint num den - places
    ⟨roundDiv (num * Nat.pow 10 (-k).toNat) (den * Nat.pow 10 k.toNat), k⟩

end Double

/-! ## Layouts -/

/-- How a decimal is written: positionally from the least to the greatest
exponent, otherwise with a signed exponent of at least two digits. -/
structure Layout where
  least : Int
  greatest : Int
  /-- a positional integer ends in `.0` -/
  markInteger : Bool
  /-- a single digit before an exponent is followed by `.0` -/
  markMantissa : Bool
  infinity : String
  notNumber : String

/-- The plain layout of data texts and messages. -/
def Layout.plain : Layout := ⟨-4, 15, true, false, "inf", "nan"⟩

/-- The layout of YAML scalars, where a number has a point and special names begin with one. -/
def Layout.yaml : Layout := ⟨-4, 15, true, true, ".inf", ".nan"⟩

/-- The general layout of six significant digits. -/
def Layout.general : Layout := ⟨-4, 5, false, false, "inf", "nan"⟩

def dropTrailingZeros (ds : List Char) : List Char :=
  (ds.reverse.dropWhile (· == '0')).reverse

def exponentText (e : Int) : List Char :=
  let ds := Nat.toDigits 10 e.natAbs
  (if e < 0 then '-' else '+') :: (if ds.length < 2 then '0' :: ds else ds)

def Layout.digitText (l : Layout) (d : Decimal) : List Char :=
  let all := Nat.toDigits 10 d.digits
  let point := all.length + d.exponent
  let ds := if d.digits = 0 then ['0'] else dropTrailingZeros all
  let exponent := if d.digits = 0 then 0 else point - 1
  if l.least ≤ exponent ∧ exponent ≤ l.greatest then
    if exponent < 0 then
      '0' :: '.' :: List.replicate (-exponent - 1).toNat '0' ++ ds
    else
      let whole := exponent.toNat + 1
      let front := ds.take whole ++ List.replicate (whole - ds.length) '0'
      let back := ds.drop whole
      if back.isEmpty then front ++ (if l.markInteger then ['.', '0'] else [])
      else front ++ '.' :: back
  else
    let rest := ds.drop 1
    ds.take 1
      ++ (if rest.isEmpty then (if l.markMantissa then ['.', '0'] else []) else '.' :: rest)
      ++ 'e' :: exponentText exponent

/-- Lays out a number whose finite values are first made decimal. -/
def Layout.text (l : Layout) (decimal : Nat → Int → Decimal) : Double → String
  | .nan => l.notNumber
  | .infinite negative => (if negative then "-" else "") ++ l.infinity
  | .finite negative m e =>
    (if negative then "-" else "") ++ String.ofList (l.digitText (decimal m e))

/-- The shortest text, in the plain layout. -/
def Double.text (x : Double) : String := Layout.plain.text Double.shortest x

/-- The shortest text, in the layout of YAML. -/
def Double.yamlText (x : Double) : String := Layout.yaml.text Double.shortest x

/-- The text of six significant digits. -/
def Double.generalText (x : Double) : String := Layout.general.text (Double.rounded 6) x

end AppPipeline
