/-!
# Binary numbers of 64 bits

A finite number is a sign, a mantissa below 2^53 and an exponent of two from
-1074 to 971; the mantissa is at least 2^52 unless the exponent is least.
`nearest` rounds a quotient of natural numbers to the nearest such number, a
tie going to the even mantissa, and to infinity past the greatest one. Sums and
products are rounded once. No machine arithmetic is involved: all work is on
natural numbers.
-/

namespace AppPipeline

inductive Double where
  | nan
  | infinite (negative : Bool)
  | finite (negative : Bool) (mantissa : Nat) (exponent : Int)
  deriving DecidableEq, Repr, Inhabited

namespace Double

/-! ## Rounding -/

/-- The quotient rounded to the nearest natural number, a tie to the even one. -/
def roundDiv (num den : Nat) : Nat :=
  let q := num / den
  let r := num % den
  if 2 * r < den || (2 * r == den && q % 2 == 0) then q else q + 1

/-- Rounding stays within half a unit. -/
theorem roundDiv_near (num den : Nat) (h : 0 < den) :
    2 * num ≤ 2 * (roundDiv num den * den) + den ∧
      2 * (roundDiv num den * den) ≤ 2 * num + den := by
  have hd : den * (num / den) + num % den = num := Nat.div_add_mod num den
  have hm : num % den < den := Nat.mod_lt _ h
  have hc : den * (num / den) = num / den * den := Nat.mul_comm ..
  simp only [roundDiv]
  split
  · rename_i hr
    simp only [Bool.or_eq_true, decide_eq_true_eq, Bool.and_eq_true, beq_iff_eq] at hr
    omega
  · rename_i hr
    simp only [Bool.or_eq_true, decide_eq_true_eq, Bool.and_eq_true, beq_iff_eq, not_or] at hr
    have he : (num / den + 1) * den = num / den * den + den := Nat.succ_mul ..
    omega

/-- Numerator and denominator of `num / den / 2 ^ e`. -/
def scaled (num den : Nat) (e : Int) : Nat × Nat :=
  (num * Nat.pow 2 (-e).toNat, den * Nat.pow 2 e.toNat)

def zero (negative : Bool) : Double := finite negative 0 (-1074)

/-- The number nearest to `num / den`. -/
def nearest (negative : Bool) (num den : Nat) : Double :=
  if num = 0 then zero negative
  else
    let guess : Int := (num.log2 : Int) - den.log2 - 52
    let atGuess := scaled num den guess
    let e := max (if atGuess.1 / atGuess.2 < Nat.pow 2 52 then guess - 1 else guess) (-1074)
    let atE := scaled num den e
    let m := roundDiv atE.1 atE.2
    let carried : Nat × Int := if m = Nat.pow 2 53 then (Nat.pow 2 52, e + 1) else (m, e)
    if 971 < carried.2 then infinite negative else finite negative carried.1 carried.2

/-! ## Conversions -/

/-- The number nearest to `digits * 10 ^ exponent`. As ten lies between the third and the
fourth power of two, exponents far out of range are decided by the size of `digits` alone. -/
def ofDecimal (negative : Bool) (digits : Nat) (exponent : Int) : Double :=
  if digits = 0 then zero negative
  else
    let size : Int := digits.log2 + 3 * exponent
    if 0 ≤ exponent ∧ 1100 < size then infinite negative
    else if exponent < 0 ∧ size < -1100 then zero negative
    else nearest negative (digits * Nat.pow 10 exponent.toNat) (Nat.pow 10 (-exponent).toNat)

def ofInt (n : Int) : Double := nearest (n < 0) n.natAbs 1

/-- The integer that a finite number is, if it is one. -/
def toInt? : Double → Option Int
  | finite negative m e =>
    let den := Nat.pow 2 (-e).toNat
    let n : Int := (m * Nat.pow 2 e.toNat / den : Nat)
    if m * Nat.pow 2 e.toNat % den = 0 then some (if negative then -n else n) else none
  | _ => none

/-- The integer next to a finite number, towards zero. -/
def truncate : Double → Int
  | finite negative m e =>
    let n : Int := (m * Nat.pow 2 e.toNat / Nat.pow 2 (-e).toNat : Nat)
    if negative then -n else n
  | _ => 0

/-- The product with a natural number, rounded once. -/
def timesNat (x : Double) (k : Nat) : Double :=
  match x with
  | finite negative m e => nearest negative (m * k * Nat.pow 2 e.toNat) (Nat.pow 2 (-e).toNat)
  | x => x

/-! ## Arithmetic -/

def neg : Double → Double
  | nan => nan
  | infinite negative => infinite !negative
  | finite negative m e => finite (!negative) m e

/-- A finite number in units of `2 ^ unit`. -/
def inUnits (negative : Bool) (m : Nat) (e unit : Int) : Int :=
  let n : Int := (m * Nat.pow 2 (e - unit).toNat : Nat)
  if negative then -n else n

/-- The number nearest to `n * 2 ^ unit`. -/
def ofUnits (n unit : Int) : Double :=
  nearest (n < 0) (n.natAbs * Nat.pow 2 unit.toNat) (Nat.pow 2 (-unit).toNat)

/-- The sum; it is negative zero only if both numbers are. -/
def add : Double → Double → Double
  | nan, _ => nan
  | _, nan => nan
  | infinite a, infinite b => if a = b then infinite a else nan
  | infinite a, _ => infinite a
  | _, infinite b => infinite b
  | finite a m e, finite b n f =>
    let unit := min e f
    let sum := inUnits a m e unit + inUnits b n f unit
    if sum = 0 then zero (a && b && m == 0) else ofUnits sum unit

/-- The product of finite numbers; other numbers are left as they are. -/
def mul : Double → Double → Double
  | finite a m e, finite b n f =>
    let scale := e + f
    nearest (a != b) (m * n * Nat.pow 2 scale.toNat) (Nat.pow 2 (-scale).toNat)
  | infinite a, finite b n _ => if n = 0 then nan else infinite (a != b)
  | x, _ => x

end Double

end AppPipeline
