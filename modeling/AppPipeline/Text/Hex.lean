/-!
# Hexadecimal digits

`hexDigits` writes a number with a fixed count of lower-case digits
(`length_hexDigits`), `hexNumber?` reads digits of either case; a number that
was written in enough digits is read again (`hexNumber?_hexDigits`).
-/

namespace AppPipeline.Text

/-- The last `width` hexadecimal digits of `n`. -/
def hexDigits (width n : Nat) : List Char :=
  match width with
  | 0 => []
  | w + 1 => hexDigits w (n / 16) ++ [Nat.digitChar (n % 16)]

theorem length_hexDigits (width n : Nat) : (hexDigits width n).length = width := by
  induction width generalizing n with
  | zero => rfl
  | succ w ih => simp [hexDigits, ih]

def hexValue? (c : Char) : Option Nat :=
  if c.isDigit then some (c.toNat - 48)
  else if 'a' ≤ c ∧ c ≤ 'f' then some (c.toNat - 87)
  else if 'A' ≤ c ∧ c ≤ 'F' then some (c.toNat - 55)
  else none

/-- The number of hexadecimal digits that go on from `n`. -/
def hexNumber? (n : Nat) : List Char → Option Nat
  | [] => some n
  | c :: s =>
    match hexValue? c with
    | some d => hexNumber? (n * 16 + d) s
    | none => none

/-! ## Written numbers are read -/

theorem hexNumber?_append (a : Nat) (s t : List Char) :
    hexNumber? a (s ++ t) = (hexNumber? a s).bind fun b => hexNumber? b t := by
  induction s generalizing a with
  | nil => rfl
  | cons c s ih =>
    rw [List.cons_append, hexNumber?, hexNumber?]
    cases hexValue? c with
    | none => rfl
    | some d => exact ih _

/-- A change of the digits that keeps their values does not matter. -/
theorem hexNumber?_map_hexDigits {f : Char → Char}
    (hf : ∀ d < 16, hexValue? (f (Nat.digitChar d)) = some d) (width n : Nat)
    (h : n < Nat.pow 16 width) : hexNumber? 0 ((hexDigits width n).map f) = some n := by
  induction width generalizing n with
  | zero =>
    obtain rfl : n = 0 := Nat.lt_one_iff.1 h
    rfl
  | succ w ih =>
    have hdiv : n / 16 < Nat.pow 16 w := Nat.div_lt_of_lt_mul (Nat.mul_comm _ _ ▸ h)
    rw [hexDigits, List.map_append, hexNumber?_append, ih (n / 16) hdiv]
    show hexNumber? (n / 16) [f (Nat.digitChar (n % 16))] = some n
    rw [hexNumber?, hf _ (Nat.mod_lt n (by decide))]
    show some (n / 16 * 16 + n % 16) = some n
    rw [Nat.div_add_mod' n 16]

theorem hexNumber?_hexDigits (width n : Nat) (h : n < Nat.pow 16 width) :
    hexNumber? 0 (hexDigits width n) = some n := by
  have hmap := hexNumber?_map_hexDigits (f := id) (by decide) width n h
  rwa [List.map_id] at hmap

end AppPipeline.Text
