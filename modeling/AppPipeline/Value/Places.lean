import AppPipeline.Value.Basic

/-!
# The order of a set

The items of a set of numbers stand in numbered places and are listed by
place. There are eight places for up to four items, else the least power of two
above twice their count. An item takes the place that its residue names or, if
that is taken, another one that `freePlace` looks for. A set with other items
keeps the order in which they were put in.
-/

namespace AppPipeline.Value

/-! ## Residues -/

/-- The prime by which numbers are reduced. -/
def residueBase : Nat := Nat.pow 2 61 - 1

/-- The remainder of a number of units of `2 ^ e`; halving is the inverse of doubling. -/
def magnitudeResidue (m : Nat) (e : Int) : Nat := m * Nat.pow 2 (e % 61).toNat % residueBase

/-- The remainder with the sign of the number; minus one counts as minus two. -/
def signedResidue (negative : Bool) (r : Nat) : Int :=
  if negative then (if r = 1 then -2 else -(r : Int)) else r

def residue? : Value → Option Int
  | .bool b => some (if b then 1 else 0)
  | .int n => some (signedResidue (n < 0) (n.natAbs % residueBase))
  | .float (.finite negative m e) => some (signedResidue negative (magnitudeResidue m e))
  | .float (.infinite negative) => some (signedResidue negative 314159)
  | _ => none

/-! ## Places -/

def placeCount (items : Nat) : Nat := if items ≤ 4 then 8 else Nat.pow 2 ((2 * items).log2 + 1)

/-- How many places after the first one are tried before a jump. -/
def neighbours : Nat := 9

/-- The first free place from `i` on; the next jump depends on `bits`. -/
def freePlace (count : Nat) (taken : List Nat) (left i bits : Nat) : Nat :=
  match left with
  | 0 => i
  | n + 1 =>
    let near := if i + neighbours < count then (List.range (neighbours + 1)).map (i + ·) else [i]
    match near.find? fun p => !taken.contains p with
    | some p => p
    | none => freePlace count taken n ((i * 5 + 1 + bits / 32) % count) (bits / 32)

/-- Gives an item with a residue its place in front of the others. -/
def withPlace (count : Nat) (placed : List (Nat × Value)) (item : Int × Value) :
    List (Nat × Value) :=
  let bits := (item.1 % 0x10000000000000000).toNat
  (freePlace count (placed.map Prod.fst) (count + 64) (bits % count) bits, item.2) :: placed

/-- The items in the order in which a set lists them. -/
def byPlace (items : List Value) : List Value :=
  match items.mapM fun x => x.residue?.map (·, x) with
  | none => items
  | some xs =>
    let count := placeCount xs.length
    let placed := xs.foldl (withPlace count) []
    (List.range count).filterMap fun p => placed.lookup p

end AppPipeline.Value
