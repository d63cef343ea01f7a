import AppPipeline.Json.Basic
import AppPipeline.Text.Blank
import AppPipeline.Text.Code
import AppPipeline.Value.Calendar

/-!
# Values of a document

`Value` holds what a YAML text can denote: JSON data, and besides it dates,
moments, bytes, sets, pairs and mappings with keys of any kind. `Value.ofJson`
embeds JSON data. Equality is decidable (`beq_iff`); `sameKey` is equality of
mapping keys, where truth values and integral numbers count as integers;
`sortable` says when a list of keys has an order.

Where a document names a container in several places, even inside itself, its
values refer to containers by their numbers in a list of `Knots`; `resolve`
gives the container. JSON data has no such references (`resolve_ofJson`).
-/

namespace AppPipeline

inductive Value where
  | null
  | bool (b : Bool)
  | int (n : Int)
  | float (x : Double)
  | text (s : String)
  | bytes (bs : List Nat)
  | date (d : Date)
  | moment (t : Moment)
  | list (items : List Value)
  | pair (first second : Value)
  | set (items : List Value)
  | map (entries : List (Value × Value))
  /-- the container with this number -/
  | knot (n : Nat)
  deriving Repr, Inhabited

/-- Containers that values refer to by number. -/
abbrev Knots := Array Value

namespace Value

/-! ## Equality -/

mutual

def beq : Value → Value → Bool
  | .null, .null => true
  | .bool a, .bool b => a == b
  | .int a, .int b => a == b
  | .float a, .float b => a == b
  | .text a, .text b => a == b
  | .bytes a, .bytes b => a == b
  | .date a, .date b => a == b
  | .moment a, .moment b => a == b
  | .list a, .list b => beqItems a b
  | .pair a b, .pair c d => beq a c && beq b d
  | .set a, .set b => beqItems a b
  | .map a, .map b => beqEntries a b
  | .knot a, .knot b => a == b
  | _, _ => false
termination_by structural a => a

def beqItems : List Value → List Value → Bool
  | [], [] => true
  | x :: xs, y :: ys => beq x y && beqItems xs ys
  | _, _ => false
termination_by structural a => a

def beqEntries : List (Value × Value) → List (Value × Value) → Bool
  | [], [] => true
  | (k, x) :: xs, (l, y) :: ys => beq k l && beq x y && beqEntries xs ys
  | _, _ => false
termination_by structural a => a

end

mutual

theorem beq_iff : ∀ a b : Value, beq a b = true ↔ a = b
  | .null, b => by cases b <;> simp [beq]
  | .bool _, b => by cases b <;> simp [beq]
  | .int _, b => by cases b <;> simp [beq]
  | .float _, b => by cases b <;> simp [beq]
  | .text _, b => by cases b <;> simp [beq]
  | .bytes _, b => by cases b <;> simp [beq]
  | .date _, b => by cases b <;> simp [beq]
  | .moment _, b => by cases b <;> simp [beq]
  | .list xs, b => by cases b <;> simp [beq, beqItems_iff xs]
  | .pair x y, b => by cases b <;> simp [beq, beq_iff x, beq_iff y]
  | .set xs, b => by cases b <;> simp [beq, beqItems_iff xs]
  | .map xs, b => by cases b <;> simp [beq, beqEntries_iff xs]
  | .knot _, b => by cases b <;> simp [beq]

theorem beqItems_iff : ∀ a b : List Value, beqItems a b = true ↔ a = b
  | [], b => by cases b <;> simp [beqItems]
  | x :: xs, b => by cases b <;> simp [beqItems, beq_iff x, beqItems_iff xs]

theorem beqEntries_iff : ∀ a b : List (Value × Value), beqEntries a b = true ↔ a = b
  | [], b => by cases b <;> simp [beqEntries]
  | (k, x) :: xs, b => by
    cases b with
    | nil => simp [beqEntries]
    | cons y ys => cases y; simp [beqEntries, beq_iff k, beq_iff x, beqEntries_iff xs, and_assoc]

end

instance : DecidableEq Value := fun a b => decidable_of_iff _ (beq_iff a b)

/-! ## JSON data -/

mutual

def ofJson : Json → Value
  | .null => .null
  | .bool b => .bool b
  | .int n => .int n
  | .float x => .float x
  | .str s => .text s
  | .list items => .list (ofItems items)
  | .object fields => .map (ofFields fields)
termination_by structural j => j

def ofItems : List Json → List Value
  | [] => []
  | x :: xs => ofJson x :: ofItems xs
termination_by structural xs => xs

def ofFields : List (String × Json) → List (Value × Value)
  | [] => []
  | (k, x) :: xs => (.text k, ofJson x) :: ofFields xs
termination_by structural xs => xs

end

theorem ofItems_eq_map (xs : List Json) : ofItems xs = xs.map ofJson := by
  induction xs with
  | nil => rfl
  | cons x xs ih => simp [ofItems, ih]

theorem ofFields_eq_map (xs : List (String × Json)) :
    ofFields xs = xs.map fun f => (.text f.1, ofJson f.2) := by
  induction xs with
  | nil => rfl
  | cons x xs ih => obtain ⟨k, v⟩ := x; simp [ofFields, ih]

/-! ## References -/

/-- The value itself, or the container that it refers to. -/
def resolve (knots : Knots) : Value → Value
  | .knot n => knots[n]?.getD .null
  | v => v

theorem resolve_ofJson (knots : Knots) (j : Json) : resolve knots (ofJson j) = ofJson j := by
  cases j <;> rfl

/-! ## Keys -/

/-- The integer that a truth value or an integral number counts as. -/
def integer? : Value → Option Int
  | .bool b => some (if b then 1 else 0)
  | .int n => some n
  | .float x => x.toInt?
  | _ => none

/-- Equality of keys that are neither truth values nor integral numbers. -/
def samePlainKey : Value → Value → Bool
  | .null, .null => true
  | .float x, .float y => x == y && x != .nan
  | .text s, .text t => s == t
  | .bytes s, .bytes t => s == t
  | .date s, .date t => s == t
  | .moment s, .moment t =>
    match s.instant?, t.instant? with
    | some a, some b => a == b
    | none, none => s == t
    | _, _ => false
  | _, _ => false

def sameKey (a b : Value) : Bool :=
  match a.integer?, b.integer? with
  | some m, some n => m == n
  | none, none => samePlainKey a b
  | _, _ => false

/-- Only scalars are keys. -/
def isKey : Value → Bool
  | .list _ | .set _ | .map _ | .pair _ _ | .knot _ => false
  | _ => true

/-- The value of the first entry with the same key. -/
def lookup (key : Value) : List (Value × Value) → Option Value
  | [] => none
  | (k, v) :: rest => if sameKey key k then some v else lookup key rest

/-- A key of a mapping that is being made. Values that are no numbers are the same key only if
they have one origin. -/
structure Key where
  value : Value
  origin : Nat

def Key.same (a b : Key) : Bool :=
  sameKey a.value b.value
    || (a.value == .float .nan && b.value == .float .nan && a.origin == b.origin)

/-- Sets an entry: in its place, under the key it has there, or at the end. -/
def put (key : Key) (value : Value) : List (Key × Value) → List (Key × Value)
  | [] => [(key, value)]
  | (k, v) :: rest => if key.same k then (k, value) :: rest else (k, v) :: put key value rest

/-- The entries of a mapping to which these are added in order. -/
def collect (entries : List (Key × Value)) : List (Value × Value) :=
  (entries.foldl (fun acc e => put e.1 e.2 acc) []).map fun e => (e.1.value, e.2)

/-! ## Order of keys -/

/-- The kinds of keys that are ordered among themselves. -/
inductive KeyOrder where
  | number
  | text
  | bytes
  | date
  | localMoment
  | moment
  deriving DecidableEq, Repr

def keyOrder? : Value → Option KeyOrder
  | .bool _ | .int _ | .float _ => some .number
  | .text _ => some .text
  | .bytes _ => some .bytes
  | .date _ => some .date
  | .moment t => some (if t.offset.isSome then .moment else .localMoment)
  | _ => none

/-- Fewer than two keys, or all of one ordered kind. -/
def sortable : List Value → Bool
  | [] => true
  | [_] => true
  | k :: rest => k.keyOrder?.isSome && rest.all fun l => l.keyOrder? == k.keyOrder?

/-- Texts in the order of their codes; other keys are left as they are. -/
def keyLe : Value → Value → Bool
  | .text s, .text t => Text.le s t
  | _, _ => true

/-! ## Texts -/

/-- A text that is not blank. -/
def hasInk : Value → Bool
  | .text s => Text.hasInk s
  | _ => false

end Value

end AppPipeline
