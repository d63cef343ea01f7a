import AppPipeline.Number.Double

/-!
# JSON data

* `Json`: null, truth values, integers of any size, binary numbers, texts,
  lists and objects; the order of an object's fields is kept;
* equality is decidable (`beq_iff`);
* `put` and `collect` keep a field's first place and its last value
  (`lookup_put_self`, `lookup_put_of_ne`);
* `isVoid`: null, false, zero and the empty values;
* `canonical`: equality up to the way a number is spelt and the order of fields.
-/

namespace AppPipeline

inductive Json where
  | null
  | bool (b : Bool)
  | int (n : Int)
  | float (x : Double)
  | str (s : String)
  | list (items : List Json)
  | object (fields : List (String × Json))
  deriving Repr, Inhabited

namespace Json

/-! ## Equality -/

mutual

def beq : Json → Json → Bool
  | .null, .null => true
  | .bool a, .bool b => a == b
  | .int a, .int b => a == b
  | .float a, .float b => a == b
  | .str a, .str b => a == b
  | .list a, .list b => beqItems a b
  | .object a, .object b => beqFields a b
  | _, _ => false
termination_by structural a => a

def beqItems : List Json → List Json → Bool
  | [], [] => true
  | x :: xs, y :: ys => beq x y && beqItems xs ys
  | _, _ => false
termination_by structural a => a

def beqFields : List (String × Json) → List (String × Json) → Bool
  | [], [] => true
  | (k, x) :: xs, (l, y) :: ys => k == l && beq x y && beqFields xs ys
  | _, _ => false
termination_by structural a => a

end

mutual

theorem beq_iff : ∀ a b : Json, beq a b = true ↔ a = b
  | .null, b => by cases b <;> simp [beq]
  | .bool _, b => by cases b <;> simp [beq]
  | .int _, b => by cases b <;> simp [beq]
  | .float _, b => by cases b <;> simp [beq]
  | .str _, b => by cases b <;> simp [beq]
  | .list xs, b => by cases b <;> simp [beq, beqItems_iff xs]
  | .object xs, b => by cases b <;> simp [beq, beqFields_iff xs]

theorem beqItems_iff : ∀ a b : List Json, beqItems a b = true ↔ a = b
  | [], b => by cases b <;> simp [beqItems]
  | x :: xs, b => by cases b <;> simp [beqItems, beq_iff x, beqItems_iff xs]

theorem beqFields_iff : ∀ a b : List (String × Json), beqFields a b = true ↔ a = b
  | [], b => by cases b <;> simp [beqFields]
  | (k, x) :: xs, b => by
    cases b with
    | nil => simp [beqFields]
    | cons y ys => cases y; simp [beqFields, beq_iff x, beqFields_iff xs, and_assoc]

end

instance : DecidableEq Json := fun a b => decidable_of_iff _ (beq_iff a b)

/-! ## Fields -/

/-- Sets a field: in its place if it is there, else at the end. -/
def put {α : Type} (key : String) (value : α) : List (String × α) → List (String × α)
  | [] => [(key, value)]
  | f :: rest => if f.1 = key then (key, value) :: rest else f :: put key value rest

/-- Sets the fields one after another. -/
def collect {α : Type} (fields : List (String × α)) : List (String × α) :=
  fields.foldl (fun acc f => put f.1 f.2 acc) []

theorem lookup_put_self {α : Type} (key : String) (value : α) (fields : List (String × α)) :
    (put key value fields).lookup key = some value := by
  induction fields with
  | nil => simp [put]
  | cons f rest ih =>
    obtain ⟨k, v⟩ := f
    by_cases h : k = key
    · simp [put, h]
    · have hb : (key == k) = false := by simpa using fun e => h e.symm
      simp [put, h, List.lookup_cons, hb, ih]

theorem lookup_put_of_ne {α : Type} (key other : String) (value : α)
    (fields : List (String × α)) (h : other ≠ key) :
    (put key value fields).lookup other = fields.lookup other := by
  have hk : (other == key) = false := by simpa using h
  induction fields with
  | nil => simp [put, List.lookup_cons, hk]
  | cons f rest ih =>
    obtain ⟨k, v⟩ := f
    by_cases hf : k = key
    · subst hf
      simp [put, List.lookup_cons, hk]
    · cases ho : other == k <;> simp [put, hf, List.lookup_cons, ho, ih]

/-- The value of a field of an object. -/
def field? : Json → String → Option Json
  | .object fields, key => fields.lookup key
  | _, _ => none

/-! ## Void values -/

def isVoid : Json → Bool
  | .null => true
  | .bool b => !b
  | .int n => n == 0
  | .float x => x.toInt? == some 0
  | .str s => s == ""
  | .list items => items.isEmpty
  | .object fields => fields.isEmpty

/-! ## Nesting -/

mutual

/-- How many levels a value has; one without parts has one. -/
def levels : Json → Nat
  | .list items => itemLevels items + 1
  | .object fields => fieldLevels fields + 1
  | _ => 1
termination_by structural j => j

def itemLevels : List Json → Nat
  | [] => 0
  | x :: xs => max (levels x) (itemLevels xs)
termination_by structural xs => xs

def fieldLevels : List (String × Json) → Nat
  | [] => 0
  | (_, x) :: xs => max (levels x) (fieldLevels xs)
termination_by structural xs => xs

end

theorem one_le_levels (j : Json) : 1 ≤ j.levels := by
  cases j <;> exact Nat.succ_pos _

theorem levels_le_itemLevels {x : Json} {xs : List Json} (h : x ∈ xs) :
    x.levels ≤ itemLevels xs := by
  induction xs with
  | nil => cases h
  | cons y ys ih =>
    rw [itemLevels]
    rcases List.mem_cons.1 h with rfl | h
    · exact Nat.le_max_left _ _
    · exact Nat.le_trans (ih h) (Nat.le_max_right _ _)

theorem levels_le_fieldLevels {f : String × Json} {fs : List (String × Json)} (h : f ∈ fs) :
    f.2.levels ≤ fieldLevels fs := by
  induction fs with
  | nil => cases h
  | cons g gs ih =>
    rw [fieldLevels]
    rcases List.mem_cons.1 h with rfl | h
    · exact Nat.le_max_left _ _
    · exact Nat.le_trans (ih h) (Nat.le_max_right _ _)

theorem itemLevels_le {xs : List Json} {n : Nat} (h : ∀ x ∈ xs, x.levels ≤ n) :
    itemLevels xs ≤ n := by
  induction xs with
  | nil => exact Nat.zero_le n
  | cons x xs ih =>
    exact Nat.max_le.2 ⟨h x List.mem_cons_self, ih fun y hy => h y (List.mem_cons_of_mem x hy)⟩

theorem fieldLevels_le {fs : List (String × Json)} {n : Nat} (h : ∀ f ∈ fs, f.2.levels ≤ n) :
    fieldLevels fs ≤ n := by
  induction fs with
  | nil => exact Nat.zero_le n
  | cons f fs ih =>
    exact Nat.max_le.2 ⟨h f List.mem_cons_self, ih fun g hg => h g (List.mem_cons_of_mem f hg)⟩

/-! ## Equality of data -/

/-- Puts a field before the first one whose key is not smaller. -/
def insertSorted (f : String × Json) : List (String × Json) → List (String × Json)
  | [] => [f]
  | g :: rest => if f.1 ≤ g.1 then f :: g :: rest else g :: insertSorted f rest

mutual

/-- Truth values and integral numbers become integers, fields are sorted by key. -/
def canonical : Json → Json
  | .bool b => .int (if b then 1 else 0)
  | .float x => (x.toInt?.map Json.int).getD (.float x)
  | .list items => .list (canonicalItems items)
  | .object fields => .object (canonicalFields fields)
  | j => j
termination_by structural j => j

def canonicalItems : List Json → List Json
  | [] => []
  | x :: xs => canonical x :: canonicalItems xs
termination_by structural xs => xs

def canonicalFields : List (String × Json) → List (String × Json)
  | [] => []
  | (k, x) :: xs => insertSorted (k, canonical x) (canonicalFields xs)
termination_by structural xs => xs

end

/-- The two values are the same data. -/
def same (a b : Json) : Bool := canonical a == canonical b

end Json

end AppPipeline
