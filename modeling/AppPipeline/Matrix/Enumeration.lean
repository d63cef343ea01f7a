import AppPipeline.Json.Basic

/-!
# Enumerations

* `product`: a choice of values on named axes, the first axis outermost;
* `points`: the choices as fields, all of them or those that pass a test;
* `firstSeen`: the first of all items with the same key;
* `subsets`: all sublists, counted in binary with the first item lowest
  (`length_subsets`, `mem_subsets`).
-/

namespace AppPipeline.Matrix

/-! ## Products -/

/-- Every way to choose a value on each axis. -/
def product {α : Type} : List (String × List α) → List (List (String × α))
  | [] => [[]]
  | (name, values) :: axes => values.flatMap fun v => (product axes).map ((name, v) :: ·)

/-- The choices as fields, where the last of several axes with one name counts. If there is a
test, only those that pass it. -/
def points {α : Type} (axes : List (String × List α))
    (test? : Option (List (String × α) → Bool)) : List (List (String × α)) :=
  (product axes).filterMap fun choices =>
    let point := Json.collect choices
    if test?.all fun test => test point then some point else none

/-- The point has all fields of the pattern; one that it lacks is as good as null. -/
def fits (pattern point : List (String × Json)) : Bool :=
  pattern.all fun f => Json.same ((point.lookup f.1).getD .null) f.2

/-- The point does not have all fields of the pattern. -/
def avoids (pattern point : List (String × Json)) : Bool := !fits pattern point

/-! ## First occurrences -/

def firstSeenFrom {α κ : Type} [DecidableEq κ] (key : α → κ) (seen : List κ) : List α → List α
  | [] => []
  | x :: xs =>
    if key x ∈ seen then firstSeenFrom key seen xs
    else x :: firstSeenFrom key (key x :: seen) xs

/-- The items whose key no earlier item has. -/
def firstSeen {α κ : Type} [DecidableEq κ] (key : α → κ) (xs : List α) : List α :=
  firstSeenFrom key [] xs

/-! ## Sublists -/

def subsets {α : Type} : List α → List (List α)
  | [] => [[]]
  | x :: xs => (subsets xs).flatMap fun s => [s, x :: s]

theorem length_pairs {α : Type} (x : α) (ss : List (List α)) :
    (ss.flatMap fun s => [s, x :: s]).length = 2 * ss.length := by
  induction ss with
  | nil => rfl
  | cons s ss ih => simp [ih]; omega

theorem length_subsets {α : Type} (xs : List α) :
    (subsets xs).length = Nat.pow 2 xs.length := by
  induction xs with
  | nil => rfl
  | cons x xs ih =>
    rw [subsets, length_pairs, ih, Nat.mul_comm]
    rfl

theorem mem_subsets {α : Type} {xs s : List α} : s ∈ subsets xs ↔ s.Sublist xs := by
  induction xs generalizing s with
  | nil => simp [subsets]
  | cons x xs ih =>
    simp only [subsets, List.mem_flatMap, List.mem_cons, List.not_mem_nil, or_false,
      List.sublist_cons_iff]
    constructor
    · rintro ⟨t, ht, rfl | rfl⟩
      · exact .inl (ih.1 ht)
      · exact .inr ⟨t, rfl, ih.1 ht⟩
    · rintro (h | ⟨t, rfl, h⟩)
      · exact ⟨s, ih.2 h, .inl rfl⟩
      · exact ⟨t, ih.2 h, .inr rfl⟩

end AppPipeline.Matrix
