import AppPipeline.Yaml.Typed

/-!
# Values of trees

A node without aliases is a tree; its value follows from its tag. Entries
under a merge key come before the other entries of a mapping, which win over
them. Of several faults the least nested one counts, and of those the first.
-/

namespace AppPipeline.Yaml

/-! ## Results with faults -/

/-- A value, or a fault with the depth at which it lies. -/
abbrev Outcome (α : Type) := Except (Nat × ReadFault) α

namespace Outcome

variable {α β γ : Type}

/-- Both results, or the less nested fault, the first of two. -/
def both (combine : α → β → γ) : Outcome α → Outcome β → Outcome γ
  | .ok a, .ok b => .ok (combine a b)
  | .error f, .ok _ => .error f
  | .ok _, .error g => .error g
  | .error f, .error g => .error (if g.1 < f.1 then g else f)

/-- All results in order. -/
def all : List (Outcome α) → Outcome (List α)
  | [] => .ok []
  | x :: xs => both List.cons x (all xs)

end Outcome

namespace Node

/-! ## Trees -/

mutual

/-- The node without its anchors, if it has no alias. -/
def tree? : Node → Option Node
  | .scalar t s => some (.scalar t s)
  | .list t xs => (trees? xs).map (.list t)
  | .map t es => (entryTrees? es).map (.map t)
  | .anchored _ x => tree? x
  | .alias _ => none
termination_by structural x => x

def trees? : List Node → Option (List Node)
  | [] => some []
  | x :: xs =>
    match tree? x, trees? xs with
    | some y, some ys => some (y :: ys)
    | _, _ => none
termination_by structural xs => xs

def entryTrees? : List (Node × Node) → Option (List (Node × Node))
  | [] => some []
  | (k, v) :: es =>
    match tree? k, tree? v, entryTrees? es with
    | some l, some w, some fs => some ((l, w) :: fs)
    | _, _, _ => none
termination_by structural es => es

end

def tag? : Node → Option Tag
  | .scalar t _ => some t
  | .list t _ => some t
  | .map t _ => some t
  | _ => none

/-! ## Merging -/

/-- A key that asks for a merge. -/
def isMerge (x : Node) : Bool := x.tag? == some .merge

/-- The entries of a mapping, themselves merged by `merged`. -/
def ownEntries (merged : List (Node × Node) → Option (List (Node × Node))) :
    Node → Option (List (Node × Node))
  | .map _ es => merged es
  | _ => none

/-- The entries that a merge takes from a mapping or from a list of mappings, of
which the first wins. -/
def donated (merged : List (Node × Node) → Option (List (Node × Node))) :
    Node → Option (List (Node × Node))
  | .list _ xs => (xs.mapM (ownEntries merged)).map fun gifts => gifts.reverse.flatten
  | x => ownEntries merged x

/-- The mark for a value is a text where it is a key. -/
def asKey : Node → Node
  | .scalar .value s => .scalar .text s
  | .list .value xs => .list .text xs
  | .map .value es => .map .text es
  | x => x

/-- The entries of a mapping: first those that it merges, then its own. -/
def merged (left : Nat) (es : List (Node × Node)) : Option (List (Node × Node)) :=
  match left with
  | 0 => none
  | n + 1 => do
    let gifts ← (es.filter fun e => e.1.isMerge).mapM fun e => donated (merged n) e.2
    let own := (es.filter fun e => !e.1.isMerge).map fun e => (e.1.asKey, e.2)
    return gifts.flatten ++ own

/-! ## Scalars -/

/-- The text of a scalar, or that which a mapping has under the mark for a value. -/
def scalarText (left : Nat) (x : Node) : Except ReadFault (List Char) :=
  match left with
  | 0 => .error .tooDeep
  | n + 1 =>
    match x with
    | .scalar _ s => .ok s
    | .map _ es =>
      match es.find? fun e => e.1.tag? == some .value with
      | some e => scalarText n e.2
      | none => .error .malformed
    | _ => .error .malformed

/-- The value of a node with a tag that is no collection's. -/
def ofTag (tag : Tag) (x : Node) : Except ReadFault Value :=
  if tag.isScalar then do
    let s ← x.scalarText longestChain
    match x with
    | .map _ _ => markedValue tag s
    | _ => scalarValue tag s
  else .error .malformed

/-! ## Values -/

/-- A key of a mapping at a depth, with a number of its own there: a scalar without faults. -/
def keyOutcome (depth own : Nat) (x : Node) : Outcome Value → Outcome Value.Key
  | .ok v =>
    match keyOf own ((x.scalarText longestChain).toOption.getD []) v with
    | .ok k => .ok k
    | .error f => .error (depth, f)
  | .error f => .error (if f.1 = depth then f else (depth, .malformed))

/-- The value of a node that lies at a depth. -/
def value (left depth : Nat) (x : Node) : Outcome Value :=
  match left with
  | 0 => .error (depth, .tooDeep)
  | n + 1 =>
    let inner := value n (depth + 1)
    let entry (e : (Node × Node) × Nat) : Outcome (Value.Key × Value) :=
      Outcome.both Prod.mk (keyOutcome (depth + 1) e.2 e.1.1 (inner e.1.1)) (inner e.1.2)
    let entries (es : List (Node × Node)) : Outcome (List (Value × Value)) :=
      match merged n es with
      | some es => (Outcome.all (es.zipIdx.map entry)).map Value.collect
      | none => .error (depth + 1, .malformed)
    match x.tag?, x with
    | some .list, .list _ xs => (Outcome.all (xs.map inner)).map .list
    | some .map, .map _ es => (entries es).map .map
    | some .set, .map _ es => (entries es).map fun es => .set (Value.byPlace (es.map Prod.fst))
    | some .orderedMap, .list _ xs => (Outcome.all (xs.map (pair inner (depth + 1)))).map .list
    | some .pairs, .list _ xs => (Outcome.all (xs.map (pair inner (depth + 1)))).map .list
    | some t, x =>
      if t.isCollection then .error (depth + 1, .malformed)
      else
        match x.ofTag t with
        | .ok v => .ok v
        | .error f => .error (depth, f)
    | none, _ => .error (depth, .malformed)
where
  /-- A mapping of one entry as a pair. -/
  pair (inner : Node → Outcome Value) (depth : Nat) : Node → Outcome Value
    | .map _ [(k, v)] => Outcome.both .pair (inner k) (inner v)
    | _ => .error (depth, .malformed)

end Node

end AppPipeline.Yaml
