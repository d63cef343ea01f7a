import AppPipeline.Yaml.Graph

/-!
# Values of graphs

A value of a graph refers to its containers by number. Containers are numbered
as they are reached and filled in that order, so that what is less nested comes
first; the parts of a container are reached when it is filled. A vertex has one
value, wherever it is reached from.
-/

namespace AppPipeline.Yaml

/-- A container that has to be filled: its vertex and its number. -/
structure Task where
  vertex : Nat
  knot : Nat
  deriving DecidableEq, Repr

structure Tangle where
  graph : Graph
  /-- the values of the vertices that were reached -/
  values : Array (Option Value)
  knots : Knots
  tasks : Array Task

namespace Tangle

def ofGraph (g : Graph) : Tangle := ⟨g, g.map fun _ => none, #[], #[]⟩

def setValue (n : Nat) (v : Value) (t : Tangle) : Tangle :=
  { t with values := t.values.modify n fun _ => some v }

def setKnot (k : Nat) (v : Value) (t : Tangle) : Tangle :=
  { t with knots := t.knots.modify k fun _ => v }

/-- Adds a container that need not be filled. -/
def tie (v : Value) (t : Tangle) : Value × Tangle :=
  (.knot t.knots.size, { t with knots := t.knots.push v })

/-! ## Reaching -/

/-- The value of a vertex; a container that is reached first is put among the tasks. -/
def reach (n : Nat) (t : Tangle) : Except ReadFault (Value × Tangle) :=
  match (t.values[n]?).join with
  | some v => .ok (v, t)
  | none =>
    if (t.graph.tagOf n).isCollection then
      let task : Task := ⟨n, t.knots.size⟩
      let (v, t) := t.tie .null
      .ok (v, { t with tasks := t.tasks.push task }.setValue n v)
    else do
      let v ← t.graph.scalar n
      return (v, t.setValue n v)

def reachAll : List Nat → Tangle → Except ReadFault (List Value × Tangle)
  | [], t => .ok ([], t)
  | n :: ns, t => do
    let (v, t) ← t.reach n
    let (vs, t) ← reachAll ns t
    return (v :: vs, t)

def reachKey (n : Nat) (t : Tangle) : Except ReadFault (Value.Key × Tangle) := do
  let (v, t) ← t.reach n
  return (← keyOf n ((t.graph.scalarText longestChain n).toOption.getD []) v, t)

def reachEntries : List (Nat × Nat) → Tangle → Except ReadFault (List (Value.Key × Value) × Tangle)
  | [], t => .ok ([], t)
  | (k, n) :: es, t => do
    let (key, t) ← t.reachKey k
    let (v, t) ← t.reach n
    let (vs, t) ← reachEntries es t
    return ((key, v) :: vs, t)

/-- Mappings of one entry as pairs. -/
def reachPairs : List Nat → Tangle → Except ReadFault (List Value × Tangle)
  | [], t => .ok ([], t)
  | n :: ns, t =>
    match (t.graph.vertex n).parts with
    | .map [(k, w)] => do
      let (a, t) ← t.reach k
      let (b, t) ← t.reach w
      let (v, t) := t.tie (.pair a b)
      let (vs, t) ← reachPairs ns t
      return (v :: vs, t)
    | _ => .error .malformed

/-! ## Filling -/

/-- The entries of a mapping after its merges. -/
def mapEntries (n : Nat) (t : Tangle) : Except ReadFault (List (Value × Value) × Tangle) := do
  let g ← t.graph.flatten longestChain n
  let (es, t) ← reachEntries (g.entries n) { t with graph := g }
  return (Value.collect es, t)

/-- The container of a vertex. -/
def container (n : Nat) (t : Tangle) : Except ReadFault (Value × Tangle) :=
  let v := t.graph.vertex n
  match v.tag, v.parts with
  | .list, .list ns => do
    let (vs, t) ← reachAll ns t
    return (.list vs, t)
  | .map, .map _ => do
    let (es, t) ← t.mapEntries n
    return (.map es, t)
  | .set, .map _ => do
    let (es, t) ← t.mapEntries n
    return (.set (Value.byPlace (es.map Prod.fst)), t)
  | .orderedMap, .list ns => do
    let (vs, t) ← reachPairs ns t
    return (.list vs, t)
  | .pairs, .list ns => do
    let (vs, t) ← reachPairs ns t
    return (.list vs, t)
  | _, _ => .error .malformed

/-- Does the tasks from the `i`th on; `left` bounds their number. -/
def fill (left i : Nat) (t : Tangle) : Except ReadFault Tangle :=
  match left with
  | 0 => .ok t
  | l + 1 =>
    match t.tasks[i]? with
    | none => .ok t
    | some task => do
      let (v, t) ← t.container task.vertex
      fill l (i + 1) (t.setKnot task.knot v)

/-- The value of the first vertex of a graph, and the containers that it refers to. -/
def untangle (g : Graph) : Except ReadFault (Value × Knots) := do
  let (v, t) ← (ofGraph g).reach 0
  let t ← t.fill (g.size + 1) 0
  return (v, t.knots)

end Tangle

end AppPipeline.Yaml
