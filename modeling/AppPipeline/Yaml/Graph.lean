import AppPipeline.Yaml.Typed

/-!
# Graphs of nodes

With aliases a node is part of several others, perhaps of itself. Its parts
are then given by numbers: a `Graph` lists vertices, and `Numbering` makes one
of a node. `flatten` does the merges of a mapping in place: each merge entry
goes, the entries that it asks for come in front, and the marks for a value
among the keys become texts.
-/

namespace AppPipeline.Yaml

/-- What a vertex is made of. -/
inductive Parts where
  | scalar (text : List Char)
  | list (items : List Nat)
  | map (entries : List (Nat × Nat))
  deriving DecidableEq, Repr

structure Vertex where
  tag : Tag
  parts : Parts
  deriving DecidableEq, Repr

abbrev Graph := Array Vertex

namespace Graph

def vertex (g : Graph) (n : Nat) : Vertex := g[n]?.getD ⟨.null, .scalar []⟩

def tagOf (g : Graph) (n : Nat) : Tag := (g.vertex n).tag

def entries (g : Graph) (n : Nat) : List (Nat × Nat) :=
  match (g.vertex n).parts with
  | .map es => es
  | _ => []

def setEntries (n : Nat) (es : List (Nat × Nat)) (g : Graph) : Graph :=
  g.modify n fun v => { v with parts := .map es }

end Graph

/-! ## Numbering -/

/-- The vertices so far, and the numbers of the anchors. -/
structure Numbering where
  graph : Graph
  anchors : List (String × Nat)

namespace Numbering

/-- Adds a vertex, whose number is the next one. -/
def add (v : Vertex) (s : Numbering) : Numbering := { s with graph := s.graph.push v }

def setParts (n : Nat) (parts : Parts) (s : Numbering) : Numbering :=
  { s with graph := s.graph.modify n fun v => { v with parts := parts } }

mutual

/-- The number of a node, whose vertices are added; those that contain it have theirs already. -/
def number : Node → Numbering → Nat × Numbering
  | .scalar t cs, s => (s.graph.size, s.add ⟨t, .scalar cs⟩)
  | .list t xs, s =>
    let n := s.graph.size
    let (ns, s) := numbers xs (s.add ⟨t, .list []⟩)
    (n, s.setParts n (.list ns))
  | .map t es, s =>
    let n := s.graph.size
    let (ns, s) := entryNumbers es (s.add ⟨t, .map []⟩)
    (n, s.setParts n (.map ns))
  | .anchored name x, s => number x { s with anchors := (name, s.graph.size) :: s.anchors }
  | .alias name, s => ((s.anchors.lookup name).getD 0, s)
termination_by structural x => x

def numbers : List Node → Numbering → List Nat × Numbering
  | [], s => ([], s)
  | x :: xs, s =>
    let (n, s) := number x s
    let (ns, s) := numbers xs s
    (n :: ns, s)
termination_by structural xs => xs

def entryNumbers : List (Node × Node) → Numbering → List (Nat × Nat) × Numbering
  | [], s => ([], s)
  | (k, v) :: es, s =>
    let (m, s) := number k s
    let (n, s) := number v s
    let (ns, s) := entryNumbers es s
    ((m, n) :: ns, s)
termination_by structural es => es

end

end Numbering

/-- The graph of a node, which has the number zero. -/
def Graph.ofNode (x : Node) : Graph := (Numbering.number x ⟨#[], []⟩).2.graph

namespace Graph

/-! ## Merging -/

/-- The marks for a value among the keys become texts. -/
def markKeys (n : Nat) (g : Graph) : Graph :=
  (g.entries n).foldl
    (fun g e => if g.tagOf e.1 = .value then g.modify e.1 fun v => { v with tag := .text } else g) g

/-- The first merge entry of a mapping, and the other entries. -/
def nextMerge? (g : Graph) (n : Nat) : Option (Nat × List (Nat × Nat)) :=
  let es := g.entries n
  let before := es.takeWhile fun e => g.tagOf e.1 != .merge
  match es.drop before.length with
  | [] => none
  | e :: after => some (e.2, before ++ after)

/-- Flattens a mapping by `flat`; nothing else can be merged. -/
def flattenMap (flat : Nat → Graph → Except ReadFault Graph) (g : Graph) (n : Nat) :
    Except ReadFault Graph :=
  match (g.vertex n).parts with
  | .map _ => flat n g
  | _ => .error .malformed

/-- The entries that a merge takes from a mapping or from a list of mappings, of
which the first wins. -/
def donated (flat : Nat → Graph → Except ReadFault Graph) (n : Nat) (g : Graph) :
    Except ReadFault (List (Nat × Nat) × Graph) :=
  match (g.vertex n).parts with
  | .list items => do
    let g ← items.foldlM (flattenMap flat) g
    return (items.reverse.flatMap g.entries, g)
  | _ => do
    let g ← flattenMap flat g n
    return (g.entries n, g)

/-- Removes merge entries of a mapping, `count` at most, and gives what they ask for. -/
def takeMerges (flat : Nat → Graph → Except ReadFault Graph) (n count : Nat) (g : Graph) :
    Except ReadFault (List (Nat × Nat) × Graph) :=
  match count with
  | 0 => .ok ([], g)
  | c + 1 =>
    match g.nextMerge? n with
    | none => .ok ([], g)
    | some (donor, others) => do
      let (gifts, g) ← donated flat donor (g.setEntries n others)
      let (more, g) ← takeMerges flat n c g
      return (gifts ++ more, g)

/-- Does the merges of a mapping; `left` bounds how they may be nested. -/
def flatten (left n : Nat) (g : Graph) : Except ReadFault Graph :=
  match left with
  | 0 => .error .tooDeep
  | l + 1 => do
    let (gifts, g) ← takeMerges (flatten l) n (g.entries n).length (g.markKeys n)
    return g.setEntries n (gifts ++ g.entries n)

/-! ## Scalars -/

/-- The text of a scalar, or that which a mapping has under the mark for a value. -/
def scalarText (g : Graph) (left n : Nat) : Except ReadFault (List Char) :=
  match left with
  | 0 => .error .tooDeep
  | l + 1 =>
    match (g.vertex n).parts with
    | .scalar s => .ok s
    | .map es =>
      match es.find? fun e => g.tagOf e.1 == .value with
      | some e => g.scalarText l e.2
      | none => .error .malformed
    | .list _ => .error .malformed

/-- The value of a vertex with a tag that is no collection's. -/
def scalar (g : Graph) (n : Nat) : Except ReadFault Value :=
  let tag := g.tagOf n
  if tag.isScalar then do
    let s ← g.scalarText longestChain n
    match (g.vertex n).parts with
    | .map _ => markedValue tag s
    | _ => scalarValue tag s
  else .error .malformed

end Graph

end AppPipeline.Yaml
