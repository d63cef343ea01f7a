import AppPipeline.Yaml.Plain
import AppPipeline.Yaml.Token

/-!
# Nodes

A node is a tagged scalar, list or mapping. It may have an anchor, whose name
an alias elsewhere, even inside the node, can stand for. `document` builds the
node of a text from its tokens: properties and content of a node, the entries
of block and flow collections, one document with its directives. Collections
may be nested as deep as `deepest` says; `level` counts what is left of that.
The argument `left` bounds the nesting and the lengths.
-/

namespace AppPipeline.Yaml

/-! ## Tags -/

inductive Tag where
  | null
  | bool
  | int
  | float
  | binary
  | timestamp
  | orderedMap
  | pairs
  | set
  | text
  | list
  | map
  | merge
  | value
  | unknown
  deriving DecidableEq, Repr

namespace Tag

def coreStem : String := "tag:yaml.org,2002:"

def coreNames : List (String × Tag) :=
  [("null", .null), ("bool", .bool), ("int", .int), ("float", .float), ("binary", .binary),
   ("timestamp", .timestamp), ("omap", .orderedMap), ("pairs", .pairs), ("set", .set),
   ("str", .text), ("seq", .list), ("map", .map), ("merge", .merge), ("value", .value)]

/-- The tag with a full name. -/
def named (name : String) : Tag :=
  match coreNames.find? fun t => coreStem ++ t.1 == name with
  | some t => t.2
  | none => .unknown

/-- The tag of a plain scalar. -/
def ofKind : Plain.Kind → Tag
  | .null => .null
  | .truth => .bool
  | .integer => .int
  | .decimal => .float
  | .moment => .timestamp
  | .merge => .merge
  | .value => .value
  | .mark => .unknown
  | .text => .text

/-- The tags of lists, mappings and what is made of them. -/
def isCollection : Tag → Bool
  | .list | .map | .set | .orderedMap | .pairs => true
  | _ => false

/-- The tags of scalars that have values. -/
def isScalar : Tag → Bool
  | .null | .bool | .int | .float | .binary | .timestamp | .text => true
  | _ => false

/-- A given name decides the tag, unless it is the mark that leaves it open. -/
def given (name : Option String) (otherwise : Tag) : Tag :=
  match name with
  | none => otherwise
  | some "!" => otherwise
  | some n => named n

end Tag

/-! ## Nodes -/

inductive Node where
  | scalar (tag : Tag) (text : List Char)
  | list (tag : Tag) (items : List Node)
  | map (tag : Tag) (entries : List (Node × Node))
  | anchored (name : String) (x : Node)
  | alias (name : String)
  deriving Repr, Inhabited

namespace Node

/-- The most collections around a node. -/
def deepest : Nat := 490

/-- The node of a part that is left out. -/
def absent : Node := .scalar .null []

/-- What is left to read, and the names of the anchors so far. -/
structure Source where
  tokens : List Token
  anchors : List String
  deriving Repr

namespace Source

def drop (n : Nat) (s : Source) : Source := { s with tokens := s.tokens.drop n }

/-- Enters an anchor, which must be new. -/
def withAnchor (name : Option String) (s : Source) : Except ReadFault Source :=
  match name with
  | none => .ok s
  | some n =>
    if s.anchors.contains n then .error .malformed
    else .ok { s with anchors := n :: s.anchors }

end Source

/-- The fault of tokens that do not go on as they must. -/
def faultAt : List Token → ReadFault
  | .broken f :: _ => f
  | _ => .malformed

/-! ## Properties -/

/-- The anchor and the tag of a node, and how many tokens they take. -/
structure Properties where
  anchor : Option String
  tag : Option (Option String × String)
  count : Nat
  deriving Repr

def properties : List Token → Except ReadFault Properties
  | .broken f :: _ => .error f
  | .anchor _ :: .broken f :: _ => .error f
  | .tag _ _ :: .broken f :: _ => .error f
  | .anchor a :: .tag h s :: _ => .ok ⟨some a, some (h, s), 2⟩
  | .anchor a :: _ => .ok ⟨some a, none, 1⟩
  | .tag h s :: .anchor a :: _ => .ok ⟨some a, some (h, s), 2⟩
  | .tag h s :: _ => .ok ⟨none, some (h, s), 1⟩
  | _ => .ok ⟨none, none, 0⟩

/-- The name of a tag; its handle must have a stem. -/
def tagName (handles : List (String × String)) :
    Option (Option String × String) → Except ReadFault (Option String)
  | none => .ok none
  | some (none, suffix) => .ok (some suffix)
  | some (some handle, suffix) =>
    match handles.lookup handle with
    | some stem => .ok (some (stem ++ suffix))
    | none => .error .malformed

/-! ## Content -/

def scalarTag (name : Option String) (plain : Bool) (text : List Char) : Tag :=
  Tag.given name
    (if plain || name.isSome then Tag.ofKind (Plain.kind text) else .text)

/-- Here an entry ends, or a part of it. -/
def endsPart : List Token → Bool
  | .key :: _ => true
  | .value :: _ => true
  | .blockEnd :: _ => true
  | .flowEntry :: _ => true
  | .flowSequenceEnd :: _ => true
  | .flowMappingEnd :: _ => true
  | _ => false

/-- Here an item of a list in blocks ends. -/
def endsItem : List Token → Bool
  | .blockEntry :: _ => true
  | ts => endsPart ts

/-- The tokens behind the comma that must stand before all entries but the first. -/
def afterComma (first : Bool) : List Token → Except ReadFault (List Token)
  | .flowEntry :: ts => if first then .ok (.flowEntry :: ts) else .ok ts
  | ts => if first then .ok ts else .error (faultAt ts)

/-- One level less, if there is one. -/
def deeper (level : Nat) : Except ReadFault Nat :=
  match level with
  | 0 => .error .tooDeep
  | n + 1 => .ok n

mutual

/-- The node that stands here; `block` allows blocks and `bare` a list that is not indented. -/
def read (handles : List (String × String)) (block bare : Bool) (level left : Nat) (s : Source) :
    Except ReadFault (Node × Source) :=
  match left with
  | 0 => .error .malformed
  | n + 1 =>
    match s.tokens with
    | .alias name :: _ =>
      if s.anchors.contains name then .ok (.alias name, s.drop 1) else .error .malformed
    | tokens => do
      let p ← properties tokens
      let name ← tagName handles p.tag
      let s := s.drop p.count
      if let .broken f :: _ := s.tokens then throw f
      let s ← s.withAnchor p.anchor
      let (x, s) ← content handles block bare level n (p.count != 0) name s
      match p.anchor with
      | none => return (x, s)
      | some a => return (.anchored a x, s)
termination_by structural left

/-- The content of a node, which may be left out only if it has properties. -/
def content (handles : List (String × String)) (block bare : Bool) (level left : Nat)
    (marked : Bool) (name : Option String) (s : Source) : Except ReadFault (Node × Source) :=
  match left with
  | 0 => .error .malformed
  | n + 1 =>
    match s.tokens with
    | .scalar plain text :: _ => .ok (.scalar (scalarTag name plain text) text, s.drop 1)
    | .flowSequence :: _ => do
      let (xs, s) ← flowItems handles (← deeper level) n true (s.drop 1)
      return (.list (Tag.given name .list) xs, s)
    | .flowMapping :: _ => do
      let (es, s) ← flowEntries handles (← deeper level) n true (s.drop 1)
      return (.map (Tag.given name .map) es, s)
    | t :: _ =>
      if bare && t == .blockEntry then do
        let (xs, s) ← items handles (← deeper level) n true s
        return (.list (Tag.given name .list) xs, s)
      else if block && t == .blockSequence then do
        let (xs, s) ← items handles (← deeper level) n false (s.drop 1)
        return (.list (Tag.given name .list) xs, s)
      else if block && t == .blockMapping then do
        let (es, s) ← entries handles (← deeper level) n (s.drop 1)
        return (.map (Tag.given name .map) es, s)
      else if marked then .ok (.scalar (Tag.given name .null) [], s)
      else .error .malformed
    | [] => if marked then .ok (.scalar (Tag.given name .null) [], s) else .error .malformed
termination_by structural left

/-- The items of a list in blocks; a bare list ends where no further item stands. -/
def items (handles : List (String × String)) (level left : Nat) (bare : Bool) (s : Source) :
    Except ReadFault (List Node × Source) :=
  match left with
  | 0 => .error .malformed
  | n + 1 =>
    match s.tokens with
    | .blockEntry :: ts => do
      let (x, s) ←
        if endsItem ts then pure (absent, s.drop 1) else read handles true false level n (s.drop 1)
      let (xs, s) ← items handles level n bare s
      return (x :: xs, s)
    | .blockEnd :: _ => .ok ([], if bare then s else s.drop 1)
    | ts => if bare then .ok ([], s) else .error (faultAt ts)
termination_by structural left

/-- The entries of a mapping in blocks. -/
def entries (handles : List (String × String)) (level left : Nat) (s : Source) :
    Except ReadFault (List (Node × Node) × Source) :=
  match left with
  | 0 => .error .malformed
  | n + 1 =>
    match s.tokens with
    | .key :: _ => do
      let (e, s) ← entry handles true level n (s.drop 1)
      let (es, s) ← entries handles level n s
      return (e :: es, s)
    | .blockEnd :: _ => .ok ([], s.drop 1)
    | ts => .error (faultAt ts)
termination_by structural left

/-- The key and the value that stand behind a key token. -/
def entry (handles : List (String × String)) (block : Bool) (level left : Nat) (s : Source) :
    Except ReadFault ((Node × Node) × Source) :=
  match left with
  | 0 => .error .malformed
  | n + 1 => do
    let (k, s) ←
      if endsPart s.tokens then pure (absent, s) else read handles block block level n s
    match s.tokens with
    | .value :: ts =>
      let (v, s) ←
        if endsPart ts then pure (absent, s.drop 1)
        else read handles block block level n (s.drop 1)
      return ((k, v), s)
    | _ => return ((k, absent), s)
termination_by structural left

/-- The items of a flow list; an entry with a key is a mapping of its own. -/
def flowItems (handles : List (String × String)) (level left : Nat) (first : Bool) (s : Source) :
    Except ReadFault (List Node × Source) :=
  match left with
  | 0 => .error .malformed
  | n + 1 =>
    match s.tokens with
    | .flowSequenceEnd :: _ => .ok ([], s.drop 1)
    | tokens => do
      let tokens ← afterComma first tokens
      let s := { s with tokens := tokens }
      match tokens with
      | .flowSequenceEnd :: _ => return ([], s.drop 1)
      | .key :: _ =>
        let (e, s) ← entry handles false (← deeper level) n (s.drop 1)
        let (xs, s) ← flowItems handles level n false s
        return (.map .map [e] :: xs, s)
      | _ =>
        let (x, s) ← read handles false false level n s
        let (xs, s) ← flowItems handles level n false s
        return (x :: xs, s)
termination_by structural left

/-- The entries of a flow mapping; an entry may be a key alone. -/
def flowEntries (handles : List (String × String)) (level left : Nat) (first : Bool) (s : Source) :
    Except ReadFault (List (Node × Node) × Source) :=
  match left with
  | 0 => .error .malformed
  | n + 1 =>
    match s.tokens with
    | .flowMappingEnd :: _ => .ok ([], s.drop 1)
    | tokens => do
      let tokens ← afterComma first tokens
      let s := { s with tokens := tokens }
      match tokens with
      | .flowMappingEnd :: _ => return ([], s.drop 1)
      | .key :: _ =>
        let (e, s) ← entry handles false level n (s.drop 1)
        let (es, s) ← flowEntries handles level n false s
        return (e :: es, s)
      | _ =>
        let (k, s) ← read handles false false level n s
        let (es, s) ← flowEntries handles level n false s
        return ((k, absent) :: es, s)
termination_by structural left

end

/-! ## Documents -/

def commonHandles : List (String × String) := [("!", "!"), ("!!", Tag.coreStem)]

/-- The directives that stand here: one version at most, which must be known, and
each handle once. -/
def directives (versioned : Bool) (handles : List (String × String)) :
    List Token → Except ReadFault (List (String × String) × List Token)
  | .directive (.version major) :: ts =>
    if versioned || major != 1 then .error .malformed else directives true handles ts
  | .directive (.handle name stem) :: ts =>
    if (handles.lookup name).isSome then .error .malformed
    else directives versioned (handles ++ [(name, stem)]) ts
  | .directive .other :: ts => directives versioned handles ts
  | ts => .ok (handles, ts)

/-- No node stands here. -/
def isEmptyDocument : List Token → Bool
  | [] => true
  | .directive _ :: _ => true
  | .documentStart :: _ => true
  | .documentEnd :: _ => true
  | _ => false

/-- A document may end here: no other follows. -/
def endsText (tokens : List Token) : Except ReadFault Unit :=
  match tokens.dropWhile (· == .documentEnd) with
  | [] => .ok ()
  | rest => do
    let (_, rest) ← directives false [] rest
    throw (faultAt rest)

/-- The node after the start of a document, whose text must end there. -/
def body (handles : List (String × String)) (tokens : List Token) : Except ReadFault Node := do
  let (x, s) ←
    if isEmptyDocument tokens then pure (absent, ⟨tokens, []⟩)
    else read (handles ++ commonHandles) true false deepest (3 * tokens.length + 3) ⟨tokens, []⟩
  endsText s.tokens
  return x

/-- The node of a text with these tokens; absent, if there is no document. -/
def document (tokens : List Token) : Except ReadFault Node :=
  match tokens with
  | [] => .ok absent
  | .documentEnd :: _ => .error .malformed
  | _ =>
    if isEmptyDocument tokens then do
      let (handles, rest) ← directives false [] tokens
      match rest with
      | .documentStart :: ts => body handles ts
      | ts => throw (faultAt ts)
    else body [] tokens

end Node

end AppPipeline.Yaml
