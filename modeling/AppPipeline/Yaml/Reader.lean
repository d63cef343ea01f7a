import AppPipeline.Yaml.Tangle
import AppPipeline.Yaml.Tree

/-!
# Reading YAML

`read` gives what a text denotes, `readFile` the same for the text of a file.
Without aliases that is a plain value; otherwise the value refers to containers.
-/

namespace AppPipeline.Yaml

/-- A value with the containers that it refers to. -/
structure Meaning where
  value : Value
  knots : Knots

/-- What a node denotes; `left` bounds how deep it is nested. -/
def Node.meaning (left : Nat) (x : Node) : Except ReadFault Meaning :=
  match x.tree? with
  | some y =>
    match y.value left 0 with
    | .ok v => .ok ⟨v, #[]⟩
    | .error f => .error f.2
  | none => (Tangle.untangle (Graph.ofNode x)).map fun r => ⟨r.1, r.2⟩

def ofTokens (ts : List Token) : Except ReadFault Meaning := do
  (← Node.document ts).meaning (ts.length + 2)

/-- Reads a YAML text. -/
def read (text : String) : Except ReadFault Meaning := ofTokens (tokens text.toList)

/-- Reads the text of a YAML file. -/
def readFile (text : String) : Except ReadFault Meaning := ofTokens (fileTokens text.toList)

end AppPipeline.Yaml
