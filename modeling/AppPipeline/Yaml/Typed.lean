import AppPipeline.Text.Base64
import AppPipeline.Value.Places
import AppPipeline.Yaml.Node
import AppPipeline.Yaml.Number

/-!
# Scalars of a type

`scalarValue` gives the value of a text with a tag. Tags of collections, the
special marks and unknown tags have no scalars.
-/

namespace AppPipeline.Yaml

def truthValue (s : List Char) : Except ReadFault Bool :=
  let word := String.ofList (s.map Char.toLower)
  if word ∈ ["yes", "true", "on"] then .ok true
  else if word ∈ ["no", "false", "off"] then .ok false
  else .error .noTruth

def bytesValue (s : List Char) : Except ReadFault (List Nat) :=
  if s.all fun c => c.toNat < 0x80 then
    match Text.base64? s with
    | some bytes => .ok bytes
    | none => .error .malformed
  else .error .malformed

def scalarValue (tag : Tag) (s : List Char) : Except ReadFault Value :=
  match tag with
  | .null => .ok .null
  | .bool => (truthValue s).map .bool
  | .int => (integerValue s).map .int
  | .float => (decimalValue s).map .float
  | .binary => (bytesValue s).map .bytes
  | .timestamp =>
    match calendarValue s with
    | .ok (.date d) => .ok (.date d)
    | .ok (.moment m) => .ok (.moment m)
    | .error f => .error f
  | .text => .ok (.text (String.ofList s))
  | _ => .error .malformed

/-- The value of a text that a mapping with a scalar's tag has under the mark for a value. A
moment cannot be given so. -/
def markedValue (tag : Tag) (s : List Char) : Except ReadFault Value :=
  if tag = .timestamp then .error .notText else scalarValue tag s

/-- The origin of a key with this text: the words for no number share one, any other text has
one of its own. -/
def keyOrigin (own : Nat) (s : List Char) : Nat := if isNotNumberWord s then 0 else own + 1

/-- A key must be a scalar. -/
def keyOf (own : Nat) (s : List Char) (v : Value) : Except ReadFault Value.Key :=
  if v.isKey then .ok ⟨v, keyOrigin own s⟩ else .error .malformed

/-- The most mappings that a scalar's text may be looked for in, or through which a merge goes. -/
def longestChain : Nat := 960

end AppPipeline.Yaml
