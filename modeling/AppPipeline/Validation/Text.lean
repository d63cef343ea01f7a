import AppPipeline.Validation.Check
import AppPipeline.Yaml.Reader

/-!
# Checking the text of a workflow

A text that is no YAML is itself a problem. A scalar without a value of its
type makes the check fail, and so does what makes the check of a document fail.
-/

namespace AppPipeline.Validation

inductive TextFault where
  | value (fault : Yaml.ReadFault)
  | check (fault : CheckFault)
  deriving DecidableEq, Repr

def TextFault.message : TextFault → String
  | .value f => f.message
  | .check f => f.message

/-- The wording of the problems of what was read. -/
def readProblems (r : Except Yaml.ReadFault Yaml.Meaning) : Except TextFault (List String) :=
  match r with
  | .ok d =>
    match problemTexts d.knots d.value with
    | .ok problems => .ok problems
    | .error f => .error (.check f)
  | .error .malformed => .ok [Yaml.ReadFault.malformed.message]
  | .error f => .error (.value f)

/-- The wording of the problems of a document given as text. -/
def textProblems (text : String) : Except TextFault (List String) := readProblems (Yaml.read text)

/-- The wording of the problems of a document in a file with this text. -/
def fileProblems (text : String) : Except TextFault (List String) :=
  readProblems (Yaml.readFile text)

end AppPipeline.Validation
