import AppPipeline.Json.Basic
import AppPipeline.Text.Blank
import AppPipeline.Text.Quoted

/-!
# Steps of a job

A step either runs a shell command or uses an action. `Step.check` accepts a
step exactly when one of the two texts, and not the other, has ink;
`shell` and `action` build steps of the two kinds.
-/

namespace AppPipeline

structure Step where
  name : Option String := none
  run : Option String := none
  uses : Option String := none
  id : Option String := none
  condition : Option String := none
  inputs : List (String × Json) := []
  env : List (String × Json) := []
  deriving DecidableEq, Repr

/-- A step, by its name, of which not exactly one text is set. -/
inductive StepFault where
  | notOneOf (name : Option String)
  deriving DecidableEq, Repr

def StepFault.message : StepFault → String
  | .notOneOf name =>
    "step " ++ (name.map Text.quoted).getD "None" ++ " must set exactly one of run/uses"

namespace Step

def isSet (text : Option String) : Bool := text.any Text.hasInk

def check (s : Step) : Except StepFault Step :=
  if isSet s.run == isSet s.uses then .error (.notOneOf s.name) else .ok s

def isShell (s : Step) : Bool := s.run.isSome

/-! ## The two kinds -/

def shell (name command : String) : Step := { name := some name, run := some command }

def action (name reference : String) (inputs : List (String × Json)) : Step :=
  { name := some name, uses := some reference, inputs := inputs }

/-- The same step under a condition. -/
def onlyIf (s : Step) (condition : Option String) : Step := { s with condition := condition }

def withId (s : Step) (id : String) : Step := { s with id := some id }

def withEnv (s : Step) (env : List (String × String)) : Step :=
  { s with env := env.map fun e => (e.1, .str e.2) }

/-! ## Data form -/

/-- A field for a text that is there. -/
def textField (key : String) (text : Option String) : List (String × Json) :=
  (text.map fun t => (key, Json.str t)).toList

/-- A field for an object that is not empty. -/
def objectField (key : String) (fields : List (String × Json)) : List (String × Json) :=
  if fields.isEmpty then [] else [(key, .object fields)]

def toJson (s : Step) : Json :=
  .object
    (textField "name" s.name ++ textField "id" s.id ++ textField "if" s.condition
      ++ textField "uses" s.uses ++ objectField "with" s.inputs ++ textField "run" s.run
      ++ objectField "env" s.env)

end Step

end AppPipeline
