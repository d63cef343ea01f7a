import AppPipeline.Raised
import AppPipeline.Workflow.Step

/-!
# Jobs and documents

A `Job` has ordered steps and needs other jobs; a `Document` has a trigger
map, an environment and jobs in order. `accept` runs the checks of all parts,
`toJson` gives their data form.
-/

namespace AppPipeline

structure Job where
  id : String
  steps : List Step
  runsOn : String := "ubuntu-latest"
  needs : List String := []
  condition : Option String := none
  strategy : List (String × Json) := []
  deriving DecidableEq, Repr

inductive JobFault where
  | step (fault : StepFault)
  | noSteps (id : String)
  deriving DecidableEq, Repr

def JobFault.message : JobFault → String
  | .step fault => fault.message
  | .noSteps id => "job(" ++ Text.quoted id ++ ") must have at least one step"

def JobFault.raised (f : JobFault) : Raised := ⟨"ValueError", f.message⟩

namespace Job

/-- Accepts a job with at least one step. -/
def check (j : Job) : Except JobFault Job :=
  if j.steps.isEmpty then .error (.noSteps j.id) else .ok j

/-- Accepts a job whose steps are accepted; a fault of a step comes first. -/
def accept (j : Job) : Except JobFault Job := do
  let steps ← (j.steps.mapM Step.check).mapError .step
  check { j with steps := steps }

/-- A single need stands alone, several are a list. -/
def needsJson : List String → Json
  | [] => .null
  | [need] => .str need
  | needs => .list (needs.map .str)

def toJson (j : Job) : Json :=
  .object
    ((if j.needs.isEmpty then [] else [("needs", needsJson j.needs)])
      ++ Step.textField "if" j.condition ++ Step.objectField "strategy" j.strategy
      ++ [("runs-on", .str j.runsOn), ("steps", .list (j.steps.map Step.toJson))])

end Job

structure Document where
  name : String
  on : List (String × Json)
  env : List (String × String)
  jobs : List Job
  deriving DecidableEq, Repr

namespace Document

/-- Accepts a document whose jobs are accepted. -/
def accept (d : Document) : Except JobFault Document := do
  let jobs ← d.jobs.mapM Job.accept
  return { d with jobs := jobs }

def job? (d : Document) (id : String) : Option Job := d.jobs.find? fun j => j.id == id

def toJson (d : Document) : Json :=
  .object
    [("name", .str d.name),
     ("on", .object d.on),
     ("env", .object (d.env.map fun e => (e.1, .str e.2))),
     ("jobs", .object (d.jobs.map fun j => (j.id, j.toJson)))]

end Document

end AppPipeline
