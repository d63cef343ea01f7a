import AppPipeline.Needs.Levels
import AppPipeline.Value.Display

/-!
# Problems of a workflow document

The causes for which a document is refused, from the whole of it down to its
steps, and their wording, in which values may refer to containers.
-/

namespace AppPipeline

inductive StepProblem where
  | notMapping
  | bothKinds
  | neitherKind
  | blank (key : String)
  deriving DecidableEq, Repr

inductive JobProblem where
  | notMapping
  | noRunner
  | noSteps
  | step (index : Nat) (problem : StepProblem)
  | unknownNeed (need : Value)
  deriving DecidableEq, Repr

inductive Problem where
  | notMapping
  | noName
  | noTriggers
  | badEnv
  | noJobs
  | job (id : Value) (problem : JobProblem)
  | needs (fault : Needs.GraphFault Value)
  deriving DecidableEq, Repr

/-! ## Wording -/

def StepProblem.text : StepProblem → String
  | .notMapping => "step must be a mapping"
  | .bothKinds => "step has both 'run' and 'uses'"
  | .neitherKind => "step has neither 'run' nor 'uses'"
  | .blank key => "'" ++ key ++ "' must be a non-empty string"

/-- What follows the id of the job. -/
def JobProblem.text (knots : Knots) : JobProblem → String
  | .notMapping => ": job must be a mapping"
  | .noRunner => ": 'runs-on' must be a non-empty string"
  | .noSteps => ": 'steps' must be a non-empty list"
  | .step index problem => ".steps[" ++ toString index ++ "]: " ++ problem.text
  | .unknownNeed need => ": needs unknown job '" ++ need.display knots ++ "'"

/-- Why the wording of a problem cannot be given. -/
def JobProblem.displayFault? (knots : Knots) : JobProblem → Option Value.DisplayFault
  | .unknownNeed need => need.displayFault? knots
  | _ => none

def Problem.text (knots : Knots) : Problem → String
  | .notMapping => "document must be a mapping"
  | .noName => "'name' must be a non-empty string"
  | .noTriggers => "'on' must be a non-empty trigger mapping"
  | .badEnv => "'env' must be a mapping"
  | .noJobs => "'jobs' must be a non-empty mapping"
  | .job id problem => "jobs." ++ id.display knots ++ problem.text knots
  | .needs fault => fault.message (Value.display knots) (Value.literal knots)

end AppPipeline
