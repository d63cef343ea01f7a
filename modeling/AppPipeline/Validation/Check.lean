import AppPipeline.Failure
import AppPipeline.Validation.Problem

/-!
# Checking a workflow document

`problems` lists what is wrong with a value taken as a workflow document:
its name, triggers, environment and jobs, each job's runner, steps and needs,
and last the order of the needs, in which a job is known by its id and its
place. Job ids that have to be put in order must be of one ordered kind; if
they are not, the check itself fails. With texts as ids it never does. The
value and its parts may refer to containers.
-/

namespace AppPipeline.Validation

/-! ## Fields -/

/-- The value under a text key. -/
def field? (entries : List (Value × Value)) (key : String) : Option Value :=
  Value.lookup (.text key) entries

/-- The value under a text key, or the container that it refers to. -/
def part? (knots : Knots) (entries : List (Value × Value)) (key : String) : Option Value :=
  (field? entries key).map (Value.resolve knots)

def hasField (entries : List (Value × Value)) (key : String) : Bool := (field? entries key).isSome

def inkedField (entries : List (Value × Value)) (key : String) : Bool :=
  (field? entries key).any Value.hasInk

/-! ## Steps -/

/-- The problem of a step, if there is one. -/
def stepProblem? (knots : Knots) (step : Value) : Option StepProblem :=
  match step.resolve knots with
  | .map entries =>
    let runs := hasField entries "run"
    let uses := hasField entries "uses"
    if runs && uses then some .bothKinds
    else if !runs && !uses then some .neitherKind
    else
      let key := if runs then "run" else "uses"
      if inkedField entries key then none else some (.blank key)
  | _ => some .notMapping

def stepProblems (knots : Knots) (index : Nat) : List Value → List JobProblem
  | [] => []
  | s :: rest =>
    ((stepProblem? knots s).map (.step index)).toList ++ stepProblems knots (index + 1) rest

/-! ## Jobs -/

/-- The entries of a list, nothing for null, any other value alone. -/
def needsOf (knots : Knots) : Option Value → List Value
  | none => []
  | some v =>
    match v.resolve knots with
    | .null => []
    | .list needs => needs
    | _ => [v]

/-- The need is the id of a job. -/
def isKnown (jobs : List (Value × Value)) : Value → Bool
  | .text s => (Value.lookup (.text s) jobs).isSome
  | _ => false

def runnerProblems (entries : List (Value × Value)) : List JobProblem :=
  if inkedField entries "runs-on" then [] else [.noRunner]

/-- The steps of a job, none if it has no list of steps. -/
def stepsOf (knots : Knots) (entries : List (Value × Value)) : List Value :=
  match part? knots entries "steps" with
  | some (.list steps) => steps
  | _ => []

def stepsProblems (knots : Knots) (entries : List (Value × Value)) : List JobProblem :=
  match stepsOf knots entries with
  | [] => [.noSteps]
  | steps => stepProblems knots 0 steps

def needsProblems (knots : Knots) (jobs entries : List (Value × Value)) : List JobProblem :=
  ((needsOf knots (field? entries "needs")).filter fun d => !isKnown jobs d).map .unknownNeed

def jobProblems (knots : Knots) (jobs : List (Value × Value)) (job : Value) : List JobProblem :=
  match job.resolve knots with
  | .map entries =>
    runnerProblems entries ++ stepsProblems knots entries ++ needsProblems knots jobs entries
  | _ => [.notMapping]

/-! ## The order of the needs -/

/-- A job by its id and its place among the jobs. Two ids that are not numbers may look the same
and still be different keys; their places differ. -/
structure JobId where
  value : Value
  place : Nat
  deriving DecidableEq, Repr

namespace JobId

def le (a b : JobId) : Bool := Value.keyLe a.value b.value

/-- The ids can be put in order. -/
def sortable (ids : List JobId) : Bool := Value.sortable (ids.map value)

/-- The job whose id a need is. -/
def named? (ids : List JobId) : Value → Option JobId
  | .text s => ids.find? fun id => Value.sameKey (.text s) id.value
  | _ => none

end JobId

/-- The jobs with their places. -/
def placedJobs (jobs : List (Value × Value)) : List (JobId × Value) :=
  jobs.zipIdx.map fun j => (⟨j.1.1, j.2⟩, j.1.2)

/-- The needs of a job that are jobs; none of a value that is no job. -/
def knownNeeds? (knots : Knots) (ids : List JobId) (job : Value) : Option (List JobId) :=
  match job.resolve knots with
  | .map entries => some ((needsOf knots (field? entries "needs")).filterMap (JobId.named? ids))
  | _ => none

/-- Every job with its known needs, if every job is a mapping. -/
def relationOf? (knots : Knots) (ids : List JobId) : List (JobId × Value) →
    Option (List (JobId × List JobId))
  | [] => some []
  | (id, job) :: rest => do
    let needs ← knownNeeds? knots ids job
    let others ← relationOf? knots ids rest
    return (id, needs) :: others

def relation? (knots : Knots) (jobs : List (Value × Value)) :
    Option (List (JobId × List JobId)) :=
  let placed := placedJobs jobs
  relationOf? knots (placed.map Prod.fst) placed

/-- Job ids of different kinds have no order. -/
inductive OrderFault where
  | mixedIds
  deriving DecidableEq, Repr

/-- The lists of ids that leveling puts in order. -/
def orderings (g : Needs.Graph JobId) (l : Needs.Leveling JobId) : List (List JobId) :=
  g.roots JobId.le :: l.stuck :: l.levels.flatten.map g.childrenOf

def relationProblems (relation : List (JobId × List JobId)) : Except OrderFault (List Problem) :=
  match Needs.Graph.build relation with
  | .error m => .ok [.needs (.missing (m.map JobId.value))]
  | .ok g =>
    let l := g.leveling JobId.le
    if (orderings g l).all JobId.sortable then
      .ok (if l.stuck.isEmpty then [] else [.needs (.cycle (l.stuck.map JobId.value))])
    else .error .mixedIds

def orderProblems (knots : Knots) (jobs : List (Value × Value)) :
    Except OrderFault (List Problem) :=
  match relation? knots jobs with
  | none => .ok []
  | some relation => relationProblems relation

/-! ## Documents -/

def nameProblems (entries : List (Value × Value)) : List Problem :=
  if inkedField entries "name" then [] else [.noName]

/-- The trigger map; an unquoted key `on` may have been read as a truth value. -/
def triggers? (entries : List (Value × Value)) : Option Value :=
  match field? entries "on" with
  | some v => some v
  | none => Value.lookup (.bool true) entries

def triggerProblems (knots : Knots) (entries : List (Value × Value)) : List Problem :=
  match (triggers? entries).map (Value.resolve knots) with
  | some (.map (_ :: _)) => []
  | _ => [.noTriggers]

def envProblems (knots : Knots) (entries : List (Value × Value)) : List Problem :=
  match part? knots entries "env" with
  | none => []
  | some .null => []
  | some (.map _) => []
  | some _ => [.badEnv]

/-- The jobs of a document, none if it has no mapping of jobs. -/
def jobsOf (knots : Knots) (entries : List (Value × Value)) : List (Value × Value) :=
  match part? knots entries "jobs" with
  | some (.map jobs) => jobs
  | _ => []

def jobsProblems (knots : Knots) (jobs : List (Value × Value)) : List Problem :=
  if jobs.isEmpty then [.noJobs]
  else jobs.flatMap fun j => (jobProblems knots jobs j.2).map (.job j.1)

/-- The problems of a document, in order. -/
def problems (knots : Knots) (document : Value) : Except OrderFault (List Problem) :=
  match document.resolve knots with
  | .map entries => do
    let jobs := jobsOf knots entries
    let own :=
      nameProblems entries ++ triggerProblems knots entries ++ envProblems knots entries
        ++ jobsProblems knots jobs
    return own ++ (← orderProblems knots jobs)
  | _ => return [.notMapping]

/-! ## Wording -/

/-- The id of a job is written in each of its problems, and its place for each of its steps. -/
def namesJob (knots : Knots) (jobs : List (Value × Value)) (job : Value) : Bool :=
  match job.resolve knots with
  | .map entries =>
    !(stepsOf knots entries).isEmpty || !(jobProblems knots jobs job).isEmpty
  | _ => true

/-- Why the problems of a job have no wording. -/
def jobDisplayFault? (knots : Knots) (jobs : List (Value × Value)) (j : Value × Value) :
    Option Value.DisplayFault :=
  if namesJob knots jobs j.2 then
    (j.1.displayFault? knots).or
      ((jobProblems knots jobs j.2).findSome? (JobProblem.displayFault? knots))
  else none

/-- Why the problems of a document have no wording. -/
def displayFault? (knots : Knots) (document : Value) : Option Value.DisplayFault :=
  match document.resolve knots with
  | .map entries =>
    let jobs := jobsOf knots entries
    jobs.findSome? (jobDisplayFault? knots jobs)
  | _ => none

inductive CheckFault where
  | order (fault : OrderFault)
  | display (fault : Value.DisplayFault)
  deriving DecidableEq, Repr

def CheckFault.message : CheckFault → String
  | .order .mixedIds => "job ids of several types cannot be sorted"
  | .display f => f.message

/-- The wording of the problems of a document. -/
def problemTexts (knots : Knots) (document : Value) : Except CheckFault (List String) :=
  match displayFault? knots document with
  | some f => .error (.display f)
  | none =>
    match problems knots document with
    | .ok ps => .ok (ps.map (Problem.text knots))
    | .error f => .error (.order f)

/-- The failure of a document with problems. -/
def failure? (knots : Knots) (document : Value) : Except CheckFault (Option Failure) :=
  (problemTexts knots document).map fun texts =>
    if texts.isEmpty then none else some (.invalidWorkflow texts)

end AppPipeline.Validation
