import AppPipeline.Command.Category
import AppPipeline.Workflow.Compile

/-!
# Commands of a workflow

A `Command` is what a step runs, with its category. Commands are taken from
steps that run something, in order: from a job, from the jobs of a compiled
configuration, or from the data form of a job.
-/

namespace AppPipeline

structure Command where
  stepName : String
  text : String
  category : String
  /-- the text holds an expression that only the hosted runner resolves -/
  hosted : Bool
  deriving DecidableEq, Repr

/-- An opening mark of an expression with a closing one somewhere after it. -/
def holdsExpression : List Char → Bool
  | '$' :: '\x7b' :: '\x7b' :: s =>
    Text.occurs ['\x7d', '\x7d'] s || holdsExpression ('\x7b' :: '\x7b' :: s)
  | _ :: s => holdsExpression s
  | [] => false

namespace Command

/-- The name of a step that has none. -/
def unnamed : String := "unnamed"

/-- The command of a step with a name, perhaps an empty one, and a text to run. -/
def ofTexts (name text : String) : Command :=
  { stepName := if name = "" then unnamed else name
    text := text
    category := (Category.classify name text).name
    hosted := holdsExpression text.toList }

end Command

/-! ## Steps and jobs -/

/-- The command of a step that runs a text, unless the text is empty. -/
def Step.command? (s : Step) : Option Command :=
  match s.run with
  | none => none
  | some text => if text = "" then none else some (Command.ofTexts (s.name.getD "") text)

def Job.commands (j : Job) : List Command := j.steps.filterMap Step.command?

namespace Config

/-- The commands of the test job; none without one. -/
def testCommands (c : Config) : List Command := (c.testJob?.map Job.commands).getD []

/-- Categories that start real builds or need the hosted runner. -/
def isBuildCategory (category : String) : Bool :=
  category == Category.build.name || category == Category.other.name

/-- The commands of the build job, those that start real builds only on request. -/
def buildCommands (c : Config) (builds : Bool) : List Command :=
  let commands := c.buildJob.commands
  if builds then commands else commands.filter fun k => !isBuildCategory k.category

/-- The commands of both jobs, those with expressions only on request. -/
def commands (c : Config) (expressions builds : Bool) : List Command :=
  let all := c.testCommands ++ c.buildCommands builds
  if expressions then all else all.filter fun k => !k.hosted

end Config

/-! ## Data forms -/

/-- The causes for which no commands can be taken from the data form of a job. -/
inductive JobDataFault where
  /-- the steps cannot be gone through -/
  | noSequence
  /-- a step, a name or a text to run is of the wrong kind -/
  | wrongKind
  deriving DecidableEq, Repr

namespace Command

def ofStepData (step : Json) : Except JobDataFault (Option Command) :=
  match step with
  | .object fields =>
    let run := (fields.lookup "run").getD .null
    let name := (fields.lookup "name").getD .null
    if run.isVoid then .ok none
    else
      match run, name with
      | .str text, .str name => .ok (some (ofTexts name text))
      | .str text, name => if name.isVoid then .ok (some (ofTexts "" text)) else .error .wrongKind
      | _, _ => .error .wrongKind
  | _ => .error .wrongKind

def ofStepsData : List Json → Except JobDataFault (List Command)
  | [] => .ok []
  | step :: rest =>
    match ofStepData step with
    | .error f => .error f
    | .ok command => (ofStepsData rest).map (command.toList ++ ·)

/-- The commands of the steps of a job; text and objects are sequences, but not of steps. -/
def ofSequence : Json → Except JobDataFault (List Command)
  | .list steps => ofStepsData steps
  | .str s => if s = "" then .ok [] else .error .wrongKind
  | .object fields => if fields.isEmpty then .ok [] else .error .wrongKind
  | _ => .error .noSequence

/-- The commands of the data form of a job; none if it is void or has no steps. -/
def ofJobData (job : Json) : Except JobDataFault (List Command) :=
  if job.isVoid then .ok []
  else
    match job with
    | .object fields => ofSequence ((fields.lookup "steps").getD (.list []))
    | _ => .error .wrongKind

end Command

end AppPipeline
