import AppPipeline.Workflow.Delivery
import AppPipeline.Workflow.Document

/-!
# Compiling a configuration

`Config.compile` builds the document of a configuration. The order of jobs,
steps, triggers and environment entries comes from the rule tables alone, so
the order of the configuration's own collections never shows.
-/

namespace AppPipeline

def mainBranches : List String := ["main", "master"]

def ignoredPaths : List String := ["**.md", "LICENSE", "docs/**"]

def textsJson (texts : List String) : Json := .list (texts.map .str)

/-! ## Triggers -/

/-- A choice offered when a run is started by hand. -/
def choiceInput (description default : String) (options : List String) : Json :=
  .object
    [("description", .str description),
     ("required", .bool true),
     ("default", .str default),
     ("type", .str "choice"),
     ("options", textsJson options)]

namespace Config

/-- The build types that a manual run may pick, besides all. -/
def offeredTypes (c : Config) : List BuildType :=
  Choice.members.filter fun t => c.buildTypes.contains t

def dispatchInputs (c : Config) : List (String × Json) :=
  ("buildType", choiceInput "Build type to run" "all" ("all" :: c.offeredTypes.map Choice.name))
    :: (if c.options.iosSupport then
      [("platform",
        choiceInput "Platform to build" Platform.android.name (Platform.all.map Platform.name))]
      else [])

/-- The trigger map; a run can be started by hand if asked for or if nothing else starts one. -/
def triggerMap (c : Config) : List (String × Json) :=
  let push : List (String × Json) :=
    if c.triggers.contains .pushMain then
      [("push", .object
        [("branches", textsJson mainBranches), ("paths-ignore", textsJson ignoredPaths)])]
    else []
  let pull : List (String × Json) :=
    if c.triggers.contains .pullRequest then
      [("pull_request", .object [("branches", textsJson mainBranches)])]
    else []
  let automatic := push ++ pull
  if c.triggers.contains .manual || automatic.isEmpty then
    automatic ++ [("workflow_dispatch", .object [("inputs", .object c.dispatchInputs)])]
  else automatic

/-! ## Environment -/

def appleSecrets : List String := ["EXPO_APPLE_ID", "EXPO_APPLE_PASSWORD", "EXPO_TEAM_ID"]

def storeSecrets : List String := ["GOOGLE_PLAY_SERVICE_ACCOUNT"]

def secretNames (c : Config) : List String :=
  "EXPO_TOKEN" :: (if c.options.iosSupport then appleSecrets else [])
    ++ c.storage.secrets
    ++ (if c.options.publishToStores then storeSecrets else [])
    ++ c.options.channels.map Channel.secretName

def env (c : Config) : List (String × String) :=
  c.secretNames.map (fun n => (n, secret n)) ++ [("NODE_OPTIONS", "--openssl-legacy-provider")]

end Config

/-! ## Jobs -/

def checkSkipId : String := "check-skip"

def testJobId : String := "test"

def releaseJobId : String := "build-and-release"

def deployJobId : String := "build-and-deploy"

def skipGuard : String := "!contains(github.event.head_commit.message, '[skip ci]')"

def buildJobGuard : String :=
  "(github.event_name == 'push' && "
    ++ "(github.ref == 'refs/heads/main' || github.ref == 'refs/heads/master')) "
    ++ "|| github.event_name == 'workflow_dispatch'"

def checkSkipJob : Job :=
  { id := checkSkipId
    steps := [Step.shell "Skip CI check" "echo \"Proceeding with workflow\""]
    condition := some skipGuard }

/-- The platform decides the machine. -/
def iosRunsOn : String :=
  hosted "matrix.platform == 'ios' && 'macos-latest' || 'ubuntu-latest'"

def platformStrategy : List (String × Json) :=
  [("matrix", .object [("platform", textsJson (Platform.all.map Platform.name))])]

namespace Config

def testJob? (c : Config) : Option Job :=
  if c.hasTestWork then
    some { id := testJobId, steps := c.testSteps, needs := [checkSkipId] }
  else none

def buildJobId (c : Config) : String :=
  match c.storage with
  | .githubRelease => releaseJobId
  | _ => deployJobId

def buildJobSteps (c : Config) : List Step :=
  c.buildSteps ++ c.publicationSteps ++ c.storeSteps ++ c.options.channels.map Channel.step

def buildJob (c : Config) : Job :=
  { id := c.buildJobId
    steps := c.buildJobSteps
    runsOn := if c.options.iosSupport then iosRunsOn else "ubuntu-latest"
    needs := [if c.hasTestWork then testJobId else checkSkipId]
    condition := some buildJobGuard
    strategy := if c.options.iosSupport then platformStrategy else [] }

def jobs (c : Config) : List Job := checkSkipJob :: c.testJob?.toList ++ [c.buildJob]

/-- The document of a configuration. -/
def compile (c : Config) : Document :=
  { name := "React Native CI/CD"
    on := c.triggerMap
    env := c.env
    jobs := c.jobs }

end Config

end AppPipeline
