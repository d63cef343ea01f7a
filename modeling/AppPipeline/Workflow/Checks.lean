import AppPipeline.Config.Basic
import AppPipeline.Toolchain
import AppPipeline.Workflow.Guard
import AppPipeline.Workflow.Step

/-!
# Setup and checks

The steps that prepare a job (checkout, Node, dependency cache, install) and
the checks and test suites of the test job, in the order of two tables.
-/

namespace AppPipeline

def checkoutAction : String := "actions/checkout@v4"

def setupNodeAction : String := "actions/setup-node@v4"

def cacheAction : String := "actions/cache@v3"

namespace Toolchain

/-! ## Preparing a job -/

/-- The action of the package manager itself, if it has one. -/
def setupManager (t : Toolchain) : List Step :=
  (t.setupAction.map fun a => Step.action ("🏗 Setup " ++ t.name) a [("version", .str "9")]).toList

/-- Looks up the cache directory, then restores it. -/
def cacheSteps (t : Toolchain) : List Step :=
  let key := hosted "runner.os" ++ "-" ++ t.name ++ "-"
  [(Step.shell ("📦 Get " ++ t.name ++ " cache directory path") t.cacheDirScript).withId
      t.cacheDirStepId,
   Step.action ("📦 Setup " ++ t.name ++ " cache") cacheAction
    [("path", .str (hosted ("steps." ++ t.cacheDirStepId ++ ".outputs.dir"))),
     ("key", .str (key ++ hosted ("hashFiles('**/" ++ t.lockFile ++ "')"))),
     ("restore-keys", .str key)]]

def setupSteps (t : Toolchain) (nodeVersion : String) (caching : Bool) : List Step :=
  Step.action "🏗 Checkout repository" checkoutAction []
    :: t.setupManager
    ++ Step.action "🏗 Setup Node.js" setupNodeAction
        [("node-version", .str nodeVersion), ("cache", .str t.name)]
    :: (if caching then t.cacheSteps else [])

/-- Installs the dependencies, then runs further lines. -/
def installStep (t : Toolchain) (further : List String) : Step :=
  Step.shell "📦 Install dependencies" (script (t.install :: further))

end Toolchain

/-! ## Checks and suites -/

/-- The step of a static check. -/
def TestKind.step (t : Toolchain) : TestKind → Step
  | .typescript => Step.shell "🧪 Run TypeScript check" t.typecheck
  | .eslint => Step.shell "🧹 Run ESLint" t.lint
  | .prettier => Step.shell "🎨 Run Prettier check" t.formatCheck

inductive Suite where
  | jest
  | rntl
  | hooks
  deriving DecidableEq, Repr

namespace Suite

def all : List Suite := [.jest, .rntl, .hooks]

def selected (o : Options) : Suite → Bool
  | .jest => o.jestTests
  | .rntl => o.rntlTests
  | .hooks => o.renderHookTests

def step (t : Toolchain) : Suite → Step
  | .jest => Step.shell "Run Jest Tests" t.test
  | .rntl => Step.shell "Run React Native Testing Library Tests" t.testRntl
  | .hooks => Step.shell "Run renderHook Tests" t.testHooks

end Suite

namespace Config

/-- The selected static checks, then the selected suites. -/
def checkSteps (c : Config) : List Step :=
  let t := c.packageManager.tools
  (Choice.members.filter fun k => c.tests.contains k).map (TestKind.step t)
    ++ (Suite.all.filter (Suite.selected c.options)).map (Suite.step t)

/-- The steps of the test job; none without test work. -/
def testSteps (c : Config) : List Step :=
  if c.hasTestWork then
    let t := c.packageManager.tools
    t.setupSteps c.nodeVersion c.options.caching ++ t.installStep [] :: c.checkSteps
  else []

end Config

end AppPipeline
