import AppPipeline.Command.Signature
import AppPipeline.Matrix.Entry
import AppPipeline.Matrix.Enumeration

/-!
# Generated matrices

* `curated`: hand-picked scenarios for every package manager, and some for one;
* `exhaustive`: every choice of package manager, static checks, suites and
  caching, with one entry for every signature, the first that has it;
* `fixedProfile`: every package manager with every build profile.

`exhaustiveFor` and `fixedProfileFor` are the same for package managers that go
by other names in the entries.
-/

namespace AppPipeline.Matrix

/-- The configuration from which every generated entry starts. -/
def base : Config :=
  { packageManager := .yarn
    storage := .githubRelease
    buildTypes := [.dev]
    tests := []
    triggers := [.pushMain]
    options := { caching := true } }

/-- A package manager and the text that names it in entries. -/
structure Labelled where
  label : String
  manager : PackageManager
  deriving DecidableEq, Repr

/-- A package manager under its own name. -/
def Labelled.own (manager : PackageManager) : Labelled := ⟨Choice.name manager, manager⟩

/-- The base configuration with fields and then options replaced, where there are any. -/
def baseWith (options overrides : List (String × Json)) : Reading Config :=
  let first := if overrides.isEmpty then Reading.pure base else base.updated overrides
  if first.faults.isEmpty && !options.isEmpty then first.value.withOptions options else first

/-! ## Curated -/

/-- A scenario: the end of its name, its static checks and its options. -/
structure Scenario where
  label : String
  tests : List TestKind
  options : Options
  deriving DecidableEq, Repr

namespace Scenario

def config (s : Scenario) (manager : PackageManager) : Config :=
  { base with packageManager := manager, tests := s.tests, options := s.options }

def entry (s : Scenario) (manager : PackageManager) : Entry :=
  Entry.make (Choice.name manager ++ "-" ++ s.label) (s.config manager)

end Scenario

def allSuites : Options := { jestTests := true, rntlTests := true, renderHookTests := true }

/-- Scenarios for every package manager. -/
def scenarios : List Scenario :=
  [⟨"no-tests", [], {}⟩,
   ⟨"typescript-only", [.typescript], {}⟩,
   ⟨"all-static", [.typescript, .eslint, .prettier], {}⟩,
   ⟨"jest-only", [], { jestTests := true }⟩,
   ⟨"all-tests", [.typescript, .eslint, .prettier], allSuites⟩]

/-- Scenarios for a single package manager. -/
def extraScenarios : List (PackageManager × Scenario) :=
  let noCaching : Scenario :=
    ⟨"no-caching", [.typescript, .eslint], { jestTests := true, caching := false }⟩
  [(.npm, noCaching),
   (.yarn, noCaching),
   (.npm, ⟨"eslint-only", [.eslint], {}⟩),
   (.npm, ⟨"rntl-hooks", [], { rntlTests := true, renderHookTests := true }⟩),
   (.yarn, ⟨"prettier-only", [.prettier], {}⟩)]

def curated : List Entry :=
  scenarios.flatMap (fun s => [PackageManager.npm, .yarn, .pnpm].map s.entry)
    ++ extraScenarios.map fun e => e.2.entry e.1

/-! ## Exhaustive -/

def suiteLabel : Suite → String
  | .jest => "jest"
  | .rntl => "rntl"
  | .hooks => "hooks"

/-- The name of a point: its manager, what it tests, and whether it does without caching. -/
def pointName (manager : String) (tests : List String) (o : Options) : String :=
  let parts := tests ++ (Suite.all.filter (Suite.selected o)).map suiteLabel
  manager ++ "-" ++ (if parts.isEmpty then "no-tests" else String.intercalate "-" parts)
    ++ (if o.caching then "" else "-nocache")

/-- A static check or a suite is selected. -/
def testsSomething {α : Type} (tests : List α) (o : Options) : Bool :=
  !tests.isEmpty || Suite.all.any (Suite.selected o)

/-- Without test work caching changes nothing. -/
def cachingMatters {α : Type} (tests : List α) (o : Options) : Bool :=
  o.caching || testsSomething tests o

/-- The options of all points, in order. -/
def pointOptions : List Options :=
  [false, true].flatMap fun jest =>
    [false, true].flatMap fun rntl =>
      [false, true].flatMap fun hooks =>
        [true, false].map fun caching =>
          { jestTests := jest, rntlTests := rntl, renderHookTests := hooks, caching := caching }

/-- The entry of every point whose caching matters. -/
def candidates (managers : List Labelled) : List Entry :=
  managers.flatMap fun m =>
    (subsets (Choice.members : List TestKind)).flatMap fun tests =>
      (pointOptions.filter (cachingMatters tests)).map fun o =>
        Entry.make (pointName m.label (tests.map Choice.name) o)
          { base with packageManager := m.manager, tests := tests, options := o }

/-- The first entry of every signature. -/
def exhaustiveFor (managers : List Labelled) : List Entry :=
  firstSeen (fun e => e.config.signature) (candidates managers)

/-- One entry for every signature of these package managers. -/
def exhaustive (managers : List PackageManager) : List Entry :=
  exhaustiveFor (managers.map Labelled.own)

/-! ## Fixed profiles -/

/-- The build profiles and the build types that they stand for. -/
def profiles : List (String × BuildType) :=
  [("development", .dev), ("production-apk", .prodApk), ("production-aab", .prodAab)]

/-- Every package manager with every profile. -/
def fixedProfileFor (managers : List Labelled) : List Entry :=
  managers.flatMap fun m =>
    profiles.map fun p =>
      Entry.make (m.label ++ "-eas-" ++ p.1)
        { base with packageManager := m.manager, buildTypes := [p.2] }

def fixedProfile (managers : List PackageManager) : List Entry :=
  fixedProfileFor (managers.map Labelled.own)

/-! ## Modes -/

inductive Mode where
  | curated
  | exhaustive
  | fixedProfile
  deriving DecidableEq, Repr

instance : Choice Mode where
  members := [.curated, .exhaustive, .fixedProfile]
  name
    | .curated => "curated"
    | .exhaustive => "exhaustive"
    | .fixedProfile => "fixed-profile"

def Mode.entries : Mode → List Entry
  | .curated => Matrix.curated
  | .exhaustive => Matrix.exhaustive Choice.members
  | .fixedProfile => Matrix.fixedProfile Choice.members

/-- The matrix of the mode with a name. -/
def generate (mode : Json) : Except Failure (List Entry) :=
  match choiceOf? (α := Mode) mode with
  | some m => .ok m.entries
  | none => .error (.unknownMode mode)

/-- The package manager with a name; null names the default one. -/
def managerNamed : Json → Reading PackageManager
  | .null => .pure .yarn
  | j => (readChoice .yarn j).under "package_manager"

/-- The package managers with these names, each of which must be one. -/
def managersNamed : List Json → Reading (List Labelled)
  | [] => .pure []
  | j :: rest =>
    let first := managerNamed j
    if first.faults.isEmpty then
      let others := managersNamed rest
      { others with value := ⟨j.display, first.value⟩ :: others.value }
    else ⟨[], first.faults⟩

/-- The file of the matrix of a mode. -/
def filename (mode : String) : String := mode ++ "-matrix.json"

end AppPipeline.Matrix
