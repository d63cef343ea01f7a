import AppPipeline.Command.Basic
import AppPipeline.Files.Tree
import AppPipeline.Json.Reader

/-!
# What an app offers

* `scripts`, `manager`, `isTyped`: what the folder of an app shows, from its
  package file, its lock files and its compiler settings;
* `configFor`: the configuration that needs nothing else;
* `available`: the commands that the app can run.
-/

namespace AppPipeline.App

open Files

/-! ## The folder of an app -/

inductive PackageFault where
  | file (fault : FileFault)
  | unread (fault : Json.ReadFault)
  /-- the package, or its scripts, are no object -/
  | wrongKind

def packageFile (app : Path) : Path := app.child "package.json"

/-- The names of the scripts of a package. -/
def scriptNames (package : Json) : Except PackageFault (List String) :=
  match package with
  | .object fields =>
    match (fields.lookup "scripts").getD .null with
    | .object scripts => .ok (scripts.map Prod.fst)
    | scripts => if scripts.isVoid then .ok [] else .error .wrongKind
  | _ => .error .wrongKind

/-- The names of the scripts of an app; none without a package file. -/
def scripts (t : FileTree) (app : Path) : Except PackageFault (List String) :=
  if t.holds (packageFile app) then
    match t.read (packageFile app) with
    | .error f => .error (.file f)
    | .ok text =>
      match Json.parse text with
      | .error f => .error (.unread f)
      | .ok package => scriptNames package
  else .ok []

/-- The lock files, the strongest sign first. -/
def lockFiles : List (String × PackageManager) :=
  [("pnpm-lock.yaml", .pnpm), ("package-lock.json", .npm), ("yarn.lock", .yarn)]

/-- The package manager whose lock file is there. -/
def manager (t : FileTree) (app : Path) : PackageManager :=
  ((lockFiles.find? fun f => t.holds (app.child f.1)).map Prod.snd).getD .yarn

/-- The app has settings of the type checker. -/
def isTyped (t : FileTree) (app : Path) : Bool := t.holds (app.child "tsconfig.json")

/-! ## Configurations -/

/-- The script that a static check or a suite runs. -/
def scriptOf : Category → Option String
  | .lint => some "lint"
  | .format => some "format:check"
  | .jest => some "test"
  | .rntl => some "test:rntl"
  | .hooks => some "test:hooks"
  | _ => none

/-- The script of a category is there, or it needs none. -/
def hasScriptOf (scripts : List String) (c : Category) : Bool :=
  match scriptOf c with
  | some s => scripts.contains s
  | none => true

/-- Which category of commands runs a static check. -/
def checkCategory : TestKind → Category
  | .typescript => .typecheck
  | .eslint => .lint
  | .prettier => .format

/-- The app can run commands of the category. -/
def offers (scripts : List String) (typed : Bool) (c : Category) : Bool :=
  if c = .typecheck then typed else hasScriptOf scripts c

/-- The configuration that tests all that the scripts and the settings allow. -/
def configFor (scripts : List String) (manager : PackageManager) (typed : Bool) : Config :=
  { packageManager := manager
    storage := .githubRelease
    buildTypes := [.dev]
    tests := (Choice.members : List TestKind).filter fun k =>
      offers scripts typed (checkCategory k)
    triggers := [.pushMain]
    options :=
      { jestTests := hasScriptOf scripts .jest
        rntlTests := hasScriptOf scripts .rntl
        renderHookTests := hasScriptOf scripts .hooks
        caching := true } }

def config (t : FileTree) (app : Path) : Except PackageFault Config :=
  (scripts t app).map fun names => configFor names (manager t app) (isTyped t app)

/-! ## Commands -/

/-- The commands that an app with these scripts can run. -/
def available (scripts : List String) (typed : Bool) (commands : List Command) : List Command :=
  commands.filter fun c =>
    match Category.named? c.category with
    | some category => offers scripts typed category
    | none => true

end AppPipeline.App
