import AppPipeline.CommandLine.Arguments
import AppPipeline.Matrix.Generation
import AppPipeline.Number.Literal
import AppPipeline.Run.Harness

/-!
# Requests

An `Action` is one of the six commands with its options read and checked. A
few options are taken from variables of the environment when they are not
given. `Request.ofArgs` reads a command line.
-/

namespace AppPipeline.CommandLine

/-! ## Actions -/

/-- Runs the commands of a matrix entry on a fixture app. -/
structure EntryRun where
  matrixFile : String
  index : Int
  fixture : String
  includeBuildJob : Bool
  settings : Run.Settings
  deriving DecidableEq, Repr

/-- Runs the commands that an app supports. -/
structure AppRun where
  app : String
  settings : Run.Settings
  deriving DecidableEq, Repr

inductive Action where
  /-- compiles a configuration, to a file if one is named -/
  | generate (config output : String)
  | validate (workflow : String)
  | extract (config : String) (includeBuildJob showAll : Bool)
  | matrix (mode : Matrix.Mode) (folder : String)
  | runEntry (r : EntryRun)
  | runApp (r : AppRun)
  deriving DecidableEq, Repr

inductive Request where
  | help
  | act (debug : Bool) (action : Action)
  deriving DecidableEq, Repr

/-! ## Options -/

/-- The variables of the environment. -/
abbrev Environment := List (String × String)

def switchOn (name key : String) : OptionName := ⟨name, key, .switch true⟩

def valued (name key : String) : OptionName := ⟨name, key, .value⟩

def helpOption : OptionName := switchOn "--help" "help"

def debugOption : OptionName := switchOn "--debug" "debug"

def runOptions : List OptionName :=
  [switchOn "--continue-on-error" "continue", switchOn "--verbose" "verbose",
   valued "--timeout" "timeout"]

/-- The value of an option, or else of a variable that is not empty. -/
def valueOr? (p : Parsed) (env : Environment) (key name : String) : Option String :=
  match p.value? key with
  | some text => some text
  | none => (env.lookup name).filter (· != "")

def timeoutOf (p : Parsed) (env : Environment) : Except UsageFault Double :=
  match valueOr? p env "timeout" "RNCI_COMMAND_TIMEOUT" with
  | none => .ok (Double.ofInt 120)
  | some text =>
    match Literal.decimal text.toList with
    | .ok x => .ok x
    | .error _ => .error (.badValue "--timeout" text)

def settingsOf (p : Parsed) (env : Environment) : Except UsageFault Run.Settings := do
  return { continueOnError := p.isOn "continue" false
           timeout := some (← timeoutOf p env)
           skipBuild := p.isOn "skip" true
           verbose := p.isOn "verbose" false }

def required (p : Parsed) (key : String) : Except UsageFault String :=
  match p.value? key with
  | some text => .ok text
  | none => .error (.missingOption ("--" ++ key))

/-- The only word. -/
def oneWord (name : String) (p : Parsed) : Except UsageFault String :=
  match p.words with
  | [] => .error (.missingWord name)
  | [w] => .ok w
  | _ :: w :: _ => .error (.extraWord w)

def noWord (p : Parsed) : Except UsageFault Unit :=
  match p.words with
  | [] => .ok ()
  | w :: _ => .error (.extraWord w)

/-! ## Commands -/

/-- A command: its options and how an action is read from them. -/
structure CommandForm where
  options : List OptionName
  read : Environment → Parsed → Except UsageFault Action

def generateForm : CommandForm where
  options := [valued "--output" "output", valued "-o" "output"]
  read _ p := do return .generate (← oneWord "CONFIG_FILE" p) ((p.value? "output").getD "")

def validateForm : CommandForm where
  options := []
  read _ p := do return .validate (← oneWord "WORKFLOW_FILE" p)

def extractForm : CommandForm where
  options := [switchOn "--include-build-job" "build", switchOn "--all" "all"]
  read _ p := do
    return .extract (← oneWord "CONFIG_FILE" p) (p.isOn "build" false) (p.isOn "all" false)

def modeOf (p : Parsed) : Except UsageFault Matrix.Mode :=
  match p.value? "mode" with
  | none => .ok .curated
  | some text =>
    match (Choice.find? text : Option Matrix.Mode) with
    | some mode => .ok mode
    | none => .error (.badValue "--mode" text)

def matrixForm : CommandForm where
  options := [valued "--mode" "mode", valued "--output-dir" "folder"]
  read env p := do
    noWord p
    return .matrix (← modeOf p) ((valueOr? p env "folder" "RNCI_MATRIX_DIR").getD "configs")

def indexOf (p : Parsed) : Except UsageFault Int := do
  let text ← required p "config-index"
  match Literal.integer 10 text.toList with
  | .ok n => return n
  | .error _ => throw (.badValue "--config-index" text)

def runEntryForm : CommandForm where
  options :=
    [valued "--matrix-file" "matrix-file", valued "--config-index" "config-index",
     valued "--fixture-dir" "fixture-dir", switchOn "--skip-build" "skip",
     ⟨"--no-skip-build", "skip", .switch false⟩, switchOn "--include-build-job" "build"]
      ++ runOptions
  read env p := do
    noWord p
    return .runEntry
      { matrixFile := ← required p "matrix-file"
        index := ← indexOf p
        fixture := ← required p "fixture-dir"
        includeBuildJob := p.isOn "build" false
        settings := ← settingsOf p env }

def runAppForm : CommandForm where
  options := runOptions
  read env p := do
    return .runApp { app := ← oneWord "APP_DIR" p, settings := ← settingsOf p env }

def forms : List (String × CommandForm) :=
  [("generate", generateForm), ("validate", validateForm), ("extract", extractForm),
   ("matrix", matrixForm), ("run-single", runEntryForm), ("run-app", runAppForm)]

/-- The names of all commands, a line each. -/
def helpText : String :=
  "Usage: rnci [--debug] COMMAND [ARGS]...\n\nCommands:\n"
    ++ String.join (forms.map fun f => "  " ++ f.1 ++ "\n")

/-! ## Command lines -/

/-- Reads the arguments of a named command. -/
def ofCommand (debug : Bool) (env : Environment) (name : String) (args : List String) :
    Except UsageFault Request :=
  match forms.lookup name with
  | none => .error (.unknownCommand name)
  | some form => do
    let p ← parse (helpOption :: form.options) true args
    if p.isOn "help" false then return .help
    return .act debug (← form.read env p)

def Request.ofArgs (env : Environment) (args : List String) : Except UsageFault Request := do
  let p ← parse [helpOption, debugOption] false args
  if p.isOn "help" false then return .help
  match p.words with
  | [] => throw .noCommand
  | name :: rest => ofCommand (p.isOn "debug" false) env name rest

end AppPipeline.CommandLine
