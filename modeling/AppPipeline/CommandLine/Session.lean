import AppPipeline.App.Probe
import AppPipeline.CommandLine.Request
import AppPipeline.Command.Signature
import AppPipeline.Matrix.Store
import AppPipeline.Validation.Text
import AppPipeline.Yaml.Writer

/-!
# Sessions

A session is all that a request does: what it prints, the status it ends with,
the processes it starts and the files it leaves. A fault that no message
covers escapes; the status is then one. In debug mode a fault that is shown
is shown with the calls that led to it, whose listing is `calls`.

* `generate`, `validate`, `extract`, `matrix`: work on files;
* `runEntry`, `runApp`: run commands against a script of outcomes;
* `perform`: does an action.
-/

namespace AppPipeline.CommandLine

open Files

/-- The faults that no message covers. -/
inductive Escape where
  | file (fault : FileFault)
  | unread (fault : Json.ReadFault)
  /-- the package of an app is of the wrong kind -/
  | wrongKind
  | text (fault : Validation.TextFault)
  | unprintable (fault : Text.HalfFault)

structure Session where
  exitCode : Nat
  transcript : Transcript
  calls : List Run.Call := []
  escape : Option Escape := none
  tree : FileTree

namespace Session

def done (t : FileTree) (printed : Transcript) : Session :=
  { exitCode := 0, transcript := printed, tree := t }

def failed (t : FileTree) (printed : Transcript) : Session :=
  { exitCode := 1, transcript := printed, tree := t }

def escaped (t : FileTree) (e : Escape) : Session :=
  { exitCode := 1, transcript := [], escape := some e, tree := t }

/-! ## Configurations -/

inductive ConfigFault where
  | missing
  | file (fault : FileFault)
  | unread (fault : Json.ReadFault)
  | refused (faults : List Fault)

/-- Reads the configuration in a file. -/
def readConfig (t : FileTree) (path : String) : Except ConfigFault Config :=
  let p := Path.ofText path
  if t.holds p then
    match t.read p with
    | .error f => .error (.file f)
    | .ok text =>
      match Json.parse text with
      | .error f => .error (.unread f)
      | .ok j =>
        match (Config.read j).toExcept with
        | .ok c => .ok c
        | .error faults => .error (.refused faults)
  else .error .missing

def faultLine (f : Fault) : String := f.location ++ ": " ++ f.cause.message

def configFailed (t : FileTree) (path : String) : ConfigFault → Session
  | .missing =>
    failed t
      (Console.error "Config file not found" ("Could not find configuration file: " ++ path) []
        ("Pass a JSON file with packageManager, tests, buildTypes, ...:\n"
          ++ "  rnci generate config.json"))
  | .file f => escaped t (.file f)
  | .unread (.malformed f) =>
    failed t
      (Console.error "Invalid config file" (path ++ " is not valid JSON") [f.message] "")
  | .unread f => escaped t (.unread f)
  | .refused faults =>
    failed t
      (Console.error "Invalid configuration" (Failure.invalidConfig faults).report.message
        (faults.map faultLine) "")

/-! ## Workflows -/

def generate (t : FileTree) (debug : Bool) (calls config output : String) : Session :=
  match readConfig t config with
  | .error f => configFailed t config f
  | .ok c =>
    match c.compile.accept with
    | .error f => failed t (Console.exception debug calls f.raised)
    | .ok d =>
      let text := Yaml.write d.toJson
      if output = "" then done t [⟨.out, text⟩]
      else
        let p := Path.ofText output
        match t.save p text with
        | .error f => failed t (Console.exception debug calls f.raised)
        | .ok t' =>
          let note := Console.info ("Wrote " ++ p.text)
          match note.printable.2 with
          | some f => failed t' (Console.exception debug calls f.raised)
          | none => done t' note

def validate (t : FileTree) (workflow : String) : Session :=
  if t.holds (Path.ofText workflow) then
    match t.readAt workflow with
    | .error f => escaped t (.file f)
    | .ok text =>
      match Validation.fileProblems text with
      | .error f => escaped t (.text f)
      | .ok problems =>
        if problems.isEmpty then done t (Console.info ("OK: " ++ workflow))
        else failed t (Console.problems workflow problems)
  else
    failed t
      (Console.error "Workflow file not found" ("Could not find workflow file: " ++ workflow) [] "")

def extract (t : FileTree) (config : String) (includeBuildJob showAll : Bool) : Session :=
  match readConfig t config with
  | .error f => configFailed t config f
  | .ok c =>
    let commands := if includeBuildJob then c.commands showAll showAll else c.testCommands
    done t
      (Console.header "Commands" ++ Console.commands commands ++ Console.header "Signature"
        ++ Console.info (if c.signature = "" then "(empty)" else c.signature))

def matrix (t : FileTree) (debug : Bool) (calls : String) (mode : Matrix.Mode) (folder : String) :
    Session :=
  let p := (Path.ofText folder).child (Matrix.filename (Choice.name mode))
  match Matrix.save t mode.entries p with
  | .error f => failed t (Console.exception debug calls f.raised)
  | .ok t' =>
    done t'
      (Console.info
        ("Generated " ++ toString mode.entries.length ++ " " ++ Choice.name mode ++ " entries -> "
          ++ p.text))

/-! ## Printing -/

/-- The session as it is seen: a text that cannot be printed ends it. -/
def printed (s : Session) : Session :=
  match s.transcript.printable with
  | (before, some f) =>
    { s with
      exitCode := 1
      transcript := before.map Printed.escaped
      escape := some (.unprintable f) }
  | (_, none) => { s with transcript := s.transcript.map Printed.escaped }

/-- A process whose output has to be shown, but cannot be printed, stops a run. -/
def shownOutcome (s : Run.Settings) (o : Run.Outcome) : Run.Outcome :=
  match o.ending.read s.timeout, o.milliseconds with
  | .ok (_, stdout, _), .ok _ =>
    match Text.halfFault? (Text.stripEnd (Run.kept stdout)) with
    | some f => if s.verbose then { o with ending := .raised f.raised } else o
    | none => o
  | _, _ => o

/-! ## Runs -/

/-- Runs commands in a folder after something was printed. -/
def runCommands (t : FileTree) (debug : Bool) (calls : String) (folder : Path) (s : Run.Settings)
    (commands : List Command) (outcomes : List Run.Outcome) (start : Transcript) : Session :=
  if start.printable.2.isSome then failed t start
  else
    match Run.runIn t folder s commands (outcomes.map (shownOutcome s)) with
    | .error f => failed t (start ++ Console.exception debug calls f.raised)
    | .ok log =>
      let before := start ++ log.transcript
      match log.stop with
      | some stop =>
        match stop.raised? with
        | some fault =>
          { exitCode := 1, transcript := before ++ Console.exception debug calls fault
            calls := log.calls, tree := t }
        | none =>
          { exitCode := 130, transcript := before ++ Console.info "\nInterrupted by user"
            calls := log.calls, tree := t }
      | none =>
        { exitCode := if Run.allPassed log.results then 0 else 1
          transcript := before ++ Console.results log.results
          calls := log.calls, tree := t }

/-- The commands of an entry that a run is asked for. -/
def entryCommands (r : EntryRun) (e : Matrix.Entry) : List Command :=
  if r.includeBuildJob then e.config.commands false (!r.settings.skipBuild)
  else e.config.testCommands

def loadFailed (t : FileTree) (path : String) : Matrix.LoadFault → Session
  | .missing p => escaped t (.file ⟨.absent, p.text⟩)
  | .file f => escaped t (.file f)
  | .unread (.malformed f) =>
    failed t (Console.error "Invalid matrix file" ("Could not read " ++ path) [f.message] "")
  | .unread f => escaped t (.unread f)
  | .refused f =>
    match f with
    | .emptyMatrix .. => indexFailed f
    | .outOfRange .. => indexFailed f
    | _ =>
      failed t
        (Console.error "Invalid matrix file" ("Could not read " ++ path) [f.report.text] "")
where
  indexFailed (f : Failure) : Session :=
    failed t (Console.error "Invalid config index" f.report.message ["matrix: " ++ path] "")

def entryStarted (debug : Bool) (r : EntryRun) (e : Matrix.Entry) (commands : List Command) :
    Transcript :=
  Console.runStarted e.name r.index e.fixture (Choice.name e.config.packageManager)
      commands.length
    ++ Console.debug debug ("config: " ++ Json.compactText e.config.toJson)

def runEntry (t : FileTree) (outcomes : List Run.Outcome) (debug : Bool) (calls : String)
    (r : EntryRun) : Session :=
  if !t.holds (Path.ofText r.matrixFile) then
    failed t
      (Console.error "Matrix file not found" ("Could not find matrix file: " ++ r.matrixFile) []
        "Generate one first:\n  rnci matrix --mode curated")
  else if !t.holdsFolder (Path.ofText r.fixture) then
    failed t
      (Console.error "Fixture directory not found"
        ("Could not find fixture directory: " ++ r.fixture) [] "")
  else
    match Matrix.loadEntry t r.matrixFile r.index with
    | .error f => loadFailed t r.matrixFile f
    | .ok e =>
      let commands := entryCommands r e
      runCommands t debug calls (Path.ofText r.fixture) r.settings commands outcomes
        (entryStarted debug r e commands)

def packageFailed (t : FileTree) : App.PackageFault → Session
  | .file f => escaped t (.file f)
  | .unread f => escaped t (.unread f)
  | .wrongKind => escaped t .wrongKind

/-- The name of the folder that a path leads to. -/
def folderName (t : FileTree) (p : Path) : String :=
  ((p.place.path t.working).names.getLast?).getD ""

def runApp (t : FileTree) (outcomes : List Run.Outcome) (debug : Bool) (calls : String)
    (r : AppRun) : Session :=
  let app := Path.ofText r.app
  if !t.holds (App.packageFile app) then
    failed t (Console.error "Not an app directory" ("No package.json in " ++ r.app) [] "")
  else
    match App.scripts t app with
    | .error f => packageFailed t f
    | .ok scripts =>
      let typed := App.isTyped t app
      let config := App.configFor scripts (App.manager t app) typed
      let commands := App.available scripts typed config.testCommands
      runCommands t debug calls app r.settings commands outcomes
        (Console.header (folderName t app ++ " (" ++ Choice.name config.packageManager ++ ")")
          ++ Console.commands commands)

/-! ## Actions -/

/-- Does an action, whatever it prints. -/
def act (t : FileTree) (outcomes : List Run.Outcome) (debug : Bool) (calls : String) :
    Action → Session
  | .generate config output => generate t debug calls config output
  | .validate workflow => validate t workflow
  | .extract config includeBuildJob showAll => extract t config includeBuildJob showAll
  | .matrix mode folder => matrix t debug calls mode folder
  | .runEntry r => runEntry t outcomes debug calls r
  | .runApp r => runApp t outcomes debug calls r

def perform (t : FileTree) (outcomes : List Run.Outcome) (debug : Bool) (calls : String)
    (action : Action) : Session :=
  (act t outcomes debug calls action).printed

end Session

end AppPipeline.CommandLine
