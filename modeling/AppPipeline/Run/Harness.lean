import AppPipeline.Console
import AppPipeline.Files.Tree
import AppPipeline.Number.Decimal
import AppPipeline.Run.Outcome

/-!
# Running commands

Commands are run one after another. Some are skipped; each of the others
starts a process and uses one outcome of the script. A run ends after the last
command, after a failure unless failures are passed over, or when a process
cannot be run, is interrupted, or leaves a number that cannot be given.

* `Log`: the results, the processes that were started, what was printed, and
  what stopped the run, if anything did;
* `run`: the log of a run;
* `runIn`: the same, in a folder that has to exist.
-/

namespace AppPipeline.Run

open Files

/-! ## Settings -/

structure Settings where
  continueOnError : Bool := false
  /-- seconds that a process may take; none if they are past the greatest binary number -/
  timeout : Option Double := some (Double.ofInt 120)
  skipBuild : Bool := true
  verbose : Bool := false
  deriving DecidableEq, Repr

inductive SkipReason where
  | build
  | hosted
  deriving DecidableEq, Repr

def SkipReason.text : SkipReason → String
  | .build => "build commands skipped (--skip-build)"
  | .hosted => "contains GitHub Actions expressions"

/-- Why a command is not run here, if it is not. -/
def skipReason? (skipBuild : Bool) (c : Command) : Option SkipReason :=
  if skipBuild && c.category == Category.build.name then some .build
  else if c.hosted then some .hosted
  else none

def skippedResult (c : Command) (reason : SkipReason) : Result :=
  { stepName := c.stepName
    command := c.text
    category := c.category
    exitCode := none
    skipped := true
    skipReason := some reason.text }

/-! ## Processes -/

/-- A process that was started. -/
structure Call where
  text : String
  deriving DecidableEq, Repr

/-- A text of several lines needs a shell that runs scripts. -/
def Call.isScript (c : Call) : Bool := c.text.toList.contains '\n'

/-- The words by which a script is started. -/
def Call.scriptWords (c : Call) : List String := ["bash", "-c", c.text]

def Call.ofCommand (c : Command) : Call := ⟨Text.strip c.text⟩

/-- Variables that every process sees. -/
def «variables» : List (String × String) := [("CI", "true")]

/-- Variables that name a file of the run, which is there and empty at its start. -/
def fileVariables : List String := ["GITHUB_OUTPUT", "GITHUB_ENV", "GITHUB_STEP_SUMMARY"]

/-- The name of the file of a variable. -/
def fileName (name : String) : String := Text.lowerAscii name

/-! ## Results of processes -/

def timeoutExitCode : Int := 124

/-- How many codes of a stream are kept, from its end. -/
def keptLength : Nat := 4000

def kept (s : String) : String :=
  Text.ofCodes ((Text.codes s.toList).drop (Text.size s - keptLength))

def timeoutNote (timeout : Double) : String :=
  "\ncommand timed out after " ++ timeout.generalText ++ "s"

inductive Stop where
  | raised (fault : Raised)
  | interrupted
  /-- a number of the result cannot be given -/
  | unmeasured (fault : MeasureFault)
  deriving DecidableEq, Repr

/-- The fault that stops a run; a user who interrupts it is none. -/
def Stop.raised? : Stop → Option Raised
  | .raised fault => some fault
  | .interrupted => none
  | .unmeasured fault => some fault.raised

theorem Stop.raised?_eq_none_iff (stop : Stop) : stop.raised? = none ↔ stop = .interrupted := by
  cases stop <;> simp [raised?]

/-- The exit code and the two streams that a process left, or what stopped it. -/
def Ending.read (timeout : Option Double) : Ending → Except Stop (Int × String × String)
  | .finished code stdout stderr => .ok (code, stdout, stderr)
  | .timedOut stdout stderr =>
    match timeout with
    | some limit => .ok (timeoutExitCode, stdout.toText, stderr.toText ++ timeoutNote limit)
    | none => .error (.unmeasured .tooLarge)
  | .raised fault => .error (.raised fault)
  | .interrupted => .error .interrupted

/-- The result of a command that was started. -/
def startedResult (timeout : Option Double) (c : Command) (o : Outcome) : Except Stop Result :=
  match o.ending.read timeout, o.milliseconds with
  | .error stop, _ => .error stop
  | .ok _, .error fault => .error (.unmeasured fault)
  | .ok (code, stdout, stderr), .ok milliseconds =>
    .ok
      { stepName := c.stepName
        command := c.text
        category := c.category
        exitCode := some code
        stdout := kept stdout
        stderr := kept stderr
        durationMs := milliseconds }

/-! ## Runs -/

structure Log where
  results : List Result := []
  calls : List Call := []
  transcript : Transcript := []
  stop : Option Stop := none
  deriving DecidableEq, Repr

/-- The log with the part of one more command in front. -/
def Log.after (l : Log) (result : Result) (calls : List Call) (printed : Transcript) : Log :=
  { l with
    results := result :: l.results
    calls := calls ++ l.calls
    transcript := printed ++ l.transcript }

/-- Runs the commands; where the script of outcomes ends, processes end well. -/
def run (s : Settings) : List Command → List Outcome → Log
  | [], _ => {}
  | c :: cs, outcomes =>
    match skipReason? s.skipBuild c with
    | some reason =>
      (run s cs outcomes).after (skippedResult c reason) []
        (Console.commandSkipped c.stepName reason.text)
    | none =>
      let start := Console.commandStart c.stepName c.text s.verbose
      match startedResult s.timeout c (outcomes.headD {}) with
      | .error stop => { calls := [Call.ofCommand c], transcript := start, stop := some stop }
      | .ok r =>
        let output := if s.verbose then Console.commandOutput r.stdout r.stderr else []
        let rest := if r.passed || s.continueOnError then run s cs outcomes.tail else {}
        rest.after r [Call.ofCommand c] (start ++ output)

/-! ## Folders -/

/-- The folder of a run does not exist. -/
structure NoFixture where
  path : Path
  deriving DecidableEq, Repr

def NoFixture.message (f : NoFixture) : String := "Fixture directory not found: " ++ f.path.text

def NoFixture.raised (f : NoFixture) : Raised := ⟨"FileNotFoundError", f.message⟩

/-- Runs the commands in a folder. -/
def runIn (t : FileTree) (folder : Path) (s : Settings) (commands : List Command)
    (outcomes : List Outcome) : Except NoFixture Log :=
  if t.isFolder folder.place then .ok (run s commands outcomes)
  else .error ⟨folder.place.path t.working⟩

end AppPipeline.Run
