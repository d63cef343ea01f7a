import AppPipeline.Raised
import AppPipeline.Run.Result
import AppPipeline.Text.Blank
import AppPipeline.Text.Half
import AppPipeline.Text.Lines

/-!
# What is printed

Every text goes to the output or to the error stream; a `Transcript` lists the
texts in the order in which they are printed.
-/

namespace AppPipeline

inductive Stream where
  | out
  | err
  deriving DecidableEq, Repr

structure Printed where
  stream : Stream
  text : String
  deriving DecidableEq, Repr

abbrev Transcript := List Printed

/-- All that went to a stream. -/
def Transcript.text (s : Stream) (t : Transcript) : String :=
  String.join ((t.filter fun p => p.stream = s).map Printed.text)

/-- What is printed before the first text of the output that holds half of a pair, which cannot
be printed there, and the fault of that text. -/
def Transcript.printable : Transcript → Transcript × Option Text.HalfFault
  | [] => ([], none)
  | p :: rest =>
    match if p.stream = .out then Text.halfFault? p.text else none with
    | some f => ([], some f)
    | none =>
      let (printed, fault) := Transcript.printable rest
      (p :: printed, fault)

/-- The error stream takes an escape for every half. -/
def Printed.escaped (p : Printed) : Printed :=
  match p.stream with
  | .out => p
  | .err => { p with text := Text.withoutHalves p.text }

namespace Console

open Run (Result Status)

/-- A line of the output. -/
def out (s : String) : Printed := ⟨.out, s ++ "\n"⟩

/-- A line of the error stream. -/
def err (s : String) : Printed := ⟨.err, s ++ "\n"⟩

/-- A character so many times. -/
def rule (c : Char) (n : Nat) : String := String.ofList (List.replicate n c)

def header (title : String) : Transcript := [out ("\n" ++ title), out (rule '-' (Text.size title))]

def info (message : String) : Transcript := [out message]

def debug (on : Bool) (message : String) : Transcript :=
  if on then [err ("[DEBUG] " ++ message)] else []

/-- A fault, on request after the calls that led to it. -/
def exception (debug : Bool) (calls : String) (fault : Raised) : Transcript :=
  if debug then [⟨.err, fault.trace calls⟩] else [err ("Error: " ++ fault.message)]

def error (title message : String) (details : List String) (suggestion : String) : Transcript :=
  [err ("\nERROR: " ++ title), err message] ++ details.map (fun d => err ("  " ++ d))
    ++ (if suggestion = "" then [] else [err ("\n" ++ suggestion)])

def problems (source : String) (texts : List String) : Transcript :=
  err ("\nINVALID: " ++ source) :: texts.map fun p => err ("  - " ++ p)

/-! ## Commands -/

def runStarted (entry : String) (index : Int) (fixture manager : String) (count : Int) :
    Transcript :=
  [out "\nRUN STARTED",
   out ("Entry: " ++ entry ++ " (#" ++ toString index ++ ")"),
   out ("Fixture: " ++ fixture),
   out ("Package manager: " ++ manager),
   out ("Commands: " ++ toString count),
   out ""]

/-- The first line that is not blank. -/
def firstLine (text : String) : String := (Text.lines (Text.strip text)).headD ""

def commandLine (c : Command) : String :=
  "  [" ++ c.category ++ "] " ++ c.stepName ++ ": " ++ firstLine c.text
    ++ (if c.hosted then " [expr]" else "")

def commands (cs : List Command) : Transcript := cs.map fun c => out (commandLine c)

def stepLine (name : String) : Printed := out ("STEP: " ++ name)

def commandStart (name text : String) (verbose : Bool) : Transcript :=
  stepLine name ::
    (if verbose then (Text.lines (Text.strip text)).map fun l => out ("  $ " ++ l) else [])

def commandSkipped (name reason : String) : Transcript :=
  [stepLine name, out ("STATUS: skipped (" ++ reason ++ ")")]

def commandOutput (stdout stderr : String) : Transcript :=
  (if Text.hasInk stdout then [out (Text.stripEnd stdout)] else [])
    ++ (if Text.hasInk stderr then [err (Text.stripEnd stderr)] else [])

/-! ## Results -/

/-- The column under which details of a result stand. -/
def detail (s : String) : Printed := out ("        " ++ s)

def exitCodeText : Option Int → String
  | some n => toString n
  | none => "None"

def resultLine (r : Result) : String :=
  "  " ++ r.status.name ++ "  [" ++ r.category ++ "] " ++ r.stepName
    ++ (if r.skipped then "" else " (" ++ toString r.durationMs ++ "ms)")

def resultDetails (r : Result) : Transcript :=
  match r.status with
  | .skip => if r.skipReason.getD "" = "" then [] else [detail (r.skipReason.getD "")]
  | .fail =>
    detail ("exit code: " ++ exitCodeText r.exitCode)
      :: ((Text.lines (Text.strip r.stderr)).take 5).map detail
  | .pass => []

def summaryLine (s : Run.Summary) : String :=
  "  " ++ toString s.passed ++ " passed, " ++ toString s.failed ++ " failed, "
    ++ toString s.skipped ++ " skipped"

def results (rs : List Result) : Transcript :=
  [out ("\n" ++ rule '=' 40), out "RESULTS", out (rule '=' 40)]
    ++ rs.flatMap (fun r => out (resultLine r) :: resultDetails r)
    ++ [out (rule '-' 40), out (summaryLine (Run.summary rs))]

end Console

end AppPipeline
