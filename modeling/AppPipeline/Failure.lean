import AppPipeline.Config.Fault
import AppPipeline.Value.Display

/-!
# Failures and their reports

`Failure` lists the causes for which the library refuses a request, apart
from broken texts and files. `Report` is what is shown of one: a kind and a
message, then a line for each detail and each problem.
-/

namespace AppPipeline

structure Report where
  kind : String
  message : String
  details : List (String × Json) := []
  problems : List String := []
  deriving Repr

namespace Report

def lines (r : Report) : List String :=
  (r.kind ++ ": " ++ r.message) :: r.details.map (fun d => d.1 ++ "=" ++ d.2.display)
    ++ r.problems.map ("  - " ++ ·)

def text (r : Report) : String := String.intercalate "\n" r.lines

/-- The report of a configuration that cannot be used, unless more is known. -/
def invalidConfig : Report := ⟨"invalid_config", "invalid configuration", [], []⟩

def invalidWorkflow : Report := ⟨"invalid_workflow", "workflow failed validation", [], []⟩

def indexOutOfRange : Report := ⟨"index_out_of_range", "config index out of range", [], []⟩

end Report

inductive Failure where
  | invalidConfig (faults : List Fault)
  | unsupportedPackageManager (name : Json)
  | unknownMode (mode : Json)
  | notAList (path : String)
  | emptyMatrix (index : Int) (path : String)
  | outOfRange (index : Int) (count : Nat) (path : String)
  | invalidWorkflow (problems : List String)

namespace Failure

/-- The names that are allowed, for a detail. -/
def allowedDetail (names : List String) : List (String × Json) :=
  [("allowed", .str (String.intercalate ", " names))]

def faultDetails (faults : List Fault) : List (String × Json) :=
  faults.map fun f => (f.location, .str f.cause.message)

def packageManagerNames : List String :=
  (Choice.members : List PackageManager).map Choice.name

/-- The names of the matrix modes. -/
def modeNames : List String := ["curated", "exhaustive", "fixed-profile"]

def report : Failure → Report
  | .invalidConfig faults =>
    { Report.invalidConfig with details := Json.collect (faultDetails faults) }
  | .unsupportedPackageManager name =>
    { Report.invalidConfig with
      message := "unsupported package manager: " ++ name.literal
      details := allowedDetail packageManagerNames }
  | .unknownMode mode =>
    { Report.invalidConfig with
      message := "unknown matrix mode: " ++ mode.literal
      details := allowedDetail modeNames }
  | .notAList path =>
    { Report.invalidConfig with
      message := "matrix file must hold a JSON list"
      details := [("path", .str path)] }
  | .emptyMatrix index path =>
    { Report.indexOutOfRange with
      message := "Config index " ++ toString index ++ " out of range: the matrix is empty"
      details := [("path", .str path)] }
  | .outOfRange index count path =>
    { Report.indexOutOfRange with
      message :=
        "Config index " ++ toString index ++ " out of range (0-" ++ toString (count - 1) ++ ")"
      details := [("path", .str path)] }
  | .invalidWorkflow problems =>
    { Report.invalidWorkflow with
      details := [("count", .int problems.length)]
      problems := problems }

end Failure

end AppPipeline
