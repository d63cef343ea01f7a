import AppPipeline.Command.Basic

/-!
# Results of commands

A command was skipped, passed or failed. `summary` counts the three; every
result has one status, so the counts add up (`summary_total`).
-/

namespace AppPipeline.Run

inductive Status where
  | pass
  | fail
  | skip
  deriving DecidableEq, Repr

def Status.name : Status → String
  | .pass => "PASS"
  | .fail => "FAIL"
  | .skip => "SKIP"

structure Result where
  stepName : String
  command : String
  category : String
  exitCode : Option Int
  stdout : String := ""
  stderr : String := ""
  durationMs : Int := 0
  skipped : Bool := false
  skipReason : Option String := none
  deriving DecidableEq, Repr

namespace Result

def passed (r : Result) : Bool := !r.skipped && r.exitCode == some 0

def status (r : Result) : Status :=
  if r.skipped then .skip else if r.exitCode = some 0 then .pass else .fail

theorem passed_iff_status (r : Result) : r.passed = true ↔ r.status = .pass := by
  cases h : r.skipped <;> by_cases he : r.exitCode = some 0 <;> simp [passed, status, h, he]

end Result

/-- Every command that was started passed. -/
def allPassed (results : List Result) : Bool := results.all fun r => r.skipped || r.passed

structure Summary where
  passed : Nat
  failed : Nat
  skipped : Nat
  deriving DecidableEq, Repr

def count (s : Status) (results : List Result) : Nat :=
  (results.filter fun r => r.status == s).length

def summary (results : List Result) : Summary :=
  ⟨count .pass results, count .fail results, count .skip results⟩

theorem summary_total (results : List Result) :
    (summary results).passed + (summary results).failed + (summary results).skipped
      = results.length := by
  simp only [summary]
  induction results with
  | nil => rfl
  | cons r rs ih =>
    simp only [count, List.filter_cons] at ih ⊢
    cases r.status <;> simp <;> omega

end AppPipeline.Run
