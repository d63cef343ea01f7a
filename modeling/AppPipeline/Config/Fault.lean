import AppPipeline.Config.Choice
import AppPipeline.Number.Literal

/-!
# Faults of a configuration

A fault is a place, the keys that lead to it, and a cause. `Reading` is what
reading a part of the data yields: a value, which is a default where the part
is at fault, and the faults in order.
-/

namespace AppPipeline

/-- The kinds of objects that are read. -/
inductive Shape where
  | config
  | options
  | entry
  deriving DecidableEq, Repr

def Shape.label : Shape → String
  | .config => "FormValues"
  | .options => "AdvancedOptions"
  | .entry => "MatrixEntry"

inductive FaultCause where
  | notObject (shape : Shape)
  | notAmong (names : List String)
  | notList
  | notText
  | notTruthValue
  | unclearTruthValue
  /-- a text that holds half of a pair -/
  | brokenText
  /-- an integer whose digits are not written -/
  | longInteger
  | missing
  deriving DecidableEq, Repr

def FaultCause.message : FaultCause → String
  | .notObject shape => "Input should be a valid dictionary or instance of " ++ shape.label
  | .notAmong names => "Input should be " ++ Choice.allowed names
  | .notList => "Input should be a valid tuple"
  | .notText => "Input should be a valid string"
  | .notTruthValue => "Input should be a valid boolean"
  | .unclearTruthValue => "Input should be a valid boolean, unable to interpret input"
  | .brokenText =>
    "Input should be a valid string, unable to parse raw data as a unicode string"
  | .longInteger => "Value error, " ++ Literal.Fault.tooLarge.message
  | .missing => "Field required"

structure Fault where
  place : List String
  cause : FaultCause
  deriving DecidableEq, Repr

/-- The keys joined by points; the whole is called `config`. -/
def Fault.location (f : Fault) : String :=
  let joined := String.intercalate "." f.place
  if joined = "" then "config" else joined

def Fault.under (key : String) (f : Fault) : Fault := { f with place := key :: f.place }

/-! ## Readings -/

structure Reading (α : Type) where
  value : α
  faults : List Fault
  deriving DecidableEq, Repr

namespace Reading

variable {α : Type}

def pure (a : α) : Reading α := ⟨a, []⟩

def fault (default : α) (cause : FaultCause) : Reading α := ⟨default, [⟨[], cause⟩]⟩

/-- The same reading, its faults under a key. -/
def under (key : String) (r : Reading α) : Reading α :=
  { r with faults := r.faults.map (Fault.under key) }

/-- The value, if nothing is at fault. -/
def toExcept (r : Reading α) : Except (List Fault) α :=
  if r.faults.isEmpty then .ok r.value else .error r.faults

theorem toExcept_eq_ok_iff (r : Reading α) (a : α) :
    r.toExcept = .ok a ↔ r.faults = [] ∧ r.value = a := by
  rw [toExcept, ← List.isEmpty_iff]
  split
  · next h => simp [h]
  · next h => simp [h]

end Reading

end AppPipeline
