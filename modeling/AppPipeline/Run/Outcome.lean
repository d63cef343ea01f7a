import AppPipeline.Number.Double
import AppPipeline.Raised
import AppPipeline.Text.Utf8

/-!
# Outcomes of processes

How a started command ended, and how long it took. What a process had printed
before it ran out of time may be there as text, as bytes, or not at all. A time
without end has no number of milliseconds, and a clock may give no number.
-/

namespace AppPipeline.Run

inductive Captured where
  | absent
  | text (s : String)
  | bytes (bs : List Nat)
  deriving DecidableEq, Repr

def Captured.toText : Captured → String
  | .absent => ""
  | .text s => s
  | .bytes bs => Text.ofCodes (Text.decodeLossy bs)

inductive Ending where
  | finished (exitCode : Int) (stdout stderr : String)
  | timedOut (stdout stderr : Captured)
  /-- the process could not be run -/
  | raised (fault : Raised)
  /-- the user stopped the run -/
  | interrupted
  deriving DecidableEq, Repr

structure Outcome where
  seconds : Double := .zero false
  ending : Ending := .finished 0 "" ""
  deriving DecidableEq, Repr

/-- Why a number that a run shows cannot be given. -/
inductive MeasureFault where
  | endless
  | noNumber
  /-- a limit is past the greatest binary number -/
  | tooLarge
  deriving DecidableEq, Repr

def MeasureFault.message : MeasureFault → String
  | .endless => "cannot convert float infinity to integer"
  | .noNumber => "cannot convert float NaN to integer"
  | .tooLarge => "int too large to convert to float"

def MeasureFault.kind : MeasureFault → String
  | .endless => "OverflowError"
  | .noNumber => "ValueError"
  | .tooLarge => "OverflowError"

def MeasureFault.raised (f : MeasureFault) : Raised := ⟨f.kind, f.message⟩

/-- Whole milliseconds: the product in binary numbers, cut off. -/
def Outcome.milliseconds (o : Outcome) : Except MeasureFault Int :=
  match o.seconds.timesNat 1000 with
  | .nan => .error .noNumber
  | .infinite _ => .error .endless
  | x => .ok x.truncate

end AppPipeline.Run
