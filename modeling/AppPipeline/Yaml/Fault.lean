import AppPipeline.Number.Literal
import AppPipeline.Value.Calendar

/-!
# Faults of a YAML text

`malformed` covers every text that is no YAML document of known types. The
other causes arise when a scalar has a known type but no value of it.
-/

namespace AppPipeline.Yaml

inductive ReadFault where
  | malformed
  /-- a code past the last character -/
  | noCharacter (code : Nat)
  | number (fault : Literal.Fault)
  /-- a number without any character -/
  | emptyNumber
  /-- a part of a number to the base sixty that is too large -/
  | hugeNumber
  | noTruth
  | noMoment
  /-- a moment that is a collection -/
  | notText
  | calendar (fault : CalendarFault)
  | tooDeep
  deriving DecidableEq, Repr

def ReadFault.message : ReadFault → String
  | .malformed => "invalid YAML"
  | .noCharacter _ => "chr() arg not in range(0x110000)"
  | .number fault => fault.message
  | .emptyNumber => "string index out of range"
  | .hugeNumber => "int too large to convert to float"
  | .noTruth => "not a truth value"
  | .noMoment => "not a moment"
  | .notText => "not a text"
  | .calendar fault => fault.message
  | .tooDeep => "nested too deeply"

end AppPipeline.Yaml
