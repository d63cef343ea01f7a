import AppPipeline.Json.Basic
import AppPipeline.Run.Outcome

/-!
# Scripts of outcomes

The data form of an outcome is an object whose fields may all be missing:
`seconds`, `exit`, `stdout` and `stderr`; `timed_out` if the process ran out
of time, when the streams may also be lists of bytes; `raise` with a message
if it could not be run, for which `scriptedKind` is raised; `interrupt` if the
user stopped the run.
-/

namespace AppPipeline.Run

/-- A number of seconds. -/
def secondsOf (default : Double) : Json → Double
  | .int n => .ofInt n
  | .float x => x
  | _ => default

/-- The limit of a run, unless it is a whole number past the greatest binary number. -/
def limitOf (default : Double) : Json → Option Double
  | .int n =>
    match Double.ofInt n with
    | .infinite _ => none
    | x => some x
  | j => some (secondsOf default j)

def byteOf : Json → Nat
  | .int n => n.toNat
  | _ => 0

def Captured.ofJson : Json → Captured
  | .str s => .text s
  | .list bs => .bytes (bs.map byteOf)
  | _ => .absent

def codeOf : Json → Int
  | .int n => n
  | _ => 0

/-- The kind of what a script raises. -/
def scriptedKind : String := "RuntimeError"

def Ending.ofJson (j : Json) : Ending :=
  let field := fun key => (j.field? key).getD .null
  let out := Captured.ofJson (field "stdout")
  let err := Captured.ofJson (field "stderr")
  if field "interrupt" = .bool true then .interrupted
  else
    match field "raise" with
    | .str message => .raised ⟨scriptedKind, message⟩
    | _ =>
      if field "timed_out" = .bool true then .timedOut out err
      else .finished (codeOf (field "exit")) out.toText err.toText

def Outcome.ofJson (j : Json) : Outcome :=
  { seconds := secondsOf (.zero false) ((j.field? "seconds").getD .null)
    ending := .ofJson j }

end AppPipeline.Run
