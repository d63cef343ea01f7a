/-!
# What is raised

A fault that ends a request is raised under the name of its kind, with a
message. It is shown by its message alone or, on request, after the calls that
led to it. Which calls these are depends on where the program is installed, so
their listing is given from outside.
-/

namespace AppPipeline

structure Raised where
  kind : String
  message : String
  deriving DecidableEq, Repr

namespace Raised

/-- The kind and the message; the kind alone if the message is empty. -/
def line (r : Raised) : String :=
  if r.message = "" then r.kind else r.kind ++ ": " ++ r.message

/-- What was raised, after a listing of calls whose lines are ended. -/
def trace (calls : String) (r : Raised) : String :=
  "Traceback (most recent call last):\n" ++ calls ++ r.line ++ "\n"

end Raised

end AppPipeline
