import AppPipeline.Needs.Graph
import AppPipeline.Text.Code
import AppPipeline.Text.Quoted

/-!
# Levels of a graph of needs

Jobs without needs form the first level; a job enters the level after the one
in which the last job that it needs is found. Inside a level the order is that
in which jobs become free. Jobs that never become free are stuck; there are
such jobs exactly when the needs have a cycle.
-/

namespace AppPipeline.Needs

variable {α : Type} [DecidableEq α]

/-- The levels, and the jobs that are left, both ordered by `le` where a choice is free. -/
structure Leveling (α : Type) where
  levels : List (List α)
  stuck : List α
  deriving DecidableEq, Repr

/-- Jobs that have just become free, latest last, and the open needs of every job. -/
structure Front (α : Type) where
  free : List α
  pending : List (α × Nat)
  deriving DecidableEq, Repr

namespace Front

/-- One need of a job is met. -/
def meet (f : Front α) (job : α) : Front α :=
  let left := (f.pending.lookup job).getD 0 - 1
  { free := if left = 0 then f.free ++ [job] else f.free
    pending := adjust job (fun _ => left) f.pending }

end Front

namespace Graph

/-- The jobs that a level frees. -/
def after (le : α → α → Bool) (g : Graph α) (level : List α) (pending : List (α × Nat)) :
    Front α :=
  level.foldl (fun f job => ((g.childrenOf job).mergeSort le).foldl Front.meet f) ⟨[], pending⟩

/-- The levels from a given one on, `left` of them at most, and the needs that stay open. -/
def levelsFrom (le : α → α → Bool) (g : Graph α) (left : Nat) (level : List α)
    (pending : List (α × Nat)) : List (List α) × List (α × Nat) :=
  match left with
  | 0 => ([], pending)
  | n + 1 =>
    if level.isEmpty then ([], pending)
    else
      let front := g.after le level pending
      let (levels, final) := g.levelsFrom le n front.free front.pending
      (level :: levels, final)

/-- The jobs without needs. -/
def roots (le : α → α → Bool) (g : Graph α) : List α :=
  ((g.indegree.filter fun p => p.2 == 0).map Prod.fst).mergeSort le

def leveling (le : α → α → Bool) (g : Graph α) : Leveling α :=
  let (levels, final) := g.levelsFrom le g.indegree.length (g.roots le) g.indegree
  ⟨levels, ((final.filter fun p => p.2 != 0).map Prod.fst).mergeSort le⟩

end Graph

/-! ## Faults -/

inductive GraphFault (α : Type) where
  | missing (m : Missing α)
  | cycle (stuck : List α)
  deriving DecidableEq, Repr

/-- The levels, if every job becomes free. -/
def Graph.levels (le : α → α → Bool) (g : Graph α) : Except (GraphFault α) (List (List α)) :=
  let l := g.leveling le
  if l.stuck.isEmpty then .ok l.levels else .error (.cycle l.stuck)

/-- The levels of a relation between texts. -/
def levelsOf (relation : List (String × List String)) :
    Except (GraphFault String) (List (List String)) :=
  match Graph.build relation with
  | .ok g => g.levels Text.le
  | .error m => .error (.missing m)

def listLiteral (jobs : List String) : String := "[" ++ String.intercalate ", " jobs ++ "]"

/-- The wording of a fault, given how a job is displayed and how it is quoted. -/
def GraphFault.message (display literal : α → String) : GraphFault α → String
  | .missing m =>
    "Job '" ++ display m.job ++ "' needs missing job '" ++ display m.need
      ++ "'. Known jobs: " ++ listLiteral (m.known.map literal)
  | .cycle stuck => "DAG has a cycle. Stuck nodes: " ++ listLiteral (stuck.map literal)

/-- The wording for jobs with texts as ids; known jobs are listed in order. -/
def GraphFault.text : GraphFault String → String
  | .missing m =>
    (GraphFault.missing { m with known := m.known.mergeSort Text.le }).message id Text.quoted
  | f => f.message id Text.quoted

end AppPipeline.Needs
