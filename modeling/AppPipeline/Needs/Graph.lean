/-!
# The graph of needs

A relation lists, for every job, the jobs it needs. `Graph.build` turns it
into two maps: the jobs that need a job, and the number of jobs that a job
needs; a repeated need counts once. Building fails at the first need, in the
order of the relation, that is no job.
-/

namespace AppPipeline.Needs

variable {α : Type} [DecidableEq α]

/-- The jobs that need each job, and how many jobs each job needs. -/
structure Graph (α : Type) where
  children : List (α × List α)
  indegree : List (α × Nat)
  deriving DecidableEq, Repr

/-- A job, what it needs and the jobs there are. -/
structure Missing (α : Type) where
  job : α
  need : α
  known : List α
  deriving DecidableEq, Repr

/-- The same, with the jobs called otherwise. -/
def Missing.map {α β : Type} (f : α → β) (m : Missing α) : Missing β :=
  ⟨f m.job, f m.need, m.known.map f⟩

/-! ## Maps as lists of pairs -/

/-- Changes the value of one key. -/
def adjust {β : Type} (key : α) (f : β → β) : List (α × β) → List (α × β)
  | [] => []
  | (k, b) :: rest => (if k = key then (k, f b) else (k, b)) :: adjust key f rest

theorem keys_adjust {β : Type} (key : α) (f : β → β) (m : List (α × β)) :
    (adjust key f m).map Prod.fst = m.map Prod.fst := by
  induction m with
  | nil => rfl
  | cons p m ih =>
    obtain ⟨k, b⟩ := p
    by_cases h : k = key <;> simp [adjust, h, ih]

namespace Graph

def empty (jobs : List α) : Graph α := ⟨jobs.map (·, []), jobs.map (·, 0)⟩

def childrenOf (g : Graph α) (job : α) : List α := (g.children.lookup job).getD []

def indegreeOf (g : Graph α) (job : α) : Nat := (g.indegree.lookup job).getD 0

/-- Enters that `job` needs `need`, unless that is known. -/
def addNeed (g : Graph α) (job need : α) : Graph α :=
  if job ∈ g.childrenOf need then g
  else ⟨adjust need (· ++ [job]) g.children, adjust job (· + 1) g.indegree⟩

/-! ## Building -/

def addNeeds (jobs : List α) (job : α) : List α → Graph α → Except (Missing α) (Graph α)
  | [], g => .ok g
  | need :: rest, g =>
    if need ∈ jobs then addNeeds jobs job rest (g.addNeed job need)
    else .error ⟨job, need, jobs⟩

def addAll (jobs : List α) : List (α × List α) → Graph α → Except (Missing α) (Graph α)
  | [], g => .ok g
  | (job, needs) :: rest, g =>
    match addNeeds jobs job needs g with
    | .ok g' => addAll jobs rest g'
    | .error m => .error m

def build (relation : List (α × List α)) : Except (Missing α) (Graph α) :=
  let jobs := relation.map Prod.fst
  addAll jobs relation (empty jobs)

end Graph

end AppPipeline.Needs
