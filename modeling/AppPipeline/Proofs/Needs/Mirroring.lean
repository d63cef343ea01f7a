import Mathlib.Data.Finset.Card
import AppPipeline.Proofs.Needs.Building

/-!
# Graphs that mirror relations

`needPairs relation` lists every need beside the job that has it, in the order in which a graph
is built. Building ends at the first of them that is no job (`build_of_firstMissing`). If there is
none, the graph `Mirrors` the relation: one map has the jobs that need a job, the other one the
number of jobs that a job needs, and the two agree.

* `addAll_of_find?`: whatever was entered before, the first need that is no job is reported;
* `Coherent.mirrors`: what the coherence of the two maps says of their entries;
* `build_mirrors`: when a graph is built, and what it holds.
-/

namespace AppPipeline.Needs

variable {α : Type} [DecidableEq α]

/-! ## Needs in order -/

/-- Every need, beside the job that has it. -/
def needPairs (relation : List (α × List α)) : List (α × α) :=
  relation.flatMap fun p => p.2.map fun need => (p.1, need)

/-- The first need that is no job, beside the job that has it. -/
def firstMissing (relation : List (α × List α)) : Option (α × α) :=
  (needPairs relation).find? fun p => p.2 ∉ relation.map Prod.fst

theorem firstMissing_eq_none {relation : List (α × List α)} :
    firstMissing relation = none ↔ ∀ p ∈ relation, ∀ d ∈ p.2, d ∈ relation.map Prod.fst := by
  rw [firstMissing, List.find?_eq_none]
  constructor
  · intro h p hp d hd
    have hpair : (p.1, d) ∈ needPairs relation :=
      List.mem_flatMap.2 ⟨p, hp, List.mem_map_of_mem hd⟩
    simpa [-List.mem_map] using h _ hpair
  · intro h q hq
    obtain ⟨p, hp, hq⟩ := List.mem_flatMap.1 hq
    obtain ⟨d, hd, rfl⟩ := List.mem_map.1 hq
    simpa [-List.mem_map] using h p hp d hd

namespace Graph

theorem exists_addNeeds {jobs : List α} {needs : List α} (h : ∀ d ∈ needs, d ∈ jobs) (job : α)
    (g : Graph α) : ∃ g', addNeeds jobs job needs g = .ok g' := by
  induction needs generalizing g with
  | nil => exact ⟨g, rfl⟩
  | cons need rest ih =>
    rw [addNeeds, if_pos (h need List.mem_cons_self)]
    exact ih (fun d hd => h d (List.mem_cons_of_mem _ hd)) _

theorem addNeeds_of_find? {jobs : List α} {needs : List α} {need : α}
    (h : needs.find? (fun d => d ∉ jobs) = some need) (job : α) (g : Graph α) :
    addNeeds jobs job needs g = .error ⟨job, need, jobs⟩ := by
  induction needs generalizing g with
  | nil => cases h
  | cons first rest ih =>
    rw [addNeeds]
    by_cases hfirst : first ∈ jobs
    · rw [if_pos hfirst]
      exact ih (by simpa [hfirst] using h) _
    · obtain rfl : first = need := by simpa [hfirst] using h
      rw [if_neg hfirst]

theorem addAll_of_find? {jobs : List α} {relation : List (α × List α)} {job need : α}
    (h : (needPairs relation).find? (fun p => p.2 ∉ jobs) = some (job, need)) (g : Graph α) :
    addAll jobs relation g = .error ⟨job, need, jobs⟩ := by
  induction relation generalizing g with
  | nil => cases h
  | cons p rest ih =>
    obtain ⟨first, needs⟩ := p
    rw [needPairs, List.flatMap_cons, List.find?_append, List.find?_map] at h
    rw [addAll]
    cases hneeds : needs.find? fun d => d ∉ jobs with
    | none =>
      have hall : ∀ d ∈ needs, d ∈ jobs := by simpa using hneeds
      obtain ⟨g', hok⟩ := exists_addNeeds hall first g
      rw [hok]
      simp only [Function.comp_def, hneeds, Option.map_none, Option.none_or] at h
      exact ih h g'
    | some d =>
      rw [addNeeds_of_find? hneeds]
      simp only [Function.comp_def, hneeds, Option.map_some, Option.some_or] at h
      obtain ⟨rfl, rfl⟩ := Prod.mk.inj (Option.some.inj h)
      rfl

theorem build_of_firstMissing {relation : List (α × List α)} {job need : α}
    (h : firstMissing relation = some (job, need)) :
    build relation = .error ⟨job, need, relation.map Prod.fst⟩ :=
  addAll_of_find? h _

end Graph

/-! ## Entries of the maps -/

theorem needing_iff_of_mem {relation : List (α × List α)} (hjobs : (relation.map Prod.fst).Nodup)
    {j : α} {needs : List α} (h : (j, needs) ∈ relation) (d : α) :
    Needing relation j d ↔ d ∈ needs := by
  constructor
  · rintro ⟨others, hothers, hd⟩
    have heq : some others = some needs := by
      rw [← lookup_of_mem hjobs hothers, lookup_of_mem hjobs h]
    rwa [← Option.some.inj heq]
  · exact fun hd => ⟨needs, h, hd⟩

/-- Among distinct jobs, a list of jobs finds as many as it has distinct ones. -/
theorem countP_mem_eq_card {jobs needs : List α} (hjobs : jobs.Nodup) (h : needs ⊆ jobs) :
    jobs.countP (fun d => d ∈ needs) = needs.toFinset.card := by
  rw [List.countP_eq_length_filter, ← List.toFinset_card_of_nodup (hjobs.filter _)]
  refine congrArg Finset.card (Finset.ext fun a => ?_)
  simpa using @h a

/-- The graph has the jobs of the relation. Under each job it has those that need it and no
others, and it counts the distinct jobs that a job needs, which are those under which it stands. -/
structure Mirrors (relation : List (α × List α)) (g : Graph α) : Prop where
  children_keys : g.children.map Prod.fst = relation.map Prod.fst
  indegree_keys : g.indegree.map Prod.fst = relation.map Prod.fst
  children : ∀ p ∈ g.children, p.2.Nodup ∧ ∀ j, j ∈ p.2 ↔ Needing relation j p.1
  distinct : ∀ p ∈ g.indegree, ∀ needs, (p.1, needs) ∈ relation → p.2 = needs.toFinset.card
  agree : ∀ p ∈ g.indegree, p.2 = g.children.countP fun q => p.1 ∈ q.2

theorem Graph.Coherent.mirrors {relation : List (α × List α)} {g : Graph α} (h : g.Coherent)
    (hjobs : g.jobs = relation.map Prod.fst)
    (hneeds : ∀ j d, j ∈ g.childrenOf d ↔ Needing relation j d) : Mirrors relation g := by
  have hnodup := h.jobs_nodup
  refine ⟨h.children_keys.trans hjobs, hjobs, fun p hp => ?_, fun p hp needs hmem => ?_,
    fun p hp => ?_⟩
  · rw [← h.childrenOf_of_mem hp]
    exact ⟨h.children_nodup p.1, fun j => hneeds j p.1⟩
  · have hsubset : needs ⊆ g.jobs := fun d hd => h.parent_mem ((hneeds p.1 d).2 ⟨needs, hmem, hd⟩)
    rw [← Graph.indegreeOf_of_mem hnodup hp, h.indegree, ← countP_mem_eq_card hnodup hsubset]
    simp only [hneeds, needing_iff_of_mem (hjobs ▸ hnodup) hmem]
  · rw [← Graph.indegreeOf_of_mem hnodup hp, h.indegree, ← h.children_keys, List.countP_map]
    refine List.countP_congr fun q hq => ?_
    rw [← h.childrenOf_of_mem hq]
    rfl

/-- Building fails exactly if something is needed that is no job, and reports the first such need
with its job, in the order of the relation. Otherwise the graph mirrors the relation. -/
theorem build_mirrors (relation : List (α × List α)) (hjobs : (relation.map Prod.fst).Nodup) :
    ((∃ m, Graph.build relation = .error m) ↔
      ∃ p ∈ relation, ∃ d ∈ p.2, d ∉ relation.map Prod.fst) ∧
    (∀ m, Graph.build relation = .error m →
      firstMissing relation = some (m.job, m.need) ∧ m.known = relation.map Prod.fst) ∧
    ∀ g, Graph.build relation = .ok g → Mirrors relation g := by
  cases hfirst : firstMissing relation with
  | none =>
    have hclosed := firstMissing_eq_none.1 hfirst
    obtain ⟨g, hbuild, hg, hkeys, hneeds⟩ := Graph.build_of_closed hjobs hclosed
    rw [hbuild]
    refine ⟨⟨?_, ?_⟩, ?_, ?_⟩
    · rintro ⟨m, hm⟩
      cases hm
    · rintro ⟨p, hp, d, hd, hmissing⟩
      exact absurd (hclosed p hp d hd) hmissing
    · intro m hm
      cases hm
    · intro g' hg'
      obtain rfl := Except.ok.inj hg'
      exact hg.mirrors hkeys hneeds
  | some pair =>
    obtain ⟨job, need⟩ := pair
    have hopen : ¬ ∀ p ∈ relation, ∀ d ∈ p.2, d ∈ relation.map Prod.fst := by
      rw [← firstMissing_eq_none, hfirst]
      exact Option.some_ne_none _
    rw [Graph.build_of_firstMissing hfirst]
    refine ⟨⟨fun _ => ?_, fun _ => ⟨_, rfl⟩⟩, ?_, ?_⟩
    · push Not at hopen
      exact hopen
    · intro m hm
      obtain rfl := Except.error.inj hm
      exact ⟨rfl, rfl⟩
    · intro g hg
      cases hg

/-- A job that needs itself, and another job twice. -/
def selfNeeding : List (String × List String) :=
  [("build", ["test", "build", "test"]), ("test", [])]

def selfNeedingGraph : Graph String :=
  ⟨[("build", ["build"]), ("test", ["build"])], [("build", 2), ("test", 0)]⟩

/-- Needs that are no jobs, the first of them behind one that is. -/
def dangling : List (String × List String) :=
  [("build", ["test", "lint", "docs"]), ("test", ["docs"])]

theorem build_mirrors_selfNeeding :
    (selfNeeding.map Prod.fst).Nodup ∧ (dangling.map Prod.fst).Nodup ∧
      Graph.build selfNeeding = .ok selfNeedingGraph ∧ Mirrors selfNeeding selfNeedingGraph ∧
      Graph.build dangling = .error ⟨"build", "lint", ["build", "test"]⟩ ∧
      firstMissing dangling = some ("build", "lint") :=
  have hjobs : (selfNeeding.map Prod.fst).Nodup := by decide
  have hdangling : (dangling.map Prod.fst).Nodup := by decide
  have hbuild : Graph.build selfNeeding = .ok selfNeedingGraph := by decide +kernel
  have herror : Graph.build dangling = .error ⟨"build", "lint", ["build", "test"]⟩ := by
    decide +kernel
  ⟨hjobs, hdangling, hbuild, (build_mirrors selfNeeding hjobs).2.2 _ hbuild, herror,
    ((build_mirrors dangling hdangling).2.1 _ herror).1⟩

end AppPipeline.Needs
