import AppPipeline.Needs.Graph
import AppPipeline.Proofs.Pairs

/-!
# Building the graph of needs

`Needing relation a b` says that the job `a` needs the job `b`. A graph is
`Coherent` if its two maps have the same keys and agree: the number of a job is
that of the jobs whose lists it stands in.

* `Coherent.addNeed`: entering a need keeps this;
* `build_of_closed`: if every need is a job, a coherent graph of exactly the needs
  of the relation is built.
-/

namespace AppPipeline.Needs

variable {α : Type}

/-! ## Relations -/

/-- The first job needs the second one. -/
def Needing (relation : List (α × List α)) (job need : α) : Prop :=
  ∃ needs, (job, needs) ∈ relation ∧ need ∈ needs

/-- The jobs there are. -/
def Graph.jobs (g : Graph α) : List α := g.indegree.map Prod.fst

theorem Graph.jobs_empty (jobs : List α) : (empty jobs).jobs = jobs := by
  simp [Graph.jobs, empty, Function.comp_def]

/-! ## Counting and changing -/

theorem countP_split {l : List α} {p q r : α → Bool} (hp : ∀ a ∈ l, p a = (q a || r a))
    (hdisjoint : ∀ a ∈ l, q a = true → r a = false) :
    l.countP p = l.countP q + l.countP r := by
  induction l with
  | nil => rfl
  | cons a l ih =>
    have hl := ih (fun b hb => hp b (List.mem_cons_of_mem _ hb))
      fun b hb => hdisjoint b (List.mem_cons_of_mem _ hb)
    rw [List.countP_cons, List.countP_cons, List.countP_cons, hl, hp a List.mem_cons_self]
    cases hq : q a
    · cases r a with
      | false => simp
      | true =>
        simp
        omega
    · rw [hdisjoint a List.mem_cons_self hq]
      simp
      omega

/-- Where exactly one more place counts, the count is one more. -/
theorem countP_or_eq [DecidableEq α] {l : List α} (hl : l.Nodup) {p : α → Bool} {b : α}
    (hb : b ∈ l) (hp : p b = false) :
    l.countP (fun a => p a || decide (a = b)) = l.countP p + 1 := by
  have hone : l.countP (fun a => decide (a = b)) = 1 := by
    have hcount := hl.count (a := b)
    rwa [if_pos hb] at hcount
  rw [countP_split (fun _ _ => rfl) ?_, hone]
  intro a _ ha
  rw [decide_eq_false_iff_not]
  rintro rfl
  rw [hp] at ha
  cases ha

variable [DecidableEq α]

theorem lookup_adjust {β : Type} (key k : α) (f : β → β) (m : List (α × β)) :
    (adjust key f m).lookup k = if k = key then (m.lookup k).map f else m.lookup k := by
  induction m with
  | nil => simp [adjust]
  | cons p m ih =>
    obtain ⟨l, b⟩ := p
    rw [adjust, List.lookup_cons, List.lookup_cons, ih]
    by_cases hk : k = key
    · by_cases hl : l = key
      · subst hk hl
        simp
      · have hne : k ≠ l := fun he => hl (he ▸ hk)
        simp [hl, hk, beq_false_of_ne (hk ▸ hne)]
    · by_cases hl : l = key
      · have hne : k ≠ l := fun he => hk (he.trans hl)
        simp [hl, hk, beq_false_of_ne (hl ▸ hne)]
      · simp [hl, hk]

namespace Graph

/-! ## Coherent graphs -/

/-- The two maps of the graph agree. -/
structure Coherent (g : Graph α) : Prop where
  children_keys : g.children.map Prod.fst = g.jobs
  jobs_nodup : g.jobs.Nodup
  children_nodup : ∀ d, (g.childrenOf d).Nodup
  children_mem : ∀ {j d}, j ∈ g.childrenOf d → j ∈ g.jobs
  indegree : ∀ j, g.indegreeOf j = g.jobs.countP fun d => j ∈ g.childrenOf d

theorem Coherent.parent_mem {g : Graph α} (h : g.Coherent) {j d : α} (hj : j ∈ g.childrenOf d) :
    d ∈ g.jobs := by
  rw [← h.children_keys, ← isSome_lookup, Option.isSome_iff_ne_none]
  intro hnone
  rw [childrenOf, hnone] at hj
  cases hj

theorem indegreeOf_of_mem {g : Graph α} (h : g.jobs.Nodup) {p : α × Nat} (hp : p ∈ g.indegree) :
    g.indegreeOf p.1 = p.2 := by
  have hfound : g.indegree.lookup p.1 = some p.2 := lookup_of_mem h hp
  rw [indegreeOf, hfound]
  rfl

theorem Coherent.childrenOf_of_mem {g : Graph α} (h : g.Coherent) {p : α × List α}
    (hp : p ∈ g.children) : g.childrenOf p.1 = p.2 := by
  have hfound : g.children.lookup p.1 = some p.2 :=
    lookup_of_mem (h.children_keys ▸ h.jobs_nodup) hp
  rw [childrenOf, hfound]
  rfl

theorem childrenOf_empty (jobs : List α) (d : α) : (empty jobs).childrenOf d = [] := by
  cases h : (empty jobs).children.lookup d with
  | none => rw [childrenOf, h]; rfl
  | some children =>
    obtain ⟨j, _, hj⟩ := List.mem_map.1 (mem_of_lookup h)
    rw [childrenOf, h, ← (Prod.mk.inj hj).2]
    rfl

theorem indegreeOf_empty (jobs : List α) (j : α) : (empty jobs).indegreeOf j = 0 := by
  cases h : (empty jobs).indegree.lookup j with
  | none => rw [indegreeOf, h]; rfl
  | some n =>
    obtain ⟨k, _, hk⟩ := List.mem_map.1 (mem_of_lookup h)
    rw [indegreeOf, h, ← (Prod.mk.inj hk).2]
    rfl

theorem coherent_empty {jobs : List α} (hjobs : jobs.Nodup) : (empty jobs).Coherent where
  children_keys := by simp [Graph.jobs, empty, Function.comp_def]
  jobs_nodup := by rwa [jobs_empty]
  children_nodup d := by rw [childrenOf_empty]; exact List.nodup_nil
  children_mem {j d} hj := by rw [childrenOf_empty] at hj; cases hj
  indegree j := by
    rw [indegreeOf_empty, eq_comm, List.countP_eq_zero]
    intro d _
    rw [childrenOf_empty]
    simp

/-! ## One need -/

theorem jobs_addNeed (g : Graph α) (job need : α) : (g.addNeed job need).jobs = g.jobs := by
  rw [addNeed]
  split
  · rfl
  · exact keys_adjust job (· + 1) g.indegree

theorem childrenOf_addNeed {g : Graph α} (h : g.Coherent) {job need : α} (hneed : need ∈ g.jobs)
    (hnew : job ∉ g.childrenOf need) (d : α) :
    (g.addNeed job need).childrenOf d
      = if d = need then g.childrenOf d ++ [job] else g.childrenOf d := by
  rw [addNeed, if_neg hnew, childrenOf, lookup_adjust]
  by_cases hd : d = need
  · rw [if_pos hd, if_pos hd, childrenOf]
    have hsome : (g.children.lookup d).isSome = true := by
      rwa [isSome_lookup, h.children_keys, hd]
    obtain ⟨children, hchildren⟩ := Option.isSome_iff_exists.1 hsome
    rw [hchildren]
    rfl
  · rw [if_neg hd, if_neg hd, childrenOf]

theorem mem_childrenOf_addNeed {g : Graph α} (h : g.Coherent) {job need : α}
    (hneed : need ∈ g.jobs) (j d : α) :
    j ∈ (g.addNeed job need).childrenOf d ↔ j ∈ g.childrenOf d ∨ (j = job ∧ d = need) := by
  by_cases hnew : job ∈ g.childrenOf need
  · rw [addNeed, if_pos hnew]
    constructor
    · exact .inl
    · rintro (hj | ⟨rfl, rfl⟩)
      · exact hj
      · exact hnew
  · rw [childrenOf_addNeed h hneed hnew]
    split
    · next hd => simp [hd]
    · next hd => simp [hd]

theorem indegreeOf_addNeed {g : Graph α} {job need : α} (hjob : job ∈ g.jobs)
    (hnew : job ∉ g.childrenOf need) (j : α) :
    (g.addNeed job need).indegreeOf j
      = if j = job then g.indegreeOf j + 1 else g.indegreeOf j := by
  rw [addNeed, if_neg hnew, indegreeOf, lookup_adjust]
  by_cases hj : j = job
  · rw [if_pos hj, if_pos hj, indegreeOf]
    have hsome : (g.indegree.lookup j).isSome = true := by
      rwa [isSome_lookup, hj]
    obtain ⟨n, hn⟩ := Option.isSome_iff_exists.1 hsome
    rw [hn]
    rfl
  · rw [if_neg hj, if_neg hj, indegreeOf]

theorem Coherent.addNeed {g : Graph α} (h : g.Coherent) {job need : α} (hjob : job ∈ g.jobs)
    (hneed : need ∈ g.jobs) : (g.addNeed job need).Coherent := by
  by_cases hnew : job ∈ g.childrenOf need
  · rw [Graph.addNeed, if_pos hnew]
    exact h
  · refine ⟨?_, ?_, fun d => ?_, fun {j d} hj => ?_, fun j => ?_⟩
    · rw [jobs_addNeed, Graph.addNeed, if_neg hnew, keys_adjust, h.children_keys]
    · rw [jobs_addNeed]
      exact h.jobs_nodup
    · rw [childrenOf_addNeed h hneed hnew]
      split
      · next hd =>
        subst hd
        rw [List.nodup_append]
        refine ⟨h.children_nodup d, List.pairwise_singleton _ _, ?_⟩
        intro a ha b hb he
        rw [List.mem_singleton.1 hb] at he
        exact hnew (he ▸ ha)
      · exact h.children_nodup d
    · rw [jobs_addNeed]
      rcases (mem_childrenOf_addNeed h hneed j d).1 hj with hj | ⟨rfl, _⟩
      · exact h.children_mem hj
      · exact hjob
    · rw [jobs_addNeed, indegreeOf_addNeed hjob hnew, h.indegree]
      simp only [mem_childrenOf_addNeed h hneed]
      by_cases hj : j = job
      · -- the list of `need` is the only one that gains the job
        subst hj
        have hcount := countP_or_eq h.jobs_nodup (p := fun d => decide (j ∈ g.childrenOf d)) hneed
          (decide_eq_false hnew)
        rw [if_pos rfl, ← hcount]
        simp
      · simp [hj]

/-! ## A whole relation -/

/-- The second graph is coherent and has the needs of the first one and further ones. -/
structure Enters (g g' : Graph α) (further : α → α → Prop) : Prop where
  coherent : g'.Coherent
  jobs : g'.jobs = g.jobs
  mem : ∀ j d, j ∈ g'.childrenOf d ↔ j ∈ g.childrenOf d ∨ further j d

theorem Coherent.addNeeds {g : Graph α} (h : g.Coherent) {job : α} (hjob : job ∈ g.jobs)
    {needs : List α} (hneeds : ∀ d ∈ needs, d ∈ g.jobs) :
    ∃ g', Graph.addNeeds g.jobs job needs g = .ok g' ∧
      g.Enters g' fun j d => j = job ∧ d ∈ needs := by
  induction needs generalizing g with
  | nil =>
    refine ⟨g, rfl, h, rfl, fun j d => ?_⟩
    simp
  | cons need needs ih =>
    have hneed : need ∈ g.jobs := hneeds need List.mem_cons_self
    have hjobs := g.jobs_addNeed job need
    obtain ⟨g', hok, hcoherent, hkeys, hmem⟩ := ih (h.addNeed hjob hneed) (hjobs ▸ hjob)
      fun d hd => hjobs ▸ hneeds d (List.mem_cons_of_mem _ hd)
    refine ⟨g', ?_, hcoherent, hkeys.trans hjobs, fun j d => ?_⟩
    · rw [Graph.addNeeds, if_pos hneed]
      rwa [hjobs] at hok
    · rw [hmem, mem_childrenOf_addNeed h hneed, List.mem_cons]
      constructor
      · rintro ((hj | ⟨hj, hd⟩) | ⟨hj, hd⟩)
        · exact .inl hj
        · exact .inr ⟨hj, .inl hd⟩
        · exact .inr ⟨hj, .inr hd⟩
      · rintro (hj | ⟨hj, hd | hd⟩)
        · exact .inl (.inl hj)
        · exact .inl (.inr ⟨hj, hd⟩)
        · exact .inr ⟨hj, hd⟩

theorem Coherent.addAll {g : Graph α} (h : g.Coherent) (relation : List (α × List α))
    (hjobs : ∀ p ∈ relation, p.1 ∈ g.jobs) (hneeds : ∀ p ∈ relation, ∀ d ∈ p.2, d ∈ g.jobs) :
    ∃ g', Graph.addAll g.jobs relation g = .ok g' ∧ g.Enters g' (Needing relation) := by
  induction relation generalizing g with
  | nil =>
    refine ⟨g, rfl, h, rfl, fun j d => ?_⟩
    simp [Needing]
  | cons p relation ih =>
    obtain ⟨job, needs⟩ := p
    obtain ⟨g₁, hok₁, hcoherent₁, hkeys₁, hmem₁⟩ :=
      h.addNeeds (hjobs _ List.mem_cons_self) (hneeds _ List.mem_cons_self)
    obtain ⟨g', hok, hcoherent, hkeys, hmem⟩ := ih hcoherent₁
      (fun p hp => hkeys₁ ▸ hjobs p (List.mem_cons_of_mem _ hp))
      (fun p hp d hd => hkeys₁ ▸ hneeds p (List.mem_cons_of_mem _ hp) d hd)
    refine ⟨g', ?_, hcoherent, hkeys.trans hkeys₁, fun j d => ?_⟩
    · rw [Graph.addAll, hok₁]
      rwa [hkeys₁] at hok
    · rw [hmem, hmem₁, or_assoc]
      refine or_congr Iff.rfl ?_
      constructor
      · rintro (⟨rfl, hd⟩ | ⟨ns, hp, hd⟩)
        · exact ⟨needs, List.mem_cons_self, hd⟩
        · exact ⟨ns, List.mem_cons_of_mem _ hp, hd⟩
      · rintro ⟨ns, hp, hd⟩
        rcases List.mem_cons.1 hp with he | hp
        · obtain ⟨rfl, rfl⟩ := Prod.mk.inj he
          exact .inl ⟨rfl, hd⟩
        · exact .inr ⟨ns, hp, hd⟩

/-- Where every need is a job, the graph of the relation is built. -/
theorem build_of_closed {relation : List (α × List α)} (hjobs : (relation.map Prod.fst).Nodup)
    (hclosed : ∀ p ∈ relation, ∀ d ∈ p.2, d ∈ relation.map Prod.fst) :
    ∃ g, build relation = .ok g ∧ g.Coherent ∧ g.jobs = relation.map Prod.fst ∧
      ∀ j d, j ∈ g.childrenOf d ↔ Needing relation j d := by
  have hempty := jobs_empty (relation.map Prod.fst)
  obtain ⟨g, hok, hcoherent, hkeys, hmem⟩ := (coherent_empty hjobs).addAll relation
    (fun p hp => hempty.symm ▸ List.mem_map_of_mem hp)
    (fun p hp d hd => hempty.symm ▸ hclosed p hp d hd)
  refine ⟨g, ?_, hcoherent, hkeys.trans hempty, fun j d => ?_⟩
  · rwa [hempty] at hok
  · rw [hmem, childrenOf_empty]
    simp

end Graph

end AppPipeline.Needs
