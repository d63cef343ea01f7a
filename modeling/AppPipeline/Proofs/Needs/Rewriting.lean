import Mathlib
import AppPipeline.Proofs.Needs.Leveling
import AppPipeline.Proofs.Text.Separated

/-!
# Levels do not depend on how needs are written

Two relations have the `SameNeeds` if they list the same jobs and each job needs the same ones
in both, in whatever order and however often they are listed. The graphs that are built of them
are `Alike`: their maps are the same up to the order of entries and of children.

* `Front.Alike.meet`: a need that is met in two alike fronts leaves alike fronts;
* `Graph.Alike.after`, `Graph.Alike.levelsFrom`: so two alike graphs are leveled in lockstep,
  where the order between texts sorts children and first jobs in one way only;
* `levelsOf_eq_of_sameNeeds`: the levels of the two relations are the same lists, or the same
  jobs are reported.
-/

namespace AppPipeline.Needs

variable {α : Type}

/-- The same jobs need the same jobs. -/
structure SameNeeds (relation other : List (α × List α)) : Prop where
  jobs : ∀ a, a ∈ relation.map Prod.fst ↔ a ∈ other.map Prod.fst
  needs : ∀ a b, Needing relation a b ↔ Needing other a b

variable [DecidableEq α]

theorem adjust_eq_map {β : Type} (key : α) (f : β → β) (m : List (α × β)) :
    adjust key f m = m.map fun p => if p.1 = key then (p.1, f p.2) else p := by
  induction m with
  | nil => rfl
  | cons p m ih =>
    obtain ⟨k, b⟩ := p
    rw [adjust, List.map_cons, ih]

/-! ## Two fronts -/

namespace Front

/-- The same jobs are free in the same order, and the same needs are open. -/
structure Alike (f f' : Front α) : Prop where
  free : f.free = f'.free
  pending : f.pending.Perm f'.pending
  keys : (f.pending.map Prod.fst).Nodup

variable {f f' : Front α}

theorem Alike.meet (h : f.Alike f') (job : α) : (f.meet job).Alike (f'.meet job) where
  free := by
    rw [Front.meet, Front.meet, h.free, lookup_perm h.pending h.keys]
  pending := by
    rw [Front.meet, Front.meet, adjust_eq_map, adjust_eq_map, lookup_perm h.pending h.keys]
    exact h.pending.map _
  keys := by
    rw [keys_meet]
    exact h.keys

theorem Alike.foldl_meet (h : f.Alike f') (visits : List α) :
    (visits.foldl Front.meet f).Alike (visits.foldl Front.meet f') := by
  induction visits generalizing f f' with
  | nil => exact h
  | cons job rest ih => exact ih (h.meet job)

end Front

/-! ## Two graphs -/

namespace Graph

/-- The maps of the graphs are the same, but for the order in which they list. -/
structure Alike (g g' : Graph α) : Prop where
  children : ∀ d, (g.childrenOf d).Perm (g'.childrenOf d)
  indegree : g.indegree.Perm g'.indegree
  keys : g.jobs.Nodup

variable {g g' : Graph α} {pending pending' : List (α × Nat)}

theorem indegree_eq_map (h : g.jobs.Nodup) :
    g.indegree = g.jobs.map fun j => (j, g.indegreeOf j) := by
  rw [jobs, List.map_map]
  refine (List.map_id _).symm.trans (List.map_congr_left fun p hp => ?_)
  rw [Function.comp_apply, indegreeOf_of_mem h hp]
  rfl

/-- Graphs with the same jobs and the same children count the same needs. -/
theorem alike_of_mem (h : g.Coherent) (h' : g'.Coherent) (hjobs : g.jobs.Perm g'.jobs)
    (hchildren : ∀ j d, j ∈ g.childrenOf d ↔ j ∈ g'.childrenOf d) : g.Alike g' where
  children d :=
    (List.perm_ext_iff_of_nodup (h.children_nodup d) (h'.children_nodup d)).2 (hchildren · d)
  indegree := by
    have hcount : ∀ j, g.indegreeOf j = g'.indegreeOf j := by
      intro j
      rw [h.indegree, h'.indegree, hjobs.countP_eq]
      simp only [hchildren]
    rw [indegree_eq_map h.jobs_nodup, indegree_eq_map h'.jobs_nodup]
    simp only [hcount]
    exact hjobs.map _
  keys := h.jobs_nodup

section

variable {le : α → α → Bool}
  (hsort : ∀ {xs ys : List α}, xs.Perm ys → xs.mergeSort le = ys.mergeSort le)

include hsort

theorem Alike.visits_eq (h : g.Alike g') (level : List α) :
    g.visits le level = g'.visits le level := by
  rw [visits, visits]
  exact congrArg (List.flatMap · level) (funext fun job => hsort (h.children job))

/-- One level frees the same jobs in the same order. -/
theorem Alike.after (h : g.Alike g') (level : List α) (hpending : pending.Perm pending')
    (hkeys : (pending.map Prod.fst).Nodup) :
    (g.after le level pending).Alike (g'.after le level pending') := by
  have hstart : (⟨[], pending⟩ : Front α).Alike ⟨[], pending'⟩ := ⟨rfl, hpending, hkeys⟩
  rw [after_eq_foldl, after_eq_foldl, h.visits_eq hsort]
  exact hstart.foldl_meet _

/-- All further levels are the same, and so are the needs that stay open. -/
theorem Alike.levelsFrom (h : g.Alike g') (left : Nat) (level : List α)
    (hpending : pending.Perm pending') (hkeys : (pending.map Prod.fst).Nodup) :
    (g.levelsFrom le left level pending).1 = (g'.levelsFrom le left level pending').1 ∧
      (g.levelsFrom le left level pending).2.Perm (g'.levelsFrom le left level pending').2 := by
  induction left generalizing level pending pending' with
  | zero => exact ⟨rfl, hpending⟩
  | succ n ih =>
    rw [Graph.levelsFrom, Graph.levelsFrom]
    split
    · exact ⟨rfl, hpending⟩
    · have hfront := h.after hsort level hpending hkeys
      obtain ⟨hlevels, hfinal⟩ := ih (g.after le level pending).free hfront.pending hfront.keys
      rw [hfront.free] at hlevels hfinal
      dsimp only
      rw [hfront.free]
      exact ⟨congrArg (level :: ·) hlevels, hfinal⟩

theorem Alike.roots_eq (h : g.Alike g') : g.roots le = g'.roots le := by
  rw [roots, roots]
  exact hsort ((h.indegree.filter _).map _)

theorem Alike.leveling_eq (h : g.Alike g') : g.leveling le = g'.leveling le := by
  obtain ⟨hlevels, hfinal⟩ :=
    h.levelsFrom hsort g.indegree.length (g.roots le) h.indegree h.keys
  rw [h.roots_eq hsort] at hlevels hfinal
  rw [leveling, leveling, ← h.indegree.length_eq, h.roots_eq hsort]
  exact congrArg₂ Leveling.mk hlevels (hsort ((hfinal.filter _).map _))

theorem Alike.levels_eq (h : g.Alike g') : g.levels le = g'.levels le := by
  rw [levels, levels, h.leveling_eq hsort]

end

end Graph

/-! ## Relations -/

/-- Relations in which the same jobs need the same jobs, all of them listed, are leveled alike:
the same levels are found, or the same fault with the same wording. -/
theorem levelsOf_eq_of_sameNeeds {relation other : List (String × List String)}
    (hjobs : (relation.map Prod.fst).Nodup) (hother : (other.map Prod.fst).Nodup)
    (hclosed : ∀ p ∈ relation, ∀ d ∈ p.2, d ∈ relation.map Prod.fst)
    (h : SameNeeds relation other) : levelsOf relation = levelsOf other := by
  have hclosed' : ∀ p ∈ other, ∀ d ∈ p.2, d ∈ other.map Prod.fst := by
    intro p hp d hd
    obtain ⟨needs, hmem, hneed⟩ := (h.needs p.1 d).2 ⟨p.2, hp, hd⟩
    exact (h.jobs d).1 (hclosed _ hmem d hneed)
  obtain ⟨g, hbuild, hg, hkeys, hneeds⟩ := Graph.build_of_closed hjobs hclosed
  obtain ⟨g', hbuild', hg', hkeys', hneeds'⟩ := Graph.build_of_closed hother hclosed'
  have hperm : g.jobs.Perm g'.jobs := by
    rw [hkeys, hkeys', List.perm_ext_iff_of_nodup hjobs hother]
    exact h.jobs
  have halike : g.Alike g' := Graph.alike_of_mem hg hg' hperm fun j d => by
    rw [hneeds, hneeds', h.needs]
  rw [levelsOf, levelsOf, hbuild, hbuild']
  exact halike.levels_eq Text.mergeSort_le_inj.2

/-- Two jobs that need two others, with a need listed twice. -/
def crossed : List (String × List String) :=
  [("d", ["b", "a"]), ("c", ["a", "b", "a"]), ("b", []), ("a", [])]

/-- The same needs, from the other end. -/
def crossedBack : List (String × List String) :=
  [("a", []), ("b", []), ("c", ["b", "a"]), ("d", ["a", "b"])]

theorem levels_crossed :
    SameNeeds crossed crossedBack ∧ levelsOf crossed = levelsOf crossedBack ∧
      levelsOf crossed = .ok [["a", "b"], ["c", "d"]] :=
  have hsame : SameNeeds crossed crossedBack := by
    constructor
    · simp only [crossed, crossedBack, List.map_cons, List.map_nil, List.mem_cons]
      grind
    · simp only [crossed, crossedBack, Needing]
      grind
  ⟨hsame, levelsOf_eq_of_sameNeeds (by decide) (by decide) (by decide) hsame, by cbv⟩

end AppPipeline.Needs
