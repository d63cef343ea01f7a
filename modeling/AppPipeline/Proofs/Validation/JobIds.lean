import AppPipeline.Proofs.Needs.Cycles
import AppPipeline.Validation.Check

/-!
# Ids of jobs

Jobs are told apart by their places, so no job occurs twice, whatever its id is
(`nodup_placedJobs`), and the relation of a document is closed (`closed_of_relation?`).
Ids of one ordered kind can always be sorted (`sortable_of_comparable`). So a closed
relation between them has no problem unless it has a cycle
(`relationProblems_eq_nil_iff`).
-/

namespace AppPipeline.Validation

open Relation

/-! ## Jobs with their places -/

section

variable {knots : Knots} {jobs : List (Value × Value)}

theorem mem_placedJobs_iff {id : JobId} {job : Value} :
    (id, job) ∈ placedJobs jobs ↔ jobs[id.place]? = some (id.value, job) := by
  rw [← List.mk_mem_zipIdx_iff_getElem?, placedJobs, List.mem_map]
  constructor
  · rintro ⟨⟨⟨value, job⟩, place⟩, hmem, he⟩
    cases he
    exact hmem
  · intro hmem
    exact ⟨_, hmem, rfl⟩

theorem values_placedJobs (jobs : List (Value × Value)) :
    ((placedJobs jobs).map Prod.fst).map JobId.value = jobs.map Prod.fst := by
  have hvalues : ((placedJobs jobs).map Prod.fst).map JobId.value
      = (jobs.zipIdx.map Prod.fst).map Prod.fst := by
    rw [placedJobs, List.map_map, List.map_map, List.map_map]
    rfl
  rw [hvalues, List.zipIdx_map_fst]

/-- No job occurs twice, whatever the ids are. -/
theorem nodup_placedJobs (jobs : List (Value × Value)) :
    ((placedJobs jobs).map Prod.fst).Nodup := by
  have hplaces : ((placedJobs jobs).map Prod.fst).map JobId.place
      = jobs.zipIdx.map Prod.snd := by
    rw [placedJobs, List.map_map, List.map_map]
    rfl
  refine List.Nodup.of_map JobId.place ?_
  rw [hplaces, List.zipIdx_map_snd]
  exact List.nodup_range'

theorem sameKey_text_iff {s : String} {v : Value} :
    Value.sameKey (.text s) v = true ↔ v = .text s := by
  constructor
  · intro h
    rw [Value.sameKey] at h
    split at h
    · next hnumber _ => cases hnumber
    · cases v with
      | text t => rw [beq_iff_eq.1 h]
      | _ => cases h
    · cases h
  · rintro rfl
    exact beq_self_eq_true s

/-- A need names a job by the text of its id. -/
theorem of_named?_eq_some {ids : List JobId} {need : Value} {id : JobId}
    (h : JobId.named? ids need = some id) : id ∈ ids ∧ id.value = need ∧ ∃ s, need = .text s := by
  cases need with
  | text s => exact ⟨List.mem_of_find?_eq_some h, sameKey_text_iff.1 (List.find?_some h :), s, rfl⟩
  | _ => cases h

/-- The only job with a text as its id is named by it. -/
theorem named?_text {ids : List JobId} (hids : (ids.map JobId.value).Nodup) {id : JobId}
    (hid : id ∈ ids) {s : String} (hs : id.value = .text s) :
    JobId.named? ids (.text s) = some id := by
  cases hfound : JobId.named? ids (.text s) with
  | none => exact absurd (sameKey_text_iff.2 hs) (List.find?_eq_none.1 hfound id hid)
  | some other =>
    obtain ⟨hother, hvalue, -⟩ := of_named?_eq_some hfound
    rw [List.inj_on_of_nodup_map hids hother hid (hvalue.trans hs.symm)]

theorem relationOf?_eq_some {ids : List JobId} {placed : List (JobId × Value)}
    {relation : List (JobId × List JobId)} (h : relationOf? knots ids placed = some relation) :
    relation.map Prod.fst = placed.map Prod.fst ∧ ∀ id needs, (id, needs) ∈ relation ↔
      ∃ job, (id, job) ∈ placed ∧ knownNeeds? knots ids job = some needs := by
  induction placed generalizing relation with
  | nil =>
    cases h
    exact ⟨rfl, by simp⟩
  | cons p rest ih =>
    obtain ⟨first, job⟩ := p
    rw [relationOf?] at h
    obtain ⟨needs, hneeds, h⟩ := Option.bind_eq_some_iff.1 h
    obtain ⟨others, hothers, h⟩ := Option.bind_eq_some_iff.1 h
    cases h
    obtain ⟨hkeys, hmem⟩ := ih hothers
    refine ⟨by rw [List.map_cons, hkeys, List.map_cons], fun id needs' => ?_⟩
    rw [List.mem_cons, hmem]
    constructor
    · rintro (he | ⟨job', hjob', hknown⟩)
      · cases he
        exact ⟨job, List.mem_cons_self, hneeds⟩
      · exact ⟨job', List.mem_cons_of_mem _ hjob', hknown⟩
    · rintro ⟨job', hjob', hknown⟩
      rcases List.mem_cons.1 hjob' with he | hrest
      · cases he
        exact .inl (Prod.ext rfl (Option.some.inj (hknown.symm.trans hneeds)))
      · exact .inr ⟨job', hrest, hknown⟩

theorem exists_relationOf? {ids : List JobId} {placed : List (JobId × Value)}
    (h : ∀ p ∈ placed, ∃ needs, knownNeeds? knots ids p.2 = some needs) :
    ∃ relation, relationOf? knots ids placed = some relation := by
  induction placed with
  | nil => exact ⟨[], rfl⟩
  | cons p rest ih =>
    obtain ⟨⟨needs, hneeds⟩, hrest⟩ := List.forall_mem_cons.1 h
    obtain ⟨others, hothers⟩ := ih hrest
    exact ⟨_, by rw [relationOf?, hneeds, hothers]; rfl⟩

/-- The relation of a document has its jobs, each once, and no need that is not one of them. -/
theorem closed_of_relation? {relation : List (JobId × List JobId)}
    (h : relation? knots jobs = some relation) :
    relation.map Prod.fst = (placedJobs jobs).map Prod.fst ∧ (relation.map Prod.fst).Nodup ∧
      ∀ p ∈ relation, ∀ d ∈ p.2, d ∈ relation.map Prod.fst := by
  obtain ⟨hkeys, hmem⟩ := relationOf?_eq_some h
  refine ⟨hkeys, hkeys ▸ nodup_placedJobs jobs, fun ⟨id, needs⟩ hp d hd => ?_⟩
  obtain ⟨job, -, hknown⟩ := (hmem id needs).1 hp
  rw [knownNeeds?] at hknown
  split at hknown
  · obtain rfl := Option.some.inj hknown
    obtain ⟨need, -, hneed⟩ := List.mem_filterMap.1 hd
    exact hkeys ▸ (of_named?_eq_some hneed).1
  · cases hknown

end

/-! ## Ids with an order -/

/-- The two ids are of one kind whose ids have an order. -/
def Comparable (a b : Value) : Prop := a.keyOrder?.isSome = true ∧ b.keyOrder? = a.keyOrder?

theorem comparable_of_texts {a b : Value} (ha : ∃ s, a = .text s) (hb : ∃ s, b = .text s) :
    Comparable a b := by
  obtain ⟨s, rfl⟩ := ha
  obtain ⟨t, rfl⟩ := hb
  exact ⟨rfl, rfl⟩

theorem sortable_of_comparable {ids : List JobId}
    (h : ∀ a ∈ ids, ∀ b ∈ ids, Comparable a.value b.value) : JobId.sortable ids = true := by
  cases ids with
  | nil => rfl
  | cons a rest =>
    cases rest with
    | nil => rfl
    | cons b rest =>
      have hfirst := h a List.mem_cons_self
      rw [JobId.sortable, List.map_cons, Value.sortable, Bool.and_eq_true, List.all_eq_true]
      · refine ⟨(hfirst a List.mem_cons_self).1, List.forall_mem_map.2 fun c hc => ?_⟩
        exact beq_iff_eq.2 (hfirst c (List.mem_cons_of_mem _ hc)).2
      · intro hrest
        cases hrest

theorem all_sortable_orderings {g : Needs.Graph JobId} (hg : g.Coherent)
    (h : ∀ a ∈ g.jobs, ∀ b ∈ g.jobs, Comparable a.value b.value) :
    (orderings g (g.leveling JobId.le)).all JobId.sortable = true := by
  have hsortable {ids : List JobId} (hids : ∀ a ∈ ids, a ∈ g.jobs) : JobId.sortable ids = true :=
    sortable_of_comparable fun a ha b hb => h a (hids a ha) b (hids b hb)
  rw [orderings, List.all_cons, List.all_cons, Bool.and_eq_true, Bool.and_eq_true, List.all_map,
    List.all_eq_true]
  refine ⟨hsortable fun a ha => ?_, hsortable fun a ha => ?_, fun d _ => hsortable fun a ha => ?_⟩
  · exact (((Needs.Graph.reached_roots hg JobId.le).level.mem a).1 ha).1
  · exact ((Needs.Graph.mem_stuck_iff hg JobId.le a).1 ha).1
  · exact hg.children_mem ha

/-- A closed relation between ids of one kind has no problem exactly when it has no cycle. -/
theorem relationProblems_eq_nil_iff {relation : List (JobId × List JobId)}
    (hids : (relation.map Prod.fst).Nodup)
    (hclosed : ∀ p ∈ relation, ∀ d ∈ p.2, d ∈ relation.map Prod.fst)
    (h : ∀ a ∈ relation.map Prod.fst, ∀ b ∈ relation.map Prod.fst, Comparable a.value b.value) :
    relationProblems relation = .ok [] ↔ ∀ v, ¬ TransGen (Needs.Needing relation) v v := by
  obtain ⟨g, hbuild, hg, hjobs, hneeds⟩ := Needs.Graph.build_of_closed hids hclosed
  have hdepends : g.DependsOn = Needs.Needing relation := by
    funext j d
    exact propext (hneeds j d)
  rw [relationProblems, hbuild, ← hdepends, ← Needs.Graph.stuck_eq_nil_iff hg JobId.le]
  dsimp only
  rw [if_pos (all_sortable_orderings hg (hjobs ▸ h))]
  cases (g.leveling JobId.le).stuck <;> simp

end AppPipeline.Validation
