import AppPipeline.Proofs.Validation.JobIds
import AppPipeline.Proofs.Validation.Workflow

/-!
# Documents without problems

The needs of jobs whose own checks find nothing are a closed relation between jobs
whose ids are texts, and it has a cycle exactly if the needs of the document have one
(`acyclic_needing_iff`). So the checks find nothing exactly for workflow documents
(`problemTexts_eq_nil_iff`).
-/

namespace AppPipeline.Validation

open Json Relation

/-! ## The relation of a document -/

section

variable {d : Json} {knots : Knots}

/-- The jobs of a document by id and place. -/
def idsIn (d : Json) : List JobId := (placedJobs (Value.ofFields d.jobsIn)).map Prod.fst

theorem values_idsIn (d : Json) :
    (idsIn d).map JobId.value = (d.jobsIn.map Prod.fst).map Value.text := by
  rw [idsIn, values_placedJobs, Value.ofFields_eq_map, List.map_map, List.map_map]
  rfl

theorem nodup_values_idsIn (hids : (d.jobsIn.map Prod.fst).Nodup) :
    ((idsIn d).map JobId.value).Nodup := by
  rw [values_idsIn]
  exact hids.map fun _ _ => Value.text.inj

theorem exists_text_of_mem_idsIn {v : JobId} (h : v ∈ idsIn d) : ∃ s, v.value = .text s := by
  have hv := List.mem_map_of_mem (f := JobId.value) h
  rw [values_idsIn] at hv
  obtain ⟨s, -, hs⟩ := List.mem_map.1 hv
  exact ⟨s, hs.symm⟩

/-- The job with this id. -/
def jobAt (d : Json) (id : String) : JobId :=
  (JobId.named? (idsIn d) (.text id)).getD ⟨.text id, 0⟩

theorem jobAt_mem {id : String} (h : id ∈ d.jobsIn.map Prod.fst) :
    jobAt d id ∈ idsIn d ∧ (jobAt d id).value = .text id := by
  have hvalue : Value.text id ∈ (idsIn d).map JobId.value :=
    values_idsIn d ▸ List.mem_map_of_mem h
  obtain ⟨v, hv, hid⟩ := List.mem_map.1 hvalue
  have hsome : (JobId.named? (idsIn d) (.text id)).isSome = true :=
    List.find?_isSome.2 ⟨v, hv, sameKey_text_iff.2 hid⟩
  obtain ⟨w, hw⟩ := Option.isSome_iff_exists.1 hsome
  obtain ⟨hmem, hname, -⟩ := of_named?_eq_some hw
  rw [jobAt, hw]
  exact ⟨hmem, hname⟩

theorem knownNeeds?_ofJson {job : Json} (h : IsJob job) (ids : List JobId) :
    knownNeeds? knots ids (Value.ofJson job)
      = some (((needEntries (job.field? "needs")).map Value.ofJson).filterMap
          (JobId.named? ids)) := by
  obtain ⟨fields, rfl, -⟩ := h
  rw [knownNeeds?, Value.resolve_ofJson, Value.ofJson]
  dsimp only
  rw [field?_ofFields, needsOf_ofJson]
  rfl

theorem mem_placedJobs_ofFields_iff {jobs : List (String × Json)} {v : JobId} {job : Value} :
    (v, job) ∈ placedJobs (Value.ofFields jobs) ↔
      ∃ id x, jobs[v.place]? = some (id, x) ∧ v.value = .text id ∧ job = .ofJson x := by
  rw [mem_placedJobs_iff, Value.ofFields_eq_map, List.getElem?_map, Option.map_eq_some_iff]
  constructor
  · rintro ⟨⟨id, x⟩, hx, he⟩
    obtain ⟨hid, hjob⟩ := Prod.mk.inj he
    exact ⟨id, x, hx, hid.symm, hjob.symm⟩
  · rintro ⟨id, x, hx, hid, rfl⟩
    exact ⟨(id, x), hx, Prod.ext hid.symm rfl⟩

theorem exists_relation? (knots : Knots) (hjob : ∀ p ∈ d.jobsIn, IsJob p.2) :
    ∃ relation, relation? knots (Value.ofFields d.jobsIn) = some relation := by
  refine exists_relationOf? fun p hp => ?_
  obtain ⟨id, x, hx, -, he⟩ := mem_placedJobs_ofFields_iff.1 hp
  rw [he]
  exact ⟨_, knownNeeds?_ofJson (hjob _ (List.mem_of_getElem? hx)) _⟩

/-- A job of the relation needs another one exactly if their ids do so in the document. -/
theorem needing_iff (hids : (d.jobsIn.map Prod.fst).Nodup) (hjob : ∀ p ∈ d.jobsIn, IsJob p.2)
    {relation : List (JobId × List JobId)}
    (hrelation : relation? knots (Value.ofFields d.jobsIn) = some relation) {v w : JobId} :
    Needs.Needing relation v w ↔ v ∈ idsIn d ∧ w ∈ idsIn d ∧
      ∃ a b, v.value = .text a ∧ w.value = .text b ∧ d.JobNeeds a b := by
  obtain ⟨-, hmem⟩ := relationOf?_eq_some hrelation
  constructor
  · rintro ⟨needs, hneeds, hw⟩
    obtain ⟨job, hplaced, hknown⟩ := (hmem v needs).1 hneeds
    obtain ⟨id, x, hx, hid, rfl⟩ := mem_placedJobs_ofFields_iff.1 hplaced
    have hx' := List.mem_of_getElem? hx
    rw [knownNeeds?_ofJson (hjob _ hx')] at hknown
    cases hknown
    obtain ⟨entry, hentry, hnamed⟩ := List.mem_filterMap.1 hw
    obtain ⟨need, hneed, rfl⟩ := List.mem_map.1 hentry
    obtain ⟨hwid, hvalue, b, hb⟩ := of_named?_eq_some hnamed
    obtain rfl : need = .str b := by cases need <;> cases hb; rfl
    exact ⟨List.mem_map_of_mem hplaced, hwid, id, b, hid, hvalue, x, hx', hneed⟩
  · rintro ⟨hv, hw, a, b, ha, hb, job, hx, hneed⟩
    obtain ⟨⟨v', job'⟩, hplaced, rfl⟩ := List.mem_map.1 hv
    obtain ⟨id, x, hat, hid, rfl⟩ := mem_placedJobs_ofFields_iff.1 hplaced
    obtain rfl := Value.text.inj (ha.symm.trans hid)
    -- the ids differ, so the job at this place is the one of this id
    have hsame : (a, x) = (a, job) :=
      List.inj_on_of_nodup_map hids (List.mem_of_getElem? hat) hx rfl
    cases hsame
    refine ⟨_, (hmem _ _).2 ⟨_, hplaced, knownNeeds?_ofJson (hjob _ hx) _⟩, ?_⟩
    exact List.mem_filterMap.2 ⟨_, List.mem_map_of_mem hneed,
      named?_text (nodup_values_idsIn hids) hw hb⟩

/-- Every need of every job is the id of a job. -/
def NeedsKnown (d : Json) : Prop :=
  ∀ p ∈ d.jobsIn, ∀ need ∈ needEntries (p.2.field? "needs"),
    ∃ id, need = .str id ∧ id ∈ d.jobsIn.map Prod.fst

section

variable (hids : (d.jobsIn.map Prod.fst).Nodup) (hjob : ∀ p ∈ d.jobsIn, IsJob p.2)
  {relation : List (JobId × List JobId)}
  (hrelation : relation? knots (Value.ofFields d.jobsIn) = some relation)

include hids hjob hrelation

/-- A chain of needs between jobs is one between their ids. -/
theorem exists_transGen_jobNeeds {v w : JobId} (h : TransGen (Needs.Needing relation) v w) :
    ∃ a b, v.value = .text a ∧ w.value = .text b ∧ TransGen d.JobNeeds a b := by
  induction h with
  | single hvw =>
    obtain ⟨-, -, a, b, hv, hw, hab⟩ := (needing_iff hids hjob hrelation).1 hvw
    exact ⟨a, b, hv, hw, .single hab⟩
  | tail _ huw ih =>
    obtain ⟨a, b, hv, hu, hab⟩ := ih
    obtain ⟨-, -, b', c, hu', hw, hbc⟩ := (needing_iff hids hjob hrelation).1 huw
    obtain rfl := Value.text.inj (hu.symm.trans hu')
    exact ⟨a, c, hv, hw, .tail hab hbc⟩

/-- Where an id needs another one, its job needs the job of the other one. -/
theorem needing_jobAt (hneeds : NeedsKnown d) {a b : String} (hab : d.JobNeeds a b) :
    Needs.Needing relation (jobAt d a) (jobAt d b) := by
  obtain ⟨job, hmem, hneed⟩ := hab
  obtain ⟨id, he, hid⟩ := hneeds _ hmem _ hneed
  cases he
  obtain ⟨ha, hvalue⟩ := jobAt_mem (List.mem_map_of_mem (f := Prod.fst) hmem)
  obtain ⟨hb, hvalue'⟩ := jobAt_mem hid
  exact (needing_iff hids hjob hrelation).2 ⟨ha, hb, a, b, hvalue, hvalue', job, hmem, hneed⟩

theorem acyclic_needing_iff (hneeds : NeedsKnown d) :
    (∀ v, ¬ TransGen (Needs.Needing relation) v v) ↔ ∀ id, ¬ TransGen d.JobNeeds id id := by
  constructor
  · intro hacyclic id hcycle
    exact hacyclic (jobAt d id)
      (hcycle.lift (jobAt d) fun _ _ => needing_jobAt hids hjob hrelation hneeds)
  · intro hacyclic v hcycle
    obtain ⟨a, b, ha, hb, hab⟩ := exists_transGen_jobNeeds hids hjob hrelation hcycle
    obtain rfl := Value.text.inj (ha.symm.trans hb)
    exact hacyclic a hab

end

theorem orderProblems_eq_nil_iff (knots : Knots) (hids : (d.jobsIn.map Prod.fst).Nodup)
    (hjob : ∀ p ∈ d.jobsIn, IsJob p.2) (hneeds : NeedsKnown d) :
    orderProblems knots (Value.ofFields d.jobsIn) = .ok [] ↔
      ∀ id, ¬ TransGen d.JobNeeds id id := by
  obtain ⟨relation, hrelation⟩ := exists_relation? knots hjob
  obtain ⟨hkeys, hnodup, hclosed⟩ := closed_of_relation? hrelation
  have htexts : ∀ v ∈ relation.map Prod.fst, ∃ s, v.value = .text s :=
    fun v hv => exists_text_of_mem_idsIn (hkeys ▸ hv)
  rw [orderProblems, hrelation]
  dsimp only
  rw [relationProblems_eq_nil_iff hnodup hclosed
      fun a ha b hb => comparable_of_texts (htexts a ha) (htexts b hb),
    acyclic_needing_iff hids hjob hrelation hneeds]

end

variable {d : Json}

/-! ## Documents -/

theorem problems_object_eq_nil_iff (knots : Knots) (fields : List (String × Json)) :
    problems knots (Value.ofJson (.object fields)) = .ok [] ↔
      nameProblems (Value.ofFields fields) = [] ∧
      triggerProblems knots (Value.ofFields fields) = [] ∧
      envProblems knots (Value.ofFields fields) = [] ∧
      jobsProblems knots (Value.ofFields (jobsIn (.object fields))) = [] ∧
      orderProblems knots (Value.ofFields (jobsIn (.object fields))) = .ok [] := by
  rw [problems, Value.resolve_ofJson, Value.ofJson]
  dsimp only
  rw [jobsOf_ofFields]
  cases orderProblems knots (Value.ofFields (jobsIn (.object fields))) with
  | error f =>
    constructor
    · intro h
      cases h
    · rintro ⟨_, _, _, _, h⟩
      cases h
  | ok ps =>
    have hok : ∀ qs : List Problem, (Except.ok qs : Except OrderFault (List Problem)) = .ok []
        ↔ qs = [] := fun qs => ⟨Except.ok.inj, congrArg _⟩
    rw [hok]
    refine (hok _).trans ?_
    rw [List.append_eq_nil_iff, List.append_eq_nil_iff, List.append_eq_nil_iff,
      List.append_eq_nil_iff, and_assoc, and_assoc, and_assoc]

theorem problems_eq_nil_iff (knots : Knots) (hids : (d.jobsIn.map Prod.fst).Nodup) :
    problems knots (Value.ofJson d) = .ok [] ↔ d.IsWorkflow := by
  cases d with
  | object fields =>
    rw [problems_object_eq_nil_iff, nameProblems_eq_nil_iff, triggerProblems_eq_nil_iff,
      envProblems_eq_nil_iff, jobsProblems_eq_nil_iff]
    simp only [jobProblems_eq_nil_iff]
    constructor
    · rintro ⟨hname, htriggers, henv, ⟨hjobs, hall⟩, horder⟩
      have hjob := fun p hp => (hall p hp).1
      have hneeds : NeedsKnown (.object fields) := fun p hp => (hall p hp).2
      exact ⟨⟨fields, rfl⟩, hname, htriggers, henv, (jobsIn_ne_nil_iff _).1 hjobs, hjob, hneeds,
        (orderProblems_eq_nil_iff knots hids hjob hneeds).1 horder⟩
    · intro h
      exact ⟨h.name, h.triggers, h.env,
        ⟨(jobsIn_ne_nil_iff _).2 h.jobs, fun p hp => ⟨h.job p hp, h.needs p hp⟩⟩,
        (orderProblems_eq_nil_iff knots hids h.job h.needs).2 h.acyclic⟩
  | _ =>
    constructor
    · intro h
      cases h
    · intro h
      obtain ⟨_, h⟩ := h.mapping
      cases h

/-- Where the checks find nothing, there is nothing that could lack a wording. -/
theorem displayFault?_eq_none (knots : Knots) (h : problems knots (Value.ofJson d) = .ok []) :
    displayFault? knots (Value.ofJson d) = none := by
  cases d with
  | object fields =>
    obtain ⟨_, _, _, hjobs, _⟩ := (problems_object_eq_nil_iff knots fields).1 h
    have hclean := ((jobsProblems_eq_nil_iff knots _).1 hjobs).2
    rw [displayFault?, Value.resolve_ofJson, Value.ofJson]
    dsimp only
    rw [jobsOf_ofFields, List.findSome?_eq_none_iff]
    intro v hv
    rw [Value.ofFields_eq_map] at hv
    obtain ⟨p, hp, rfl⟩ := List.mem_map.1 hv
    rw [jobDisplayFault?, hclean p hp]
    split
    · rfl
    · rfl
  | _ => cases h

/-- No check finds a problem in a workflow document. -/
theorem problemTexts_of_isWorkflow (knots : Knots) {d : Json}
    (hids : (d.jobsIn.map Prod.fst).Nodup) (h : d.IsWorkflow) :
    problemTexts knots (Value.ofJson d) = .ok [] := by
  have hnil := (problems_eq_nil_iff knots hids).2 h
  rw [problemTexts, displayFault?_eq_none knots hnil, hnil]
  rfl

/-- The checks of a document find nothing exactly if it is a workflow document. As in every
mapping, no id of a job occurs twice. -/
theorem problemTexts_eq_nil_iff (knots : Knots) (d : Json)
    (hids : (d.jobsIn.map Prod.fst).Nodup) :
    problemTexts knots (Value.ofJson d) = .ok [] ↔ d.IsWorkflow := by
  refine ⟨fun h => ?_, problemTexts_of_isWorkflow knots hids⟩
  rw [← problems_eq_nil_iff knots hids]
  rw [problemTexts] at h
  split at h
  · cases h
  · split at h
    · next ps hps =>
      rw [hps, List.map_eq_nil_iff.1 (Except.ok.inj h)]
    · cases h

/-- Two jobs of which the second one needs the first one twice. -/
def chainedJobs : Json :=
  let steps : String × Json := ("steps", .list [.object [("run", .str "make")]])
  .object
    [("name", .str "Build"), ("on", .object [("push", .null)]),
     ("jobs", .object
      [("test", .object [("runs-on", .str "ubuntu-latest"), steps]),
       ("build", .object
        [("runs-on", .str "ubuntu-latest"), ("needs", .list [.str "test", .str "test"]),
         steps])])]

theorem isWorkflow_chainedJobs :
    (chainedJobs.jobsIn.map Prod.fst).Nodup ∧ chainedJobs.IsWorkflow :=
  have hids : (chainedJobs.jobsIn.map Prod.fst).Nodup := by decide
  ⟨hids, (problemTexts_eq_nil_iff #[] chainedJobs hids).1 (by decide +kernel)⟩

end AppPipeline.Validation
