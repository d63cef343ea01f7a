import AppPipeline.Proofs.Validation.Order
import AppPipeline.Proofs.Workflow.Data
import AppPipeline.Proofs.Workflow.Parts

/-!
# Compiled documents are accepted

A step is proper if it either runs a command or uses an action that is not blank.
Every step of a compiled document is proper (`proper_of_mem_testSteps`,
`proper_of_mem_buildJobSteps`), every job has a step and needs a job before it; so
the checks of all parts accept the document, and it is a workflow document
(`isWorkflow_compile`), in which no check finds a problem (`compile_accepted`).
-/

namespace AppPipeline

/-! ## Texts that are not blank -/

theorem Text.hasInk_append (s t : String) : hasInk (s ++ t) = (hasInk s || hasInk t) := by
  simp [hasInk, String.toList_append]

theorem hasInk_script_cons (line : String) (lines : List String)
    (h : Text.hasInk line = true) : Text.hasInk (script (line :: lines)) = true := by
  cases lines with
  | nil => simpa [script, String.intercalate_singleton] using h
  | cons next lines =>
    rw [script, String.intercalate_cons_cons, Text.hasInk_append, Text.hasInk_append, h]
    rfl

/-! ## Steps -/

namespace Step

theorem field?_uses (s : Step) : s.toJson.field? "uses" = s.uses.map .str := by
  simp [toJson, Json.field?, List.lookup_append, lookup_textField, lookup_objectField]

/-- Exactly one of the two texts is there, and it is not blank. -/
def Proper (s : Step) : Prop :=
  (∃ command, s.run = some command ∧ Text.hasInk command = true ∧ s.uses = none) ∨
    ∃ reference, s.uses = some reference ∧ Text.hasInk reference = true ∧ s.run = none

theorem proper_shell (name : String) {command : String} (h : Text.hasInk command = true) :
    (shell name command).Proper :=
  .inl ⟨command, rfl, h, rfl⟩

theorem proper_action (name : String) {reference : String} (inputs : List (String × Json))
    (h : Text.hasInk reference = true) : (action name reference inputs).Proper :=
  .inr ⟨reference, rfl, h, rfl⟩

theorem Proper.onlyIf {s : Step} (h : s.Proper) (condition : Option String) :
    (s.onlyIf condition).Proper := h

theorem Proper.withId {s : Step} (h : s.Proper) (id : String) : (s.withId id).Proper := h

theorem Proper.withEnv {s : Step} (h : s.Proper) (env : List (String × String)) :
    (s.withEnv env).Proper := h

theorem Proper.check_eq {s : Step} (h : s.Proper) : s.check = .ok s := by
  rcases h with ⟨command, hrun, hink, huses⟩ | ⟨reference, huses, hink, hrun⟩
  · simp [check, isSet, hrun, huses, hink]
  · simp [check, isSet, hrun, huses, hink]

theorem Proper.isStep {s : Step} (h : s.Proper) : s.toJson.IsStep := by
  have hrun := field?_run s
  have huses := field?_uses s
  rw [toJson, Json.field?] at hrun huses
  refine ⟨_, rfl, ?_⟩
  rw [hrun, huses]
  rcases h with ⟨command, hr, hink, hu⟩ | ⟨reference, hu, hink, hr⟩
  · exact .inl ⟨⟨command, by rw [hr]; rfl, hink⟩, by rw [hu]; rfl⟩
  · exact .inr ⟨⟨reference, by rw [hu]; rfl, hink⟩, by rw [hr]; rfl⟩

end Step

/-! ## Preparing a job -/

theorem Toolchain.proper_of_mem_setupSteps (m : PackageManager) {nodeVersion : String}
    {caching : Bool} {s : Step} (hs : s ∈ m.tools.setupSteps nodeVersion caching) : s.Proper := by
  have hmanager : ∀ s ∈ m.tools.setupManager, s.Proper := by
    cases m with
    | pnpm =>
      intro s hs
      rw [List.mem_singleton.1 hs]
      exact Step.proper_action _ _ (by decide)
    | _ => intro s hs; cases hs
  refine forall_mem_setupSteps (Step.proper_action _ _ (by decide)) hmanager
    (Step.proper_action _ _ (by decide)) ?_ (Step.proper_action _ _ (by decide)) s hs
  refine (Step.proper_shell _ ?_).withId _
  cases m <;> decide

theorem Toolchain.proper_installStep (m : PackageManager) (further : List String) :
    (m.tools.installStep further).Proper :=
  Step.proper_shell _ (hasInk_script_cons _ _ (by cases m <;> decide))

theorem proper_of_mem_buildPreparation {s : Step} (hs : s ∈ buildPreparation) : s.Proper := by
  simp only [buildPreparation, List.mem_cons, List.not_mem_nil, or_false] at hs
  rcases hs with rfl | rfl | rfl | rfl
  · exact Step.proper_action _ _ (by decide)
  · exact Step.proper_shell _ (hasInk_script_cons _ _ (by decide))
  · exact Step.proper_shell _ (hasInk_script_cons _ _ (by decide))
  · exact Step.proper_shell _ (hasInk_script_cons _ _ (by decide))

theorem Channel.proper_step (ch : Channel) : ch.step.Proper := by
  cases ch with
  | slack => exact ((Step.proper_action _ _ (by decide)).onlyIf _).withEnv _
  | discord => exact (Step.proper_action _ _ (by decide)).onlyIf _

namespace Config

variable {c : Config}

/-! ## The steps of a configuration -/

theorem proper_of_mem_testSteps {s : Step} (hs : s ∈ c.testSteps) : s.Proper := by
  refine forall_mem_testSteps (fun _ => Toolchain.proper_of_mem_setupSteps _)
    (Toolchain.proper_installStep _ _) (forall_mem_checkSteps ?_ ?_) s hs
  · intro kind
    cases kind <;> exact Step.proper_shell _ (by cases c.packageManager <;> decide)
  · intro suite
    cases suite <;> exact Step.proper_shell _ (by cases c.packageManager <;> decide)

theorem proper_buildStep (b : Build) : (c.buildStep b).Proper :=
  ((Step.proper_shell _ (hasInk_script_cons _ _ (by decide))).onlyIf _).withEnv _

theorem proper_uploadStep (d : Drive) (b : Build) : (c.uploadStep d b).Proper := by
  refine (Step.proper_shell _ ?_).onlyIf _
  simp only [Text.hasInk_append, Bool.or_eq_true]
  exact .inr (by decide)

theorem proper_of_mem_publicationSteps {s : Step} (hs : s ∈ c.publicationSteps) : s.Proper :=
  forall_mem_publicationSteps (Step.proper_action _ _ (by decide))
    (fun _ _ => Step.proper_shell _ (hasInk_script_cons _ _ (by decide)))
    (fun d _ b _ => proper_uploadStep d b) (Step.proper_action _ _ (by decide))
    ((Step.proper_shell _ (hasInk_script_cons _ _ (by decide))).withId _)
    (Step.proper_action _ _ (by decide)) s hs

theorem proper_of_mem_storeSteps {s : Step} (hs : s ∈ c.storeSteps) : s.Proper := by
  have hmanual : ∀ (p : Platform) (name command : String), Text.hasInk command = true →
      (c.manualStep p name command).Proper :=
    fun p name command h => (Step.proper_shell name h).onlyIf _
  exact forall_mem_storeSteps (fun _ => hmanual _ _ _ (by decide))
    (fun _ => hmanual _ _ _ (by decide)) (fun _ => hmanual _ _ _ (by decide)) s hs

theorem proper_of_mem_buildJobSteps {s : Step} (hs : s ∈ c.buildJobSteps) : s.Proper :=
  forall_mem_buildJobSteps (fun _ => Toolchain.proper_of_mem_setupSteps _)
    (Toolchain.proper_installStep _ _) (fun _ => proper_of_mem_buildPreparation)
    (fun b _ => proper_buildStep b) (fun _ => proper_of_mem_publicationSteps)
    (fun _ => proper_of_mem_storeSteps) Channel.proper_step s hs

end Config

/-! ## Jobs -/

namespace Job

/-- There are steps, all of them are proper, and the runner is named. -/
structure Proper (j : Job) : Prop where
  steps_ne_nil : j.steps ≠ []
  steps : ∀ s ∈ j.steps, s.Proper
  runsOn : Text.hasInk j.runsOn = true

theorem mapM_check_eq {steps : List Step} (h : ∀ s ∈ steps, s.Proper) :
    steps.mapM Step.check = .ok steps := by
  induction steps with
  | nil => rfl
  | cons s steps ih =>
    rw [List.mapM_cons, (h s List.mem_cons_self).check_eq,
      ih fun s hs => h s (List.mem_cons_of_mem _ hs)]
    rfl

theorem Proper.accept_eq {j : Job} (h : j.Proper) : j.accept = .ok j := by
  rw [accept, mapM_check_eq h.steps]
  show check j = .ok j
  rw [check, if_neg fun hnil => h.steps_ne_nil (List.isEmpty_iff.1 hnil)]

theorem field?_runsOn (j : Job) : j.toJson.field? "runs-on" = some (.str j.runsOn) := by
  have hneeds : (if j.needs.isEmpty then []
      else [("needs", needsJson j.needs)]).lookup "runs-on" = none := by
    split <;> rfl
  rw [toJson, Json.field?]
  simp only [List.lookup_append, hneeds, Step.lookup_textField, Step.lookup_objectField]
  rfl

theorem field?_needs (j : Job) :
    j.toJson.field? "needs" = if j.needs.isEmpty then none else some (needsJson j.needs) := by
  rw [toJson, Json.field?]
  simp only [List.lookup_append, Step.lookup_textField, Step.lookup_objectField]
  split <;> rfl

theorem needEntries_eq (j : Job) :
    Json.needEntries (j.toJson.field? "needs") = j.needs.map .str := by
  rw [field?_needs]
  match j.needs with
  | [] => rfl
  | [need] => rfl
  | first :: second :: rest => rfl

theorem Proper.isJob {j : Job} (h : j.Proper) : j.toJson.IsJob := by
  have hsteps := j.path?_steps
  rw [Json.path?, Option.bind_eq_some_iff] at hsteps
  obtain ⟨v, hfield, hv⟩ := hsteps
  obtain rfl := Option.some.inj hv
  refine ⟨_, rfl, ⟨j.runsOn, j.field?_runsOn, h.runsOn⟩, _, hfield, ?_, fun s hs => ?_⟩
  · simpa using h.steps_ne_nil
  · obtain ⟨step, hstep, rfl⟩ := List.mem_map.1 hs
    exact (h.steps step hstep).isStep

end Job

/-! ## Documents -/

theorem Document.jobsIn_toJson (d : Document) :
    d.toJson.jobsIn = d.jobs.map fun j => (j.id, j.toJson) := rfl

theorem Document.accept_eq {d : Document} (h : ∀ j ∈ d.jobs, j.Proper) : d.accept = .ok d := by
  have hjobs : ∀ jobs : List Job, (∀ j ∈ jobs, j.Proper) → jobs.mapM Job.accept = .ok jobs := by
    intro jobs hjobs
    induction jobs with
    | nil => rfl
    | cons j jobs ih =>
      rw [List.mapM_cons, (hjobs j List.mem_cons_self).accept_eq,
        ih fun j hj => hjobs j (List.mem_cons_of_mem _ hj)]
      rfl
  rw [accept, hjobs d.jobs h]
  rfl

namespace Config

theorem triggerMap_ne_nil (c : Config) : c.triggerMap ≠ [] := by
  simp only [triggerMap]
  cases c.triggers.contains .pushMain <;> cases c.triggers.contains .pullRequest <;>
    cases c.triggers.contains .manual <;> simp

theorem mem_jobs (c : Config) {j : Job} (hj : j ∈ c.jobs) :
    j = checkSkipJob ∨
      (c.hasTestWork = true ∧
        j = { id := testJobId, steps := c.testSteps, needs := [checkSkipId] }) ∨
      j = c.buildJob := by
  simp only [jobs, testJob?, List.cons_append, List.mem_cons, List.mem_append, Option.mem_toList,
    List.not_mem_nil, or_false] at hj
  rcases hj with rfl | hj | rfl
  · exact .inl rfl
  · split at hj
    · next h => exact .inr (.inl ⟨h, (Option.some.inj hj).symm⟩)
    · cases hj
  · exact .inr (.inr rfl)

theorem proper_of_mem_jobs {c : Config} {j : Job} (hj : j ∈ c.jobs) : j.Proper := by
  rcases c.mem_jobs hj with rfl | ⟨hwork, rfl⟩ | rfl
  · refine ⟨by decide, fun s hs => ?_, by decide⟩
    rw [List.mem_singleton.1 hs]
    exact Step.proper_shell _ (by decide)
  · have hrunner : Text.hasInk "ubuntu-latest" = true := by decide
    refine ⟨?_, fun s hs => proper_of_mem_testSteps hs, hrunner⟩
    simp [testSteps, hwork]
  · refine ⟨?_, fun s hs => proper_of_mem_buildJobSteps hs, ?_⟩
    · simp [buildJob, buildJobSteps, buildSteps]
    · rw [buildJob]
      dsimp only
      split <;> decide

/-- The place of a job in the order in which jobs need others. -/
def rank (id : String) : Nat := if id = checkSkipId then 0 else if id = testJobId then 1 else 2

theorem ids_jobs (c : Config) :
    c.jobs.map Job.id
      = checkSkipId :: (if c.hasTestWork then [testJobId] else []) ++ [c.buildJobId] := by
  rw [jobs, testJob?]
  split <;> rfl

theorem nodup_ids (c : Config) : (c.jobs.map Job.id).Nodup := by
  obtain ⟨hskip, htest⟩ := c.buildJobId_ne
  have hne : checkSkipId ≠ testJobId := by decide
  rw [ids_jobs]
  split <;> simp [hskip, htest, hne]

/-- A job needs jobs of the document, and only such as come before it. -/
theorem mem_needs {c : Config} {j : Job} (hj : j ∈ c.jobs) {need : String}
    (hneed : need ∈ j.needs) :
    need ∈ c.jobs.map Job.id ∧ rank need < rank j.id := by
  obtain ⟨hskip, htest⟩ := c.buildJobId_ne
  have hskipRank : rank checkSkipId = 0 := by decide
  have htestRank : rank testJobId = 1 := by decide
  have hbuildRank : rank c.buildJobId = 2 := by
    rw [rank, if_neg hskip.symm, if_neg htest.symm]
  rw [ids_jobs]
  rcases c.mem_jobs hj with rfl | ⟨hwork, rfl⟩ | rfl
  · cases hneed
  · rw [List.mem_singleton.1 hneed, hskipRank, htestRank]
    exact ⟨List.mem_cons_self, Nat.zero_lt_one⟩
  · rw [List.mem_singleton.1 hneed]
    have hid : c.buildJob.id = c.buildJobId := rfl
    rw [hid, hbuildRank]
    by_cases hwork : c.hasTestWork = true
    · rw [if_pos hwork, if_pos hwork, htestRank]
      exact ⟨by simp, by decide⟩
    · rw [if_neg hwork, if_neg hwork, hskipRank]
      exact ⟨List.mem_cons_self, by decide⟩

theorem keys_jobsIn (c : Config) :
    c.compile.toJson.jobsIn.map Prod.fst = c.jobs.map Job.id := by
  rw [Document.jobsIn_toJson, List.map_map]
  rfl

theorem exists_job_of_mem_jobsIn {c : Config} {p : String × Json}
    (hp : p ∈ c.compile.toJson.jobsIn) : ∃ j ∈ c.jobs, p = (j.id, j.toJson) := by
  rw [Document.jobsIn_toJson] at hp
  obtain ⟨j, hj, rfl⟩ := List.mem_map.1 hp
  exact ⟨j, hj, rfl⟩

theorem rank_lt_of_jobNeeds {c : Config} {id need : String}
    (h : c.compile.toJson.JobNeeds id need) : rank need < rank id := by
  obtain ⟨job, hjob, hneed⟩ := h
  obtain ⟨j, hj, he⟩ := exists_job_of_mem_jobsIn hjob
  obtain ⟨rfl, rfl⟩ := Prod.mk.inj he
  rw [j.needEntries_eq] at hneed
  obtain ⟨_, hmem, hn⟩ := List.mem_map.1 hneed
  obtain rfl := Json.str.inj hn
  exact (mem_needs hj hmem).2

/-- The document of a configuration is a workflow document. -/
theorem isWorkflow_compile (c : Config) : c.compile.toJson.IsWorkflow where
  mapping := ⟨_, rfl⟩
  name := ⟨"React Native CI/CD", rfl, by decide⟩
  triggers := ⟨_, rfl, c.triggerMap_ne_nil⟩
  env := .inr (.inr ⟨_, rfl⟩)
  jobs := ⟨_, rfl, by simp [compile, Config.jobs]⟩
  job p hp := by
    obtain ⟨j, hj, rfl⟩ := exists_job_of_mem_jobsIn hp
    exact (proper_of_mem_jobs hj).isJob
  needs p hp need hneed := by
    obtain ⟨j, hj, rfl⟩ := exists_job_of_mem_jobsIn hp
    rw [j.needEntries_eq] at hneed
    obtain ⟨id, hid, rfl⟩ := List.mem_map.1 hneed
    refine ⟨id, rfl, ?_⟩
    rw [keys_jobsIn]
    exact (mem_needs hj hid).1
  acyclic id hcycle := by
    have hrank : ∀ {a b}, Relation.TransGen c.compile.toJson.JobNeeds a b → rank b < rank a := by
      intro a b h
      induction h with
      | single h => exact rank_lt_of_jobNeeds h
      | tail _ h ih => exact (rank_lt_of_jobNeeds h).trans ih
    exact absurd (hrank hcycle) (Nat.lt_irrefl _)

/-- No part of a compiled document is refused, and no check finds a problem in it. -/
theorem compile_accepted (c : Config) (knots : Knots) :
    c.compile.accept = .ok c.compile ∧
      Validation.problemTexts knots (Value.ofJson c.compile.toJson) = .ok [] := by
  refine ⟨Document.accept_eq fun j hj => proper_of_mem_jobs hj, ?_⟩
  refine Validation.problemTexts_of_isWorkflow knots ?_ c.isWorkflow_compile
  rw [keys_jobsIn]
  exact c.nodup_ids

end Config

end AppPipeline
