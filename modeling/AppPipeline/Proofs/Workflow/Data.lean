import AppPipeline.Proofs.Json.Same
import AppPipeline.Workflow.Compile

/-!
# The data form of a document

What stands where in `Document.toJson`: the keys of the trigger map and of the
environment, the steps of a job under its id (`Document.itemsAt_steps`) and the
texts of a step. A compiled document has its test job and its build job under
their ids (`Config.job?_test`, `Config.job?_build`).
-/

namespace AppPipeline

/-! ## Steps -/

namespace Step

theorem lookup_textField (key other : String) (text : Option String) :
    (textField key text).lookup other = if other = key then text.map .str else none := by
  cases text with
  | none => simp [textField]
  | some t =>
    by_cases h : other = key
    · simp [textField, h]
    · simp [textField, List.lookup_cons, h, beq_false_of_ne h]

theorem lookup_objectField (key other : String) (fields : List (String × Json)) :
    (objectField key fields).lookup other
      = if other = key ∧ fields ≠ [] then some (.object fields) else none := by
  cases fields with
  | nil => simp [objectField]
  | cons f fs =>
    by_cases h : other = key
    · simp [objectField, h]
    · simp [objectField, List.lookup_cons, h, beq_false_of_ne h]

theorem field?_name (s : Step) : s.toJson.field? "name" = s.name.map .str := by
  simp [toJson, Json.field?, List.lookup_append, lookup_textField, lookup_objectField]

theorem field?_run (s : Step) : s.toJson.field? "run" = s.run.map .str := by
  simp [toJson, Json.field?, List.lookup_append, lookup_textField, lookup_objectField]

theorem field?_with (s : Step) :
    s.toJson.field? "with" = if s.inputs ≠ [] then some (.object s.inputs) else none := by
  simp [toJson, Json.field?, List.lookup_append, lookup_textField, lookup_objectField]

theorem textAt?_name (s : Step) : s.toJson.textAt? ["name"] = s.name := by
  rw [Json.textAt?, Json.path?, field?_name]
  cases s.name <;> rfl

theorem textAt?_run (s : Step) : s.toJson.textAt? ["run"] = s.run := by
  rw [Json.textAt?, Json.path?, field?_run]
  cases s.run <;> rfl

/-- The text that a step is given under a key. -/
def input? (key : String) (s : Step) : Option String := (Json.object s.inputs).textAt? [key]

theorem textAt?_with (s : Step) (key : String) :
    s.toJson.textAt? ["with", key] = s.input? key := by
  rw [input?, Json.textAt?, Json.path?, field?_with]
  by_cases h : s.inputs = []
  · rw [h]; rfl
  · rw [if_pos h]; rfl

end Step

/-! ## Jobs and documents -/

theorem Job.field?_steps (j : Job) :
    j.toJson.field? "steps" = some (.list (j.steps.map Step.toJson)) := by
  have hneeds : (if j.needs.isEmpty then []
      else [("needs", needsJson j.needs)]).lookup "steps" = none := by
    split <;> rfl
  have hlast : [("runs-on", Json.str j.runsOn),
      ("steps", .list (j.steps.map Step.toJson))].lookup "steps"
      = some (.list (j.steps.map Step.toJson)) := rfl
  rw [toJson, Json.field?]
  simp only [List.lookup_append, hneeds, Step.lookup_textField, Step.lookup_objectField, hlast]
  rfl

theorem Job.path?_steps (j : Job) :
    j.toJson.path? ["steps"] = some (.list (j.steps.map Step.toJson)) := by
  rw [Json.path?, j.field?_steps]
  rfl

namespace Document

theorem isSome_path?_on (d : Document) (key : String) :
    (d.toJson.path? ["on", key]).isSome = true ↔ key ∈ d.on.map Prod.fst := by
  rw [← Json.isSome_field?_object]
  have hon : d.toJson.path? ["on", key] = ((Json.object d.on).field? key).bind some := rfl
  rw [hon, Option.bind_fun_some]

theorem isSome_path?_env (d : Document) (key : String) :
    (d.toJson.path? ["env", key]).isSome = true ↔ key ∈ d.env.map Prod.fst := by
  have hkeys : (d.env.map fun e => (e.1, Json.str e.2)).map Prod.fst = d.env.map Prod.fst := by
    rw [List.map_map]; rfl
  have henv : d.toJson.path? ["env", key]
      = ((Json.object (d.env.map fun e => (e.1, .str e.2))).field? key).bind some := rfl
  rw [henv, Option.bind_fun_some, Json.isSome_field?_object, hkeys]

theorem path?_job (d : Document) (id : String) :
    d.toJson.path? ["jobs", id] = (d.job? id).map Job.toJson := by
  have hlookup : ∀ jobs : List Job, (jobs.map fun j => (j.id, j.toJson)).lookup id
      = (jobs.find? fun j => j.id == id).map Job.toJson := by
    intro jobs
    induction jobs with
    | nil => rfl
    | cons j rest ih =>
      rw [List.map_cons, List.lookup_cons, List.find?_cons, ih, BEq.comm]
      cases j.id == id <;> rfl
  have hjobs : d.toJson.path? ["jobs", id]
      = ((d.jobs.map fun j => (j.id, j.toJson)).lookup id).bind some := rfl
  rw [hjobs, hlookup, Option.bind_fun_some, job?]

/-- The steps under the id of a job; none where no job has it. -/
theorem itemsAt_steps (d : Document) (id : String) :
    d.toJson.itemsAt ["jobs", id, "steps"]
      = (((d.job? id).map Job.steps).getD []).map Step.toJson := by
  have hpath : d.toJson.path? ["jobs", id, "steps"]
      = (d.toJson.path? ["jobs", id]).bind fun v => v.path? ["steps"] :=
    Json.path?_append d.toJson ["jobs", id] ["steps"]
  rw [Json.itemsAt, hpath, path?_job]
  cases d.job? id with
  | none => rfl
  | some j => rw [Option.map_some, Option.bind_some, Job.path?_steps]; rfl

end Document

/-! ## Compiled documents -/

namespace Config

theorem buildJobId_ne (c : Config) : checkSkipId ≠ c.buildJobId ∧ testJobId ≠ c.buildJobId := by
  rw [buildJobId]
  cases c.storage <;> decide

theorem job?_test (c : Config) : c.compile.job? testJobId = c.testJob? := by
  have hskip : (checkSkipJob.id == testJobId) = false := by decide
  have hbuild : (c.buildJob.id == testJobId) = false := beq_false_of_ne c.buildJobId_ne.2.symm
  rw [Document.job?, compile, jobs, List.cons_append, List.find?_cons, hskip, testJob?]
  by_cases h : c.hasTestWork = true
  · rw [if_pos h]; rfl
  · rw [if_neg h]
    simp [hbuild]

theorem job?_build (c : Config) : c.compile.job? c.buildJobId = some c.buildJob := by
  have hskip : (checkSkipJob.id == c.buildJobId) = false := beq_false_of_ne c.buildJobId_ne.1
  have htest : (testJobId == c.buildJobId) = false := beq_false_of_ne c.buildJobId_ne.2
  have hbuild : (c.buildJob.id == c.buildJobId) = true := beq_self_eq_true c.buildJobId
  rw [Document.job?, compile, jobs, List.cons_append, List.find?_cons, hskip, testJob?]
  by_cases h : c.hasTestWork = true
  · rw [if_pos h]
    simp [htest, hbuild]
  · rw [if_neg h]
    simp [hbuild]

/-- The steps of the test job, none without one. -/
theorem itemsAt_testSteps (c : Config) :
    c.compile.toJson.itemsAt ["jobs", testJobId, "steps"] = c.testSteps.map Step.toJson := by
  rw [Document.itemsAt_steps, job?_test, testJob?]
  by_cases h : c.hasTestWork = true
  · rw [if_pos h]; rfl
  · rw [if_neg h, testSteps, if_neg h]; rfl

theorem itemsAt_buildJobSteps (c : Config) :
    c.compile.toJson.itemsAt ["jobs", c.buildJobId, "steps"]
      = c.buildJobSteps.map Step.toJson := by
  rw [Document.itemsAt_steps, job?_build]
  rfl

end Config

end AppPipeline
