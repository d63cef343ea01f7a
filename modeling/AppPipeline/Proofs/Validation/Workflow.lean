import Mathlib.Logic.Relation
import AppPipeline.Proofs.Pairs
import AppPipeline.Validation.Check

/-!
# Workflows as data

`Json.IsWorkflow` says what a workflow document is, without the checks. Then each
check finds nothing exactly where its part is as it should be:

* `stepProblem?_eq_none_iff` for a step;
* `jobProblems_eq_nil_iff` for a job with its needs;
* `nameProblems_eq_nil_iff`, `triggerProblems_eq_nil_iff`, `envProblems_eq_nil_iff`
  and `jobsProblems_eq_nil_iff` for the parts of a document.
-/

namespace AppPipeline

namespace Json

/-! ## Workflow documents -/

/-- There is a value, and it is a text that is not blank. -/
def Inked (j : Option Json) : Prop := ∃ s, j = some (.str s) ∧ Text.hasInk s = true

/-- A mapping with one of two keys, and a text under it that is not blank. -/
def IsStep (step : Json) : Prop :=
  ∃ fields, step = .object fields ∧
    ((Inked (fields.lookup "run") ∧ fields.lookup "uses" = none) ∨
      (Inked (fields.lookup "uses") ∧ fields.lookup "run" = none))

/-- A mapping with a runner and a list of steps that is not empty. -/
def IsJob (job : Json) : Prop :=
  ∃ fields, job = .object fields ∧ Inked (fields.lookup "runs-on") ∧
    ∃ steps, fields.lookup "steps" = some (.list steps) ∧ steps ≠ [] ∧ ∀ s ∈ steps, IsStep s

/-- The entries of a list, nothing for null, any other value alone. -/
def needEntries : Option Json → List Json
  | none => []
  | some .null => []
  | some (.list needs) => needs
  | some need => [need]

/-- The ids and the jobs of a document. -/
def jobsIn (d : Json) : List (String × Json) :=
  match d.field? "jobs" with
  | some (.object jobs) => jobs
  | _ => []

theorem jobsIn_ne_nil_iff (d : Json) :
    d.jobsIn ≠ [] ↔ ∃ jobs, d.field? "jobs" = some (.object jobs) ∧ jobs ≠ [] := by
  rw [jobsIn]
  cases d.field? "jobs" with
  | none => simp
  | some v => cases v <;> simp

/-- The first job of the document needs the second one. -/
def JobNeeds (d : Json) (id need : String) : Prop :=
  ∃ job, (id, job) ∈ d.jobsIn ∧ .str need ∈ needEntries (job.field? "needs")

structure IsWorkflow (d : Json) : Prop where
  mapping : ∃ fields, d = .object fields
  name : Inked (d.field? "name")
  triggers : ∃ triggers, d.field? "on" = some (.object triggers) ∧ triggers ≠ []
  env : d.field? "env" = none ∨ d.field? "env" = some .null ∨
    ∃ env, d.field? "env" = some (.object env)
  jobs : ∃ jobs, d.field? "jobs" = some (.object jobs) ∧ jobs ≠ []
  job : ∀ p ∈ d.jobsIn, IsJob p.2
  needs : ∀ p ∈ d.jobsIn, ∀ need ∈ needEntries (p.2.field? "needs"),
    ∃ id, need = .str id ∧ id ∈ d.jobsIn.map Prod.fst
  acyclic : ∀ id, ¬ Relation.TransGen d.JobNeeds id id

end Json

namespace Validation

open Json

/-! ## Fields -/

theorem field?_ofFields (fields : List (String × Json)) (key : String) :
    field? (Value.ofFields fields) key = (fields.lookup key).map Value.ofJson := by
  induction fields with
  | nil => rfl
  | cons f rest ih =>
    obtain ⟨k, v⟩ := f
    have hkey : Value.sameKey (.text key) (.text k) = (key == k) := rfl
    rw [field?] at ih ⊢
    rw [Value.ofFields, Value.lookup, hkey, ih, List.lookup_cons]
    cases key == k <;> rfl

theorem part?_ofFields (knots : Knots) (fields : List (String × Json)) (key : String) :
    part? knots (Value.ofFields fields) key = (fields.lookup key).map Value.ofJson := by
  rw [part?, field?_ofFields]
  cases fields.lookup key with
  | none => rfl
  | some v => rw [Option.map_some, Option.map_some, Value.resolve_ofJson]

theorem hasField_ofFields (fields : List (String × Json)) (key : String) :
    hasField (Value.ofFields fields) key = (fields.lookup key).isSome := by
  rw [hasField, field?_ofFields, Option.isSome_map]

theorem inkedField_iff (fields : List (String × Json)) (key : String) :
    inkedField (Value.ofFields fields) key = true ↔ Inked (fields.lookup key) := by
  rw [inkedField, field?_ofFields, Inked]
  cases fields.lookup key with
  | none => simp
  | some v => cases v <;> simp [Value.ofJson, Value.hasInk]

theorem Inked.isSome {j : Option Json} (h : Inked j) : j.isSome = true := by
  obtain ⟨s, rfl, _⟩ := h
  rfl

/-! ## Steps -/

theorem stepProblem?_eq_none_iff (knots : Knots) (step : Json) :
    stepProblem? knots (Value.ofJson step) = none ↔ IsStep step := by
  rw [stepProblem?, Value.resolve_ofJson]
  cases step with
  | object fields =>
    have hstep : IsStep (.object fields) ↔
        (Inked (fields.lookup "run") ∧ fields.lookup "uses" = none) ∨
          (Inked (fields.lookup "uses") ∧ fields.lookup "run" = none) := by
      constructor
      · rintro ⟨_, he, h⟩
        rwa [Json.object.inj he]
      · exact fun h => ⟨fields, rfl, h⟩
    rw [hstep, ← inkedField_iff, ← inkedField_iff]
    simp only [Value.ofJson, hasField_ofFields]
    cases hrun : fields.lookup "run" <;> cases huses : fields.lookup "uses" <;>
      simp [inkedField, field?_ofFields, hrun, huses]
  | _ => simp [Value.ofJson, IsStep]

theorem stepProblems_eq_nil_iff (knots : Knots) (index : Nat) (steps : List Json) :
    stepProblems knots index (steps.map Value.ofJson) = [] ↔ ∀ s ∈ steps, IsStep s := by
  induction steps generalizing index with
  | nil => simp [stepProblems]
  | cons s rest ih =>
    rw [List.map_cons, stepProblems, List.append_eq_nil_iff, ih, List.forall_mem_cons,
      ← stepProblem?_eq_none_iff knots s]
    refine and_congr ?_ Iff.rfl
    cases stepProblem? knots (Value.ofJson s) <;> simp

/-! ## Jobs -/

theorem stepsProblems_eq_nil_iff (knots : Knots) (fields : List (String × Json)) :
    stepsProblems knots (Value.ofFields fields) = [] ↔
      ∃ steps, fields.lookup "steps" = some (.list steps) ∧ steps ≠ [] ∧
        ∀ s ∈ steps, IsStep s := by
  rw [stepsProblems, stepsOf, part?_ofFields]
  cases fields.lookup "steps" with
  | none => simp
  | some v =>
    cases v with
    | list steps =>
      rw [Option.map_some, Value.ofJson, Value.ofItems_eq_map]
      cases steps with
      | nil => simp
      | cons s rest =>
        rw [List.map_cons]
        dsimp only
        rw [← List.map_cons, stepProblems_eq_nil_iff]
        simp
    | _ => simp [Value.ofJson]

theorem runnerProblems_eq_nil_iff (fields : List (String × Json)) :
    runnerProblems (Value.ofFields fields) = [] ↔ Inked (fields.lookup "runs-on") := by
  rw [runnerProblems, ← inkedField_iff]
  split
  · next h => simp [h]
  · next h => simp [h]

theorem needsOf_ofJson (knots : Knots) (need : Option Json) :
    needsOf knots (need.map Value.ofJson) = (needEntries need).map Value.ofJson := by
  cases need with
  | none => rfl
  | some need =>
    rw [Option.map_some, needsOf, Value.resolve_ofJson]
    cases need with
    | list needs => rw [Value.ofJson, Value.ofItems_eq_map]; rfl
    | _ => rfl

theorem isKnown_iff (jobs : List (String × Json)) (need : Json) :
    isKnown (Value.ofFields jobs) (Value.ofJson need) = true ↔
      ∃ id, need = .str id ∧ id ∈ jobs.map Prod.fst := by
  cases need with
  | str s =>
    have hfield := field?_ofFields jobs s
    rw [field?] at hfield
    rw [Value.ofJson, isKnown, hfield, Option.isSome_map, isSome_lookup]
    simp
  | _ => simp [Value.ofJson, isKnown]

theorem needsProblems_eq_nil_iff (knots : Knots) (jobs fields : List (String × Json)) :
    needsProblems knots (Value.ofFields jobs) (Value.ofFields fields) = [] ↔
      ∀ need ∈ needEntries (fields.lookup "needs"),
        ∃ id, need = .str id ∧ id ∈ jobs.map Prod.fst := by
  rw [needsProblems, field?_ofFields, needsOf_ofJson, List.map_eq_nil_iff, List.filter_eq_nil_iff]
  simp only [List.forall_mem_map, Bool.not_eq_true', Bool.not_eq_false, isKnown_iff]

theorem jobProblems_eq_nil_iff (knots : Knots) (jobs : List (String × Json)) (job : Json) :
    jobProblems knots (Value.ofFields jobs) (Value.ofJson job) = [] ↔
      IsJob job ∧ ∀ need ∈ needEntries (job.field? "needs"),
        ∃ id, need = .str id ∧ id ∈ jobs.map Prod.fst := by
  rw [jobProblems, Value.resolve_ofJson]
  cases job with
  | object fields =>
    rw [Value.ofJson]
    dsimp only
    rw [List.append_eq_nil_iff, List.append_eq_nil_iff, runnerProblems_eq_nil_iff,
      stepsProblems_eq_nil_iff, needsProblems_eq_nil_iff]
    refine and_congr ?_ Iff.rfl
    constructor
    · exact fun h => ⟨fields, rfl, h⟩
    · rintro ⟨_, he, h⟩
      rwa [Json.object.inj he]
  | _ => simp [Value.ofJson, IsJob]

/-! ## Documents -/

theorem nameProblems_eq_nil_iff (fields : List (String × Json)) :
    nameProblems (Value.ofFields fields) = [] ↔ Inked (fields.lookup "name") := by
  rw [nameProblems, ← inkedField_iff]
  split
  · next h => simp [h]
  · next h => simp [h]

/-- No text key is a truth value. -/
theorem lookup_bool_ofFields (b : Bool) (fields : List (String × Json)) :
    Value.lookup (.bool b) (Value.ofFields fields) = none := by
  induction fields with
  | nil => rfl
  | cons f rest ih =>
    obtain ⟨k, v⟩ := f
    have hkey : Value.sameKey (.bool b) (.text k) = false := rfl
    rw [Value.ofFields, Value.lookup, hkey, ih]
    rfl

theorem triggerProblems_eq_nil_iff (knots : Knots) (fields : List (String × Json)) :
    triggerProblems knots (Value.ofFields fields) = [] ↔
      ∃ triggers, fields.lookup "on" = some (.object triggers) ∧ triggers ≠ [] := by
  rw [triggerProblems, triggers?, field?_ofFields, lookup_bool_ofFields]
  cases fields.lookup "on" with
  | none => simp
  | some v =>
    rw [Option.map_some]
    dsimp only
    rw [Option.map_some, Value.resolve_ofJson]
    cases v with
    | object triggers =>
      cases triggers with
      | nil => simp [Value.ofJson, Value.ofFields]
      | cons t rest => simp [Value.ofJson, Value.ofFields]
    | _ => simp [Value.ofJson]

theorem envProblems_eq_nil_iff (knots : Knots) (fields : List (String × Json)) :
    envProblems knots (Value.ofFields fields) = [] ↔
      fields.lookup "env" = none ∨ fields.lookup "env" = some .null ∨
        ∃ env, fields.lookup "env" = some (.object env) := by
  rw [envProblems, part?_ofFields]
  cases fields.lookup "env" with
  | none => simp
  | some v => cases v <;> simp [Value.ofJson]

theorem jobsOf_ofFields (knots : Knots) (fields : List (String × Json)) :
    jobsOf knots (Value.ofFields fields) = Value.ofFields (jobsIn (.object fields)) := by
  rw [jobsOf, jobsIn, part?_ofFields, Json.field?]
  cases fields.lookup "jobs" with
  | none => rfl
  | some v => cases v <;> rfl

theorem jobsProblems_eq_nil_iff (knots : Knots) (jobs : List (String × Json)) :
    jobsProblems knots (Value.ofFields jobs) = [] ↔ jobs ≠ [] ∧
      ∀ p ∈ jobs, jobProblems knots (Value.ofFields jobs) (Value.ofJson p.2) = [] := by
  rw [jobsProblems]
  cases jobs with
  | nil => simp [Value.ofFields]
  | cons j rest =>
    rw [if_neg (by simp [Value.ofFields_eq_map]), List.flatMap_eq_nil_iff]
    simp only [Value.ofFields_eq_map, List.forall_mem_map, List.map_eq_nil_iff]
    simp

end Validation

end AppPipeline
