import AppPipeline.Proofs.Workflow.Data
import AppPipeline.Proofs.Workflow.Features

/-!
# Sections of a document do not interfere

A section of a compiled document shows nothing of the features that it is not built
from (`Config.sections_independent`): two configurations that agree in what the test job
is made from have the same test job, or both have none, whatever else they select, and
likewise for the build job, the trigger map and the environment. Of two build jobs only
the job before may be another.
-/

namespace AppPipeline.Config

/-- The triggers count as a set. -/
theorem mem_effectiveTriggers_congr {c d : Config} (h : ∀ t, t ∈ c.triggers ↔ t ∈ d.triggers)
    (t : Trigger) : t ∈ c.effectiveTriggers ↔ t ∈ d.effectiveTriggers := by
  have hnil : c.triggers = [] ↔ d.triggers = [] := by
    simp only [List.eq_nil_iff_forall_not_mem, h]
  by_cases ht : t = .manual
  · rw [ht, mem_effectiveTriggers_manual, mem_effectiveTriggers_manual, h, hnil]
  · rw [mem_effectiveTriggers_of_ne ht, mem_effectiveTriggers_of_ne ht, h]

/-- Each section is the same wherever the features are the same that it is built from. -/
theorem sections_independent (c d : Config) :
    (c.SameTestJob d → c.compile.job? testJobId = d.compile.job? testJobId) ∧
    (c.SameBuildJob d → c.buildJobId = d.buildJobId ∧ ∃ j needs,
      c.compile.job? c.buildJobId = some j ∧
        d.compile.job? d.buildJobId = some { j with needs := needs }) ∧
    ((∀ t, t ∈ c.triggers ↔ t ∈ d.triggers) → (∀ t, t ∈ c.buildTypes ↔ t ∈ d.buildTypes) →
      c.options.iosSupport = d.options.iosSupport → c.compile.on = d.compile.on) ∧
    (c.SameSecrets d → c.compile.env = d.compile.env) := by
  refine ⟨fun h => ?_, fun h => ⟨h.buildJobId_eq, c.buildJob, d.buildJob.needs, ?_, ?_⟩,
    fun htriggers hbuildTypes hios => ?_, fun h => h.env_eq⟩
  · rw [job?_test, job?_test, h.testJob?_eq]
  · exact c.job?_build
  · rw [job?_build, h.buildJob_eq]
  · have hstarts : c.SameStarts d :=
      ⟨mem_effectiveTriggers_congr htriggers, hbuildTypes, hios⟩
    exact hstarts.triggerMap_eq

/-- Another drive and a store leave the test job as it is; a test gives the build job another
job before, and no more. -/
theorem sections_independent_store :
    let c : Config := { storage := .custom, tests := [.eslint], triggers := [.pushMain] }
    let d : Config :=
      { storage := .googleDrive, tests := [.eslint, .eslint], buildTypes := [.dev]
        options := { publishToStores := true } }
    let e : Config := { storage := .custom, triggers := [.manual, .pullRequest] }
    c.SameTestJob d ∧ c.compile.job? testJobId = d.compile.job? testJobId ∧
      c.SameBuildJob e ∧ c.buildJob.needs ≠ e.buildJob.needs ∧
      (∃ j needs, c.compile.job? c.buildJobId = some j ∧
        e.compile.job? e.buildJobId = some { j with needs := needs }) ∧
      c.SameSecrets e ∧ c.compile.env = e.compile.env := by
  intro c d e
  have htest : c.SameTestJob d := by
    refine ⟨⟨rfl, ?_, rfl, rfl, rfl, rfl⟩, rfl⟩
    intro k
    cases k <;> decide
  have hbuild : c.SameBuildJob e :=
    ⟨rfl, rfl, rfl, rfl, fun _ => Iff.rfl, rfl, rfl, rfl, fun _ => Iff.rfl⟩
  have hsecrets : c.SameSecrets e := ⟨rfl, rfl, rfl, fun _ => Iff.rfl⟩
  exact ⟨htest, (sections_independent c d).1 htest, hbuild, by decide,
    ((sections_independent c e).2.1 hbuild).2, hsecrets,
    (sections_independent c e).2.2.2 hsecrets⟩

end AppPipeline.Config
