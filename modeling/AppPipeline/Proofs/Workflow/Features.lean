import AppPipeline.Proofs.Command.TestPhase

/-!
# Features of a configuration

`SameFeatures` says that two configurations select the same; the order and the
repetitions of their collections and the project's name do not count. Every
section of a document is built from some of these features: the test job
(`SameTestJob.testJob?_eq`), the build job (`SameBuildJob.buildJob_eq`), the trigger
map (`SameStarts.triggerMap_eq`) and the environment (`SameSecrets.env_eq`). So the
whole is built from all of them (`SameFeatures.compile_eq`).
-/

namespace AppPipeline.Config

/-- What starts a run: a manual start stands in where nothing is selected. -/
def effectiveTriggers (c : Config) : List Trigger :=
  if c.triggers = [] then [.manual] else c.triggers

/-- The configurations select the same, whatever their collections look like. -/
structure SameFeatures (c d : Config) : Prop where
  manager : c.packageManager = d.packageManager
  storage : c.storage = d.storage
  nodeVersion : c.nodeVersion = d.nodeVersion
  buildTypes : ∀ t, t ∈ c.buildTypes ↔ t ∈ d.buildTypes
  tests : ∀ k, k ∈ c.tests ↔ k ∈ d.tests
  triggers : ∀ t, t ∈ c.effectiveTriggers ↔ t ∈ d.effectiveTriggers
  iosSupport : c.options.iosSupport = d.options.iosSupport
  publishToExpo : c.options.publishToExpo = d.options.publishToExpo
  publishToStores : c.options.publishToStores = d.options.publishToStores
  jestTests : c.options.jestTests = d.options.jestTests
  rntlTests : c.options.rntlTests = d.options.rntlTests
  renderHookTests : c.options.renderHookTests = d.options.renderHookTests
  caching : c.options.caching = d.options.caching
  channels : ∀ n, n ∈ c.options.channels ↔ n ∈ d.options.channels

/-! ## Triggers -/

theorem mem_effectiveTriggers_manual (c : Config) :
    .manual ∈ c.effectiveTriggers ↔ .manual ∈ c.triggers ∨ c.triggers = [] := by
  rw [effectiveTriggers]
  split
  · next h => simp [h]
  · next h => simp [h]

theorem mem_effectiveTriggers_of_ne {t : Trigger} (ht : t ≠ .manual) (c : Config) :
    t ∈ c.effectiveTriggers ↔ t ∈ c.triggers := by
  rw [effectiveTriggers]
  split
  · next h => simp [h, ht]
  · rfl

theorem pushMain_mem_effectiveTriggers (c : Config) :
    .pushMain ∈ c.effectiveTriggers ↔ .pushMain ∈ c.triggers :=
  mem_effectiveTriggers_of_ne (by decide) c

theorem pullRequest_mem_effectiveTriggers (c : Config) :
    .pullRequest ∈ c.effectiveTriggers ↔ .pullRequest ∈ c.triggers :=
  mem_effectiveTriggers_of_ne (by decide) c

/-- The entries of the trigger map, each under its own trigger. -/
theorem triggerMap_eq (c : Config) :
    c.triggerMap =
      (if .pushMain ∈ c.effectiveTriggers then
        [("push", .object
          [("branches", textsJson mainBranches), ("paths-ignore", textsJson ignoredPaths)])]
      else [])
      ++ (if .pullRequest ∈ c.effectiveTriggers then
        [("pull_request", .object [("branches", textsJson mainBranches)])] else [])
      ++ (if .manual ∈ c.effectiveTriggers then
        [("workflow_dispatch", .object [("inputs", .object c.dispatchInputs)])] else []) := by
  -- a manual start is offered if it is asked for, and if nothing else starts a run
  have hmanual : (.manual ∈ c.triggers ∨ .pushMain ∉ c.triggers ∧ .pullRequest ∉ c.triggers)
      ↔ .manual ∈ c.effectiveTriggers := by
    rw [mem_effectiveTriggers_manual]
    constructor
    · rintro (hm | ⟨hpush, hpull⟩)
      · exact .inl hm
      · by_cases hm : .manual ∈ c.triggers
        · exact .inl hm
        · refine .inr (List.eq_nil_iff_forall_not_mem.2 fun t => ?_)
          cases t with
          | pushMain => exact hpush
          | pullRequest => exact hpull
          | manual => exact hm
    · rintro (hm | hnil)
      · exact .inl hm
      · rw [hnil]
        exact .inr ⟨List.not_mem_nil, List.not_mem_nil⟩
  simp only [triggerMap, ← hmanual, pushMain_mem_effectiveTriggers,
    pullRequest_mem_effectiveTriggers, List.contains_iff_mem, Bool.or_eq_true, List.isEmpty_iff,
    List.append_eq_nil_iff]
  by_cases hm : .manual ∈ c.triggers <;> by_cases hpush : .pushMain ∈ c.triggers <;>
    by_cases hpull : .pullRequest ∈ c.triggers <;> simp [hm, hpush, hpull]

/-! ## Channels -/

/-- The channels are told in the order of their table. -/
theorem channels_eq_filter (o : Options) :
    o.channels = [Channel.slack, .discord].filter fun n => o.channels.contains n := by
  obtain ⟨h⟩ | ⟨n, h⟩ : o.channels = [] ∨ ∃ n : Notification, o.channels = n.channels := by
    rw [Options.channels]
    cases o.notifications
    · exact .inl rfl
    · exact .inr ⟨_, rfl⟩
  · rw [h]; rfl
  · rw [h]
    cases n <;> rfl

/-! ## Sections of the document -/

/-- The configurations agree in what their test jobs are made from. -/
structure SameTestJob (c d : Config) : Prop extends c.SameTestWork d where
  nodeVersion : c.nodeVersion = d.nodeVersion

/-- The configurations agree in what their build jobs are made from, besides the job before. -/
structure SameBuildJob (c d : Config) : Prop where
  manager : c.packageManager = d.packageManager
  nodeVersion : c.nodeVersion = d.nodeVersion
  caching : c.options.caching = d.options.caching
  storage : c.storage = d.storage
  buildTypes : ∀ t, t ∈ c.buildTypes ↔ t ∈ d.buildTypes
  iosSupport : c.options.iosSupport = d.options.iosSupport
  publishToExpo : c.options.publishToExpo = d.options.publishToExpo
  publishToStores : c.options.publishToStores = d.options.publishToStores
  channels : ∀ n, n ∈ c.options.channels ↔ n ∈ d.options.channels

/-- The configurations agree in what starts a run and in what can be picked for it. -/
structure SameStarts (c d : Config) : Prop where
  triggers : ∀ t, t ∈ c.effectiveTriggers ↔ t ∈ d.effectiveTriggers
  buildTypes : ∀ t, t ∈ c.buildTypes ↔ t ∈ d.buildTypes
  iosSupport : c.options.iosSupport = d.options.iosSupport

/-- The configurations agree in what needs a secret. -/
structure SameSecrets (c d : Config) : Prop where
  iosSupport : c.options.iosSupport = d.options.iosSupport
  storage : c.storage = d.storage
  publishToStores : c.options.publishToStores = d.options.publishToStores
  channels : ∀ n, n ∈ c.options.channels ↔ n ∈ d.options.channels

section

variable {c d : Config}

theorem channels_eq (h : ∀ n, n ∈ c.options.channels ↔ n ∈ d.options.channels) :
    c.options.channels = d.options.channels := by
  rw [channels_eq_filter c.options, channels_eq_filter d.options, contains_eq_of_mem_iff h]

theorem SameTestJob.testSteps_eq (h : c.SameTestJob d) : c.testSteps = d.testSteps := by
  have hs : Suite.selected c.options = Suite.selected d.options := by
    funext s
    cases s
    · exact h.jest
    · exact h.rntl
    · exact h.hooks
  rw [testSteps, testSteps, checkSteps, checkSteps, h.toSameTestWork.hasTestWork_eq, h.manager,
    h.nodeVersion, h.caching, contains_eq_of_mem_iff h.tests, hs]

theorem SameTestJob.testJob?_eq (h : c.SameTestJob d) : c.testJob? = d.testJob? := by
  rw [testJob?, testJob?, h.toSameTestWork.hasTestWork_eq, h.testSteps_eq]

theorem SameStarts.triggerMap_eq (h : c.SameStarts d) : c.triggerMap = d.triggerMap := by
  have hoffered : c.offeredTypes = d.offeredTypes := by
    rw [offeredTypes, offeredTypes, contains_eq_of_mem_iff h.buildTypes]
  simp only [Config.triggerMap_eq, h.triggers, dispatchInputs, hoffered, h.iosSupport]

theorem SameSecrets.env_eq (h : c.SameSecrets d) : c.env = d.env := by
  rw [env, env, secretNames, secretNames, h.iosSupport, h.storage, h.publishToStores,
    channels_eq h.channels]

end

namespace SameBuildJob

variable {c d : Config} (h : c.SameBuildJob d)

include h

theorem builds_eq : c.builds = d.builds := by
  have hs : Build.selectedBy c.buildTypes = Build.selectedBy d.buildTypes := by
    funext b
    rw [Build.selectedBy, Build.selectedBy, contains_eq_of_mem_iff h.buildTypes]
  rw [builds, builds, hs, h.iosSupport]

theorem platformGuard_eq : c.platformGuard = d.platformGuard := by
  funext p
  rw [platformGuard, platformGuard, h.iosSupport]

theorem buildGuard_eq : c.buildGuard = d.buildGuard := by
  funext b
  rw [buildGuard, buildGuard, h.platformGuard_eq]

theorem buildSteps_eq : c.buildSteps = d.buildSteps := by
  have hs : c.buildStep = d.buildStep := by
    funext b
    rw [buildStep, buildStep, h.buildGuard_eq]
  rw [buildSteps, buildSteps, h.manager, h.nodeVersion, h.caching, h.builds_eq, hs]

theorem publicationSteps_eq : c.publicationSteps = d.publicationSteps := by
  have hu : c.uploadStep = d.uploadStep := by
    funext drive b
    rw [uploadStep, uploadStep, h.buildGuard_eq]
  simp only [publicationSteps, driveSteps, archiveStep, artifacts, h.storage, h.builds_eq, hu,
    h.iosSupport]

theorem storeSteps_eq : c.storeSteps = d.storeSteps := by
  have hm : c.manualStep = d.manualStep := by
    funext p name command
    rw [manualStep, manualStep, h.platformGuard_eq]
  rw [storeSteps, storeSteps, h.publishToExpo, h.publishToStores, h.iosSupport, hm]

theorem buildJobId_eq : c.buildJobId = d.buildJobId := by
  rw [buildJobId, buildJobId, h.storage]

/-- Only the job before may be another. -/
theorem buildJob_eq : c.buildJob = { d.buildJob with needs := c.buildJob.needs } := by
  rw [buildJob, buildJob, h.buildJobId_eq, buildJobSteps, buildJobSteps, h.buildSteps_eq,
    h.publicationSteps_eq, h.storeSteps_eq, channels_eq h.channels, h.iosSupport]

end SameBuildJob

/-! ## The document -/

namespace SameFeatures

variable {c d : Config} (h : c.SameFeatures d)

include h

theorem sameTestJob : c.SameTestJob d :=
  ⟨⟨h.manager, h.tests, h.jestTests, h.rntlTests, h.renderHookTests, h.caching⟩, h.nodeVersion⟩

theorem sameBuildJob : c.SameBuildJob d :=
  ⟨h.manager, h.nodeVersion, h.caching, h.storage, h.buildTypes, h.iosSupport, h.publishToExpo,
    h.publishToStores, h.channels⟩

theorem sameStarts : c.SameStarts d := ⟨h.triggers, h.buildTypes, h.iosSupport⟩

theorem sameSecrets : c.SameSecrets d :=
  ⟨h.iosSupport, h.storage, h.publishToStores, h.channels⟩

/-- The same features compile to the same document. -/
theorem compile_eq : c.compile = d.compile := by
  have hneeds : c.buildJob.needs = d.buildJob.needs := by
    rw [buildJob, buildJob, h.sameTestJob.toSameTestWork.hasTestWork_eq]
  have hbuild : c.buildJob = d.buildJob := by
    rw [h.sameBuildJob.buildJob_eq, hneeds]
  rw [compile, compile, h.sameStarts.triggerMap_eq, h.sameSecrets.env_eq, jobs, jobs,
    h.sameTestJob.testJob?_eq, hbuild]

end SameFeatures

end AppPipeline.Config
