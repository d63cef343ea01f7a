import AppPipeline.Proofs.Workflow.Data
import AppPipeline.Proofs.Workflow.Features
import AppPipeline.Proofs.Workflow.Parts

/-!
# Traces of the features

Every feature of a configuration can be read off the data of its document:

* storage, platforms, stores and channels off the environment (`SecretSource`),
* the triggers off the trigger map,
* the package manager, the version of Node and the cache off the first inputs of
  the build job (`Config.firstInput?`),
* the build types and the publication off the names of its steps,
* the tests off the commands of the test job.

So documents hold the same data exactly when the configurations have the same
features (`Config.compile_eq_iff`).
-/

namespace AppPipeline

/-! ## Environment -/

/-- What a document asks secrets for. -/
inductive SecretSource where
  | expo
  | apple
  | storage (s : Storage)
  | stores
  | channel (ch : Channel)
  deriving DecidableEq, Repr

namespace SecretSource

def all : List SecretSource :=
  [.expo, .apple, .storage .githubRelease, .storage .zohoDrive, .storage .googleDrive,
   .storage .custom, .stores, .channel .slack, .channel .discord]

def names : SecretSource → List String
  | expo => ["EXPO_TOKEN"]
  | apple => Config.appleSecrets
  | storage s => s.secrets
  | stores => Config.storeSecrets
  | channel ch => [ch.secretName]

def ofName? (n : String) : Option SecretSource := all.find? fun a => a.names.contains n

/-- No secret serves two sources. -/
theorem ofName?_of_mem {a : SecretSource} {n : String} (hn : n ∈ a.names) :
    ofName? n = some a := by
  have hall : ∀ n ∈ a.names, ofName? n = some a := by
    cases a with
    | storage s => cases s <;> decide
    | channel ch => cases ch <;> decide
    | _ => decide
  exact hall n hn

theorem exists_name (a : SecretSource) : ∃ n, n ∈ a.names := by
  cases a with
  | storage s => cases s <;> exact ⟨_, List.mem_cons_self⟩
  | _ => exact ⟨_, List.mem_cons_self⟩

theorem ne_nodeOptions {a : SecretSource} {n : String} (hn : n ∈ a.names) :
    n ≠ "NODE_OPTIONS" := by
  rintro rfl
  have hnone : ofName? "NODE_OPTIONS" = none := by decide
  rw [ofName?_of_mem hn] at hnone
  cases hnone

/-- The document of the configuration asks for the secrets of the source. -/
def Used (c : Config) : SecretSource → Prop
  | expo => True
  | apple => c.options.iosSupport = true
  | storage s => c.storage = s
  | stores => c.options.publishToStores = true
  | channel ch => ch ∈ c.options.channels

end SecretSource

namespace Config

theorem mem_secretNames {c : Config} {n : String} :
    n ∈ c.secretNames ↔ ∃ a : SecretSource, a.Used c ∧ n ∈ a.names := by
  have hgroups : n ∈ c.secretNames ↔ n = "EXPO_TOKEN" ∨
      (c.options.iosSupport = true ∧ n ∈ appleSecrets) ∨ n ∈ c.storage.secrets ∨
      (c.options.publishToStores = true ∧ n ∈ storeSecrets) ∨
      ∃ ch ∈ c.options.channels, ch.secretName = n := by
    simp [secretNames]
  rw [hgroups]
  constructor
  · rintro (h | ⟨h, hn⟩ | h | ⟨h, hn⟩ | ⟨ch, h, rfl⟩)
    · exact ⟨.expo, trivial, List.mem_singleton.2 h⟩
    · exact ⟨.apple, h, hn⟩
    · exact ⟨.storage c.storage, rfl, h⟩
    · exact ⟨.stores, h, hn⟩
    · exact ⟨.channel ch, h, List.mem_singleton.2 rfl⟩
  · rintro ⟨a, ha, hn⟩
    cases a with
    | expo => exact .inl (List.mem_singleton.1 hn)
    | apple => exact .inr (.inl ⟨ha, hn⟩)
    | storage s => exact .inr (.inr (.inl (ha ▸ hn)))
    | stores => exact .inr (.inr (.inr (.inl ⟨ha, hn⟩)))
    | channel ch => exact .inr (.inr (.inr (.inr ⟨ch, ha, (List.mem_singleton.1 hn).symm⟩)))

/-- One secret of a source shows whether the source is used. -/
theorem isSome_secret {c : Config} {a : SecretSource} {n : String} (hn : n ∈ a.names) :
    (c.compile.toJson.path? ["env", n]).isSome = true ↔ a.Used c := by
  have hkeys : c.compile.env.map Prod.fst = c.secretNames ++ ["NODE_OPTIONS"] := by
    simp [compile, env, Function.comp_def]
  rw [Document.isSome_path?_env, hkeys, List.mem_append, List.mem_singleton,
    or_iff_left (SecretSource.ne_nodeOptions hn), mem_secretNames]
  constructor
  · rintro ⟨b, hb, hnb⟩
    have hab := (SecretSource.ofName?_of_mem hnb).symm.trans (SecretSource.ofName?_of_mem hn)
    exact Option.some.inj hab ▸ hb
  · exact fun ha => ⟨a, ha, hn⟩

end Config

/-! ## Triggers -/

/-- The key of a trigger in the trigger map. -/
def Trigger.key : Trigger → String
  | .pushMain => "push"
  | .pullRequest => "pull_request"
  | .manual => "workflow_dispatch"

theorem Config.isSome_trigger (c : Config) (t : Trigger) :
    (c.compile.toJson.path? ["on", t.key]).isSome = true ↔ t ∈ c.effectiveTriggers := by
  have hon : c.compile.on = c.triggerMap := rfl
  rw [Document.isSome_path?_on, hon, triggerMap_eq]
  by_cases hpush : .pushMain ∈ c.effectiveTriggers <;>
    by_cases hpull : .pullRequest ∈ c.effectiveTriggers <;>
      by_cases hmanual : .manual ∈ c.effectiveTriggers <;>
        cases t <;> simp [Trigger.key, hpush, hpull, hmanual]

/-! ## First inputs -/

theorem Toolchain.findSome?_setupManager (t : Toolchain) {key : String} (hkey : key ≠ "version") :
    t.setupManager.findSome? (Step.input? key) = none := by
  rw [setupManager]
  cases t.setupAction with
  | none => rfl
  | some a =>
    have hinput : (Step.action ("🏗 Setup " ++ t.name) a [("version", .str "9")]).input? key
        = none := by
      simp [Step.input?, Step.action, Json.textAt?, Json.path?, Json.field?, List.lookup_cons,
        beq_false_of_ne hkey]
    simp [hinput]

namespace Config

/-- The first text that a step of the build job is given under a key. -/
def firstInput? (c : Config) (key : String) : Option String :=
  c.buildJobSteps.findSome? (Step.input? key)

/-- The inputs of Node come before those of the dependency cache and of the build tool's own. -/
theorem firstInput?_eq (c : Config) (key : String) (hkey : key ≠ "version") :
    ∃ later : Option String, c.firstInput? key
      = ((Step.action "🏗 Setup Node.js" setupNodeAction
          [("node-version", .str c.nodeVersion),
            ("cache", .str c.packageManager.tools.name)]).input? key).or
        (((if c.options.caching then c.packageManager.tools.cacheSteps else []).findSome?
            (Step.input? key)).or
          ((buildPreparation.findSome? (Step.input? key)).or later)) := by
  have hcheckout : (Step.action "🏗 Checkout repository" checkoutAction []).input? key = none := rfl
  have hinstall : (c.packageManager.tools.installStep
      [c.packageManager.tools.globalCliInstall]).input? key = none := rfl
  refine ⟨(c.builds.map c.buildStep ++ c.publicationSteps ++ c.storeSteps
    ++ c.options.channels.map Channel.step).findSome? (Step.input? key), ?_⟩
  simp only [firstInput?, buildJobSteps, buildSteps, Toolchain.setupSteps, List.cons_append,
    List.append_assoc, List.findSome?_append, List.findSome?_cons, hcheckout, hinstall,
    Toolchain.findSome?_setupManager _ hkey, Option.none_or]
  cases (Step.action "🏗 Setup Node.js" setupNodeAction [("node-version", .str c.nodeVersion),
    ("cache", .str c.packageManager.tools.name)]).input? key <;> rfl

theorem firstInput?_cache (c : Config) :
    c.firstInput? "cache" = some c.packageManager.tools.name := by
  obtain ⟨later, h⟩ := c.firstInput?_eq "cache" (by decide)
  rw [h]
  rfl

theorem firstInput?_nodeVersion (c : Config) :
    c.firstInput? "node-version" = some c.nodeVersion := by
  obtain ⟨later, h⟩ := c.firstInput?_eq "node-version" (by decide)
  rw [h]
  rfl

/-- The build tool's own cache comes first where the dependencies are not cached. -/
theorem firstInput?_path (c : Config) :
    c.firstInput? "path"
      = some (if c.options.caching then
          hosted ("steps." ++ c.packageManager.tools.cacheDirStepId ++ ".outputs.dir")
        else "~/.eas-build-local") := by
  obtain ⟨later, h⟩ := c.firstInput?_eq "path" (by decide)
  rw [h]
  cases c.options.caching <;> rfl

end Config

/-! ## Names of steps -/

namespace Step

/-- The first character of the name of a step. -/
def mark? (s : Step) : Option Char := s.name.bind fun n => n.toList.head?

/-- Builds for Android and publications have other marks. -/
def Plain (s : Step) : Prop := s.mark? ≠ some '📱' ∧ s.mark? ≠ some '🚀'

@[simp]
theorem mark?_shell (name command : String) : (shell name command).mark? = name.toList.head? := rfl

@[simp]
theorem mark?_action (name reference : String) (inputs : List (String × Json)) :
    (action name reference inputs).mark? = name.toList.head? := rfl

@[simp]
theorem mark?_onlyIf (s : Step) (condition : Option String) :
    (s.onlyIf condition).mark? = s.mark? := rfl

@[simp]
theorem mark?_withId (s : Step) (id : String) : (s.withId id).mark? = s.mark? := rfl

@[simp]
theorem mark?_withEnv (s : Step) (env : List (String × String)) :
    (s.withEnv env).mark? = s.mark? := rfl

end Step

theorem Toolchain.plain_of_mem_setupSteps {t : Toolchain} {nodeVersion : String} {caching : Bool}
    {s : Step} (hs : s ∈ t.setupSteps nodeVersion caching) : s.Plain := by
  have hmanager : ∀ s ∈ t.setupManager, s.Plain := by
    rw [setupManager]
    cases t.setupAction <;> simp [Step.Plain]
  refine forall_mem_setupSteps ?_ hmanager ?_ ?_ ?_ s hs <;>
    simp [checkoutStep, setupNode, cacheLookup, cacheRestore, Step.Plain]

theorem Toolchain.plain_installStep (t : Toolchain) (further : List String) :
    (t.installStep further).Plain := by
  simp [installStep, Step.Plain]

theorem plain_or_of_mem_buildPreparation {s : Step} (hs : s ∈ buildPreparation) :
    s.Plain ∨ s.name = some "📱 Setup EAS build cache" := by
  simp only [buildPreparation, List.mem_cons, List.not_mem_nil, or_false] at hs
  rcases hs with rfl | rfl | rfl | rfl
  · exact .inr rfl
  · left; simp [Step.Plain]
  · left; simp [Step.Plain]
  · left; simp [Step.Plain]

theorem Channel.plain_step (ch : Channel) : ch.step.Plain := by
  cases ch <;> simp [step, Step.Plain]

namespace Config

variable {c : Config}

theorem plain_uploadStep (d : Drive) (b : Build) : (c.uploadStep d b).Plain := by
  simp [uploadStep, Step.Plain]

theorem plain_archiveStep : c.archiveStep.Plain := by
  simp [archiveStep, Step.Plain]

theorem plain_of_mem_publicationSteps {s : Step} (hs : s ∈ c.publicationSteps) : s.Plain := by
  refine forall_mem_publicationSteps ?_ (fun d _ => ?_) (fun d _ b _ => plain_uploadStep d b)
    plain_archiveStep ?_ ?_ s hs
  · simp [Drive.setupStep, Step.Plain]
  · simp [Drive.configStep, Step.Plain]
  · simp [buildInfoStep, Step.Plain]
  · simp [releaseStep, Step.Plain]

theorem mark_of_mem_storeSteps : ∀ s ∈ c.storeSteps, s.mark? = some '🏪' ∨
    (s.name = some "🚀 Publish to Expo" ∧ c.options.publishToExpo = true) := by
  refine forall_mem_storeSteps (fun h => .inr ⟨rfl, h⟩) (fun _ => .inl ?_) (fun _ => .inl ?_)
  · simp [manualStep]
  · simp [manualStep]

/-- The steps of the build job that are not plain. -/
theorem cases_of_mem_buildJobSteps : ∀ s ∈ c.buildJobSteps,
    s.Plain ∨ s.name = some "📱 Setup EAS build cache" ∨
      (∃ b ∈ c.builds, s.name = some b.label) ∨ s.mark? = some '🏪' ∨
      (s.name = some "🚀 Publish to Expo" ∧ c.options.publishToExpo = true) :=
  forall_mem_buildJobSteps (fun _ h => .inl (Toolchain.plain_of_mem_setupSteps h))
    (.inl (Toolchain.plain_installStep _ _))
    (fun _ h => (plain_or_of_mem_buildPreparation h).imp_right .inl)
    (fun b hb => .inr (.inr (.inl ⟨b, hb, rfl⟩)))
    (fun _ h => .inl (plain_of_mem_publicationSteps h))
    (fun s h => .inr (.inr (.inr (mark_of_mem_storeSteps s h))))
    (fun channel => .inl channel.plain_step)

/-! ## Build types and publication -/

/-- Every build type has its own build for Android. -/
theorem exists_androidBuild (t : BuildType) : ∃ b ∈ Build.androidBuilds, b.buildTypes = [t] := by
  cases t <;> decide

theorem label_inj {a b : Build} (ha : a ∈ Build.androidBuilds ++ Build.iosBuilds)
    (hb : b ∈ Build.androidBuilds ++ Build.iosBuilds) (h : a.label = b.label) : a = b := by
  have hall : ∀ a ∈ Build.androidBuilds ++ Build.iosBuilds,
      ∀ b ∈ Build.androidBuilds ++ Build.iosBuilds, a.label = b.label → a = b := by decide
  exact hall a ha b hb h

theorem mem_builds_iff {b : Build} (hb : b ∈ Build.androidBuilds) :
    b ∈ c.builds ↔ b.selectedBy c.buildTypes = true := by
  have hios : b ∉ Build.iosBuilds := by
    have hall : ∀ b ∈ Build.androidBuilds, b ∉ Build.iosBuilds := by decide
    exact hall b hb
  rw [builds, List.mem_append, List.mem_filter]
  constructor
  · rintro (⟨_, h⟩ | h)
    · exact h
    · split at h
      · exact absurd (List.mem_filter.1 h).1 hios
      · cases h
  · exact fun h => .inl ⟨hb, h⟩

theorem mem_table_of_mem_builds {b : Build} (h : b ∈ c.builds) :
    b ∈ Build.androidBuilds ++ Build.iosBuilds := by
  rw [builds] at h
  rcases List.mem_append.1 h with h | h
  · exact List.mem_append_left _ (List.mem_filter.1 h).1
  · split at h
    · exact List.mem_append_right _ (List.mem_filter.1 h).1
    · cases h

theorem mark_label {b : Build} (hb : b ∈ Build.androidBuilds) :
    b.label.toList.head? = some '📱' := by
  simp only [Build.androidBuilds, List.mem_cons, List.not_mem_nil, or_false] at hb
  rcases hb with rfl | rfl | rfl <;> simp

/-- A build for Android shows by its name. -/
theorem named_build_iff {b : Build} (hb : b ∈ Build.androidBuilds) :
    some b.label ∈ c.buildJobSteps.map Step.name ↔ b ∈ c.builds := by
  rw [List.mem_map]
  constructor
  · rintro ⟨s, hs, hn⟩
    have hmark : s.mark? = some '📱' := by
      rw [Step.mark?, hn]
      exact mark_label hb
    rcases cases_of_mem_buildJobSteps s hs with h | h | ⟨other, hother, h⟩ | h | ⟨h, _⟩
    · exact absurd hmark h.1
    · rw [h, Option.some.injEq] at hn
      have hne : ∀ b ∈ Build.androidBuilds, "📱 Setup EAS build cache" ≠ b.label := by decide
      exact absurd hn (hne b hb)
    · rw [h, Option.some.injEq] at hn
      exact label_inj (mem_table_of_mem_builds hother) (List.mem_append_left _ hb) hn ▸ hother
    · rw [h] at hmark
      exact absurd hmark (by decide)
    · rw [Step.mark?, h] at hmark
      exact absurd hmark (by decide)
  · intro h
    refine ⟨c.buildStep b, ?_, rfl⟩
    simp only [buildJobSteps, buildSteps, List.mem_append, List.mem_map]
    exact .inl (.inl (.inl (.inr ⟨b, h, rfl⟩)))

theorem named_buildType_iff {t : BuildType} {b : Build} (hb : b ∈ Build.androidBuilds)
    (ht : b.buildTypes = [t]) :
    some b.label ∈ c.buildJobSteps.map Step.name ↔ t ∈ c.buildTypes := by
  rw [named_build_iff hb, mem_builds_iff hb, Build.selectedBy, ht]
  simp

theorem named_publish_iff :
    some "🚀 Publish to Expo" ∈ c.buildJobSteps.map Step.name
      ↔ c.options.publishToExpo = true := by
  rw [List.mem_map]
  constructor
  · rintro ⟨s, hs, hn⟩
    have hmark : s.mark? = some '🚀' := by
      rw [Step.mark?, hn]
      simp
    rcases cases_of_mem_buildJobSteps s hs with h | h | ⟨other, hother, h⟩ | h | ⟨_, h⟩
    · exact absurd hmark h.2
    · exact absurd (h.symm.trans hn) (by decide)
    · have hne : ∀ b ∈ Build.androidBuilds ++ Build.iosBuilds,
          some b.label ≠ some "🚀 Publish to Expo" := by decide
      exact absurd (h.symm.trans hn) (hne other (mem_table_of_mem_builds hother))
    · exact absurd (h.symm.trans hmark) (by decide)
    · exact h
  · intro h
    refine ⟨c.manualStep .android "🚀 Publish to Expo" "eas update --auto --non-interactive", ?_,
      rfl⟩
    simp [buildJobSteps, storeSteps, h]

end Config

/-! ## Documents with the same data -/

/-- What a step runs depends on its name and its text alone. -/
theorem filterMap_command?_eq {xs ys : List Step}
    (h : (xs.map fun s => (s.name, s.run)) = ys.map fun s => (s.name, s.run)) :
    xs.filterMap Step.command? = ys.filterMap Step.command? := by
  have hcommands : ∀ steps : List Step, steps.filterMap Step.command?
      = (steps.map fun s => (s.name, s.run)).filterMap
          fun p => Step.command? { name := p.1, run := p.2 } := by
    intro steps
    rw [List.filterMap_map]
    rfl
  rw [hcommands, h, ← hcommands]

namespace Config

theorem testCommands_eq_filterMap (c : Config) :
    c.testCommands = c.testSteps.filterMap Step.command? := by
  rw [testCommands, testJob?]
  by_cases h : c.hasTestWork = true
  · rw [if_pos h]; rfl
  · rw [if_neg h, testSteps, if_neg h]; rfl

section

variable {c d : Config} (h : Json.Same c.compile.toJson d.compile.toJson)

include h

theorem used_of_same (a : SecretSource) : a.Used c ↔ a.Used d := by
  obtain ⟨n, hn⟩ := a.exists_name
  rw [← isSome_secret hn, ← isSome_secret hn, h.isSome_path?]

theorem storage_of_same : c.storage = d.storage := (used_of_same h (.storage d.storage)).2 rfl

/-- Whatever is read off the items of canonical data is read off the steps. -/
theorem map_buildJobSteps_of_same {β : Type} {f : Json → β}
    (hf : ∀ j, f j.canonical = f j) :
    (c.buildJobSteps.map fun s => f s.toJson) = d.buildJobSteps.map fun s => f s.toJson := by
  have hid : c.buildJobId = d.buildJobId := by
    rw [buildJobId, buildJobId, storage_of_same h]
  have hitems := h.map_items hf ["jobs", c.buildJobId, "steps"]
  rw [itemsAt_buildJobSteps, hid, itemsAt_buildJobSteps, List.map_map, List.map_map] at hitems
  exact hitems

theorem names_of_same : c.buildJobSteps.map Step.name = d.buildJobSteps.map Step.name := by
  have hnames := map_buildJobSteps_of_same h
    (f := fun j => j.textAt? ["name"]) fun j => j.textAt?_canonical _
  simpa only [Step.textAt?_name] using hnames

theorem firstInput?_of_same (key : String) : c.firstInput? key = d.firstInput? key := by
  have hinputs := map_buildJobSteps_of_same h
    (f := fun j => j.textAt? ["with", key]) fun j => j.textAt?_canonical _
  simp only [Step.textAt?_with] at hinputs
  have hfind : ∀ steps : List Step, steps.findSome? (Step.input? key)
      = (steps.map (Step.input? key)).findSome? id := by
    intro steps
    rw [List.findSome?_map]
    rfl
  rw [firstInput?, firstInput?, hfind, hfind]
  exact congrArg _ hinputs

theorem manager_of_same : c.packageManager = d.packageManager := by
  have hname := firstInput?_of_same h "cache"
  rw [firstInput?_cache, firstInput?_cache, Option.some.injEq] at hname
  revert hname
  cases c.packageManager <;> cases d.packageManager <;> decide

theorem nodeVersion_of_same : c.nodeVersion = d.nodeVersion := by
  have hversion := firstInput?_of_same h "node-version"
  rwa [firstInput?_nodeVersion, firstInput?_nodeVersion, Option.some.injEq] at hversion

theorem caching_of_same : c.options.caching = d.options.caching := by
  have hne : ∀ expression, hosted expression ≠ "~/.eas-build-local" := by
    intro expression he
    have hfirst := congrArg (fun s => s.toList.head?) he
    simp [hosted] at hfirst
  have hpath := firstInput?_of_same h "path"
  rw [firstInput?_path, firstInput?_path, Option.some.injEq] at hpath
  cases hc : c.options.caching <;> cases hd : d.options.caching
  · rfl
  · rw [hc, hd] at hpath
    exact absurd hpath.symm (hne _)
  · rw [hc, hd] at hpath
    exact absurd hpath (hne _)
  · rfl

theorem testCommands_of_same : c.testCommands = d.testCommands := by
  have hitems := h.map_items (f := fun j => (j.textAt? ["name"], j.textAt? ["run"]))
    (fun j => by simp only [Json.textAt?_canonical]) ["jobs", testJobId, "steps"]
  rw [itemsAt_testSteps, itemsAt_testSteps, List.map_map, List.map_map] at hitems
  simp only [Function.comp_def, Step.textAt?_name, Step.textAt?_run] at hitems
  rw [testCommands_eq_filterMap, testCommands_eq_filterMap, filterMap_command?_eq hitems]

/-- The tests and the suites are read off the signature. -/
theorem tests_of_same : (∀ k, k ∈ c.tests ↔ k ∈ d.tests) ∧
    ∀ s : Suite, s.selected c.options = s.selected d.options := by
  have hsignature : c.signature = d.signature := by
    rw [signature, signature, testCommands_of_same h]
  have hwork : c.TestsSomething → d.TestsSomething := fun hc =>
    Classical.byContradiction fun hd =>
      (signature_eq_empty_iff c).1 (hsignature.trans ((signature_eq_empty_iff d).2 hd)) hc
  by_cases hc : c.TestsSomething
  · have hsame := (signature_eq_iff_sameTestWork hc (hwork hc)).1 hsignature
    refine ⟨hsame.tests, fun s => ?_⟩
    cases s
    · exact hsame.jest
    · exact hsame.rntl
    · exact hsame.hooks
  · have hd : ¬ d.TestsSomething := by
      rw [← signature_eq_empty_iff, ← hsignature]
      exact (signature_eq_empty_iff c).2 hc
    simp only [TestsSomething, not_or, Decidable.not_not, Bool.not_eq_true] at hc hd
    obtain ⟨hc, hcs⟩ := hc
    obtain ⟨hd, hds⟩ := hd
    refine ⟨fun k => by rw [hc, hd], fun s => ?_⟩
    cases s
    · exact hcs.1.trans hds.1.symm
    · exact hcs.2.1.trans hds.2.1.symm
    · exact hcs.2.2.trans hds.2.2.symm

theorem sameFeatures_of_same : c.SameFeatures d where
  manager := manager_of_same h
  storage := storage_of_same h
  nodeVersion := nodeVersion_of_same h
  buildTypes t := by
    obtain ⟨b, hb, ht⟩ := exists_androidBuild t
    rw [← named_buildType_iff hb ht, names_of_same h, named_buildType_iff hb ht]
  tests := (tests_of_same h).1
  triggers t := by rw [← isSome_trigger, h.isSome_path?, isSome_trigger]
  iosSupport := Bool.eq_iff_iff.2 (used_of_same h .apple)
  publishToExpo := by
    rw [Bool.eq_iff_iff, ← named_publish_iff, names_of_same h, named_publish_iff]
  publishToStores := Bool.eq_iff_iff.2 (used_of_same h .stores)
  jestTests := (tests_of_same h).2 .jest
  rntlTests := (tests_of_same h).2 .rntl
  renderHookTests := (tests_of_same h).2 .hooks
  caching := caching_of_same h
  channels ch := used_of_same h (.channel ch)

end

/-- Documents are equal, and hold the same data, exactly when the features are the same. -/
theorem compile_eq_iff (c d : Config) :
    (c.compile.toJson = d.compile.toJson ↔ c.SameFeatures d) ∧
      (Json.same c.compile.toJson d.compile.toJson = true ↔ c.SameFeatures d) := by
  rw [Json.same_iff]
  refine ⟨⟨fun h => sameFeatures_of_same (congrArg Json.canonical h), fun h => ?_⟩,
    ⟨sameFeatures_of_same, fun h => ?_⟩⟩
  · rw [h.compile_eq]
  · rw [h.compile_eq, Json.Same]

end Config

end AppPipeline
