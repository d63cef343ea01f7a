import Mathlib.Data.List.Basic
import AppPipeline.Proofs.Command.TestPhase

/-!
# Commands of more features

`Within c d` says that a configuration `d` selects all that `c` selects, with the same
package manager and the same storage. Then `d` runs what `c` runs, in the same order and
perhaps with further commands between:

* `Within.testCommands_sublist` for the test job;
* `Within.buildSteps_sublist`, `Within.publicationSteps_sublist` and
  `Within.storeSteps_sublist` for the parts of the build job, whose steps may stand under
  other conditions;
* `commands_sublist` for both jobs.
-/

namespace AppPipeline

/-! ## Parts that may be left out -/

theorem sublist_ite {α : Type} {p q : Bool} (h : p = true → q = true) {xs ys : List α}
    (hxs : xs.Sublist ys) : (if p then xs else []).Sublist (if q then ys else []) := by
  cases p with
  | false => exact List.nil_sublist _
  | true => rwa [h rfl]

theorem Channel.command?_step (channel : Channel) : channel.step.command? = none := by
  cases channel <;> rfl

namespace Config

/-- All that the first configuration selects, the second one selects too. The triggers, the
notifications and the version of Node do not count. -/
structure Within (c d : Config) : Prop where
  manager : c.packageManager = d.packageManager
  storage : c.storage = d.storage
  tests : ∀ k ∈ c.tests, k ∈ d.tests
  buildTypes : ∀ t ∈ c.buildTypes, t ∈ d.buildTypes
  iosSupport : c.options.iosSupport = true → d.options.iosSupport = true
  publishToExpo : c.options.publishToExpo = true → d.options.publishToExpo = true
  publishToStores : c.options.publishToStores = true → d.options.publishToStores = true
  jestTests : c.options.jestTests = true → d.options.jestTests = true
  rntlTests : c.options.rntlTests = true → d.options.rntlTests = true
  renderHookTests : c.options.renderHookTests = true → d.options.renderHookTests = true
  caching : c.options.caching = true → d.options.caching = true

namespace Within

variable {c d : Config} (h : c.Within d)

include h

/-! ## The test job -/

theorem testsSomething (hc : c.TestsSomething) : d.TestsSomething := by
  rcases hc with htests | hjest | hrntl | hhooks
  · obtain ⟨k, hk⟩ := List.exists_mem_of_ne_nil c.tests htests
    exact .inl (List.ne_nil_of_mem (h.tests k hk))
  · exact .inr (.inl (h.jestTests hjest))
  · exact .inr (.inr (.inl (h.rntlTests hrntl)))
  · exact .inr (.inr (.inr (h.renderHookTests hhooks)))

theorem hasTestWork (hc : c.hasTestWork = true) : d.hasTestWork = true :=
  (hasTestWork_iff d).2 (h.testsSomething ((hasTestWork_iff c).1 hc))

theorem selected (s : Suite) (hs : s.selected c.options = true) :
    s.selected d.options = true := by
  cases s
  · exact h.jestTests hs
  · exact h.rntlTests hs
  · exact h.renderHookTests hs

theorem testTasks_sublist : c.testTasks.Sublist d.testTasks := by
  have hchecks : ∀ k : TestKind, c.tests.contains k = true → d.tests.contains k = true := by
    intro k hk
    rw [List.contains_iff_mem] at hk ⊢
    exact h.tests k hk
  have htasks : c.checkTasks.Sublist d.checkTasks :=
    ((List.monotone_filter_right _ hchecks).map _).append
      ((List.monotone_filter_right _ h.selected).map _)
  exact (sublist_ite h.caching (List.Sublist.refl _)).append (htasks.cons_cons _)

theorem testCommands_sublist : c.testCommands.Sublist d.testCommands := by
  rw [testCommands_eq, testCommands_eq, h.manager]
  exact sublist_ite h.hasTestWork (h.testTasks_sublist.map _)

/-! ## The build job -/

theorem selectedBy (b : Build) (hb : b.selectedBy c.buildTypes = true) :
    b.selectedBy d.buildTypes = true := by
  obtain ⟨t, ht, hc⟩ := List.any_eq_true.1 hb
  rw [List.contains_iff_mem] at hc
  exact List.any_eq_true.2 ⟨t, ht, List.contains_iff_mem.2 (h.buildTypes t hc)⟩

theorem builds_sublist : c.builds.Sublist d.builds :=
  (List.monotone_filter_right _ h.selectedBy).append
    (sublist_ite h.iosSupport (List.monotone_filter_right _ h.selectedBy))

theorem buildSteps_sublist :
    (c.buildSteps.filterMap Step.command?).Sublist (d.buildSteps.filterMap Step.command?) := by
  have hsteps : ∀ e : Config, (e.builds.map e.buildStep).filterMap Step.command?
      = e.builds.filterMap fun b => (Step.shell b.label b.command).command? := by
    intro e
    rw [List.filterMap_map]
    rfl
  simp only [buildSteps, List.filterMap_append, Toolchain.filterMap_setupSteps, hsteps, h.manager]
  exact ((sublist_ite h.caching (List.Sublist.refl _)).append (List.Sublist.refl _)).append
    (h.builds_sublist.filterMap _)

theorem uploadSteps_sublist (drive : Drive) :
    ((c.builds.map (c.uploadStep drive)).filterMap Step.command?).Sublist
      ((d.builds.map (d.uploadStep drive)).filterMap Step.command?) := by
  -- the same builds are uploaded by the same command in both configurations
  have hupload : Step.command? ∘ c.uploadStep drive = Step.command? ∘ d.uploadStep drive := rfl
  rw [List.filterMap_map, List.filterMap_map, hupload]
  exact h.builds_sublist.filterMap _

theorem isEmpty_builds (hd : d.builds.isEmpty = true) : c.builds.isEmpty = true := by
  rw [List.isEmpty_iff] at hd ⊢
  exact List.sublist_nil.1 (hd ▸ h.builds_sublist)

theorem publicationSteps_sublist :
    (c.publicationSteps.filterMap Step.command?).Sublist
      (d.publicationSteps.filterMap Step.command?) := by
  rw [publicationSteps, publicationSteps, h.storage]
  cases d.storage.drive? with
  | some drive =>
    have hdrive : ∀ e : Config, e.driveSteps drive
        = [Step.action "🏗 Setup rclone" "AnimMouse/setup-rclone@v1" [("version", .str "latest")],
            Step.shell ("📤 Configure " ++ drive.label) drive.configScript]
          ++ e.builds.map (e.uploadStep drive) := fun _ => rfl
    have harchive : ∀ e : Config,
        (if e.builds.isEmpty then [] else [e.archiveStep]).filterMap Step.command? = [] := by
      intro e
      split <;> rfl
    simp only [hdrive, List.filterMap_append, harchive, List.append_nil]
    exact (List.Sublist.refl _).append (h.uploadSteps_sublist drive)
  | none =>
    dsimp only
    split
    · exact List.nil_sublist _
    · next hc =>
      rw [if_neg fun hd => hc (h.isEmpty_builds hd)]
      exact List.Sublist.refl _

theorem storeSteps_sublist :
    (c.storeSteps.filterMap Step.command?).Sublist (d.storeSteps.filterMap Step.command?) := by
  have hstep : ∀ (e : Config) (p : Platform) (name command : String) (on : Bool),
      (if on then [e.manualStep p name command] else []).filterMap Step.command?
        = if on then [Step.shell name command].filterMap Step.command? else [] := by
    intro e p name command on
    cases on <;> rfl
  have hios : (c.options.publishToStores && c.options.iosSupport) = true →
      (d.options.publishToStores && d.options.iosSupport) = true := by
    rw [Bool.and_eq_true, Bool.and_eq_true]
    exact And.imp h.publishToStores h.iosSupport
  simp only [storeSteps, List.filterMap_append, hstep]
  exact ((sublist_ite h.publishToExpo (List.Sublist.refl _)).append
    (sublist_ite h.publishToStores (List.Sublist.refl _))).append
      (sublist_ite hios (List.Sublist.refl _))

theorem buildJob_sublist : c.buildJob.commands.Sublist d.buildJob.commands := by
  have hchannels : ∀ e : Config,
      (e.options.channels.map Channel.step).filterMap Step.command? = [] := by
    intro e
    rw [List.filterMap_map, List.filterMap_eq_nil_iff]
    exact fun channel _ => channel.command?_step
  simp only [Job.commands, buildJob, buildJobSteps, List.filterMap_append, hchannels,
    List.append_nil]
  exact (h.buildSteps_sublist.append h.publicationSteps_sublist).append h.storeSteps_sublist

end Within

/-! ## Both jobs -/

/-- Whatever else is selected besides, the commands of a configuration stay as they are and in
their order. -/
theorem commands_sublist {c d : Config} (h : c.Within d) :
    (c.commands true true).Sublist (d.commands true true) :=
  h.testCommands_sublist.append h.buildJob_sublist

/-- A linter, builds for a second platform and a store are added to a drive with one build. -/
theorem commands_sublist_store :
    let c : Config :=
      { storage := .custom, buildTypes := [.dev], tests := [.prettier]
        options := { caching := false } }
    let d : Config :=
      { storage := .custom, buildTypes := [.prodApk, .dev], tests := [.eslint, .prettier]
        options := { iosSupport := true, publishToStores := true, jestTests := true } }
    c.Within d ∧ (c.commands true true).Sublist (d.commands true true) ∧
      (c.commands true true).length = 9 ∧ (d.commands true true).length = 21 := by
  intro c d
  have h : c.Within d := by
    refine ⟨rfl, rfl, ?_, ?_, ?_, ?_, ?_, ?_, ?_, ?_, ?_⟩ <;> decide
  exact ⟨h, commands_sublist h, by decide +kernel, by decide +kernel⟩

end Config

end AppPipeline
