import AppPipeline.Proofs.Workflow.Accepted
import AppPipeline.Proofs.Workflow.Referring
import AppPipeline.Proofs.Workflow.Traces

/-!
# Compiled documents are closed

The ids of steps differ in every job. No step asks for a secret, nor for a leg where its
job has none, and the configuration of a drive reads its secrets (`Step.Contained`). All
secrets are asked for by the environment (`Config.secrets_compile`).

Together, nothing in a compiled document refers to what is not there
(`Config.compile_closed`).
-/

namespace AppPipeline

open Text (Avoids Stands findsAny spelled_ofList avoids_of_spelled outputsIn secretsIn
  variablesIn)

/-! ## Ids of steps -/

theorem filterMap_id_eq_nil {steps : List Step} (h : ∀ s ∈ steps, s.id = none) :
    steps.filterMap Step.id = [] := List.filterMap_eq_nil_iff.2 h

theorem ids_setupSteps (m : PackageManager) (nodeVersion : String) (caching : Bool) :
    ((m.tools.setupSteps nodeVersion caching).filterMap Step.id).Sublist
      [m.tools.cacheDirStepId] := by
  cases caching with
  | false => cases m <;> exact List.nil_sublist _
  | true => cases m <;> exact List.Sublist.refl _

namespace Config

/-- Only the step that collects what a release is called has an id. -/
theorem ids_publicationSteps (c : Config) :
    (c.publicationSteps.filterMap Step.id).Sublist ["build-info"] := by
  cases hd : c.storage.drive? with
  | some d =>
    have hnone : c.publicationSteps.filterMap Step.id = [] := by
      refine filterMap_id_eq_nil fun s hs => ?_
      rw [publicationSteps, hd] at hs
      simp only [driveSteps, List.cons_append, List.mem_cons, List.mem_append,
        List.mem_map] at hs
      rcases hs with rfl | rfl | ⟨b, _, rfl⟩ | hs
      · rfl
      · rfl
      · rfl
      · split at hs
        · cases hs
        · rw [List.mem_singleton.1 hs]
          rfl
    rw [hnone]
    exact List.nil_sublist _
  | none =>
    rw [publicationSteps, hd]
    dsimp only
    split
    · exact List.nil_sublist _
    · exact List.Sublist.refl _

theorem ids_buildJobSteps (c : Config) : (c.buildJobSteps.filterMap Step.id).Sublist
    [c.packageManager.tools.cacheDirStepId, "build-info"] := by
  have hpreparation : buildPreparation.filterMap Step.id = [] := rfl
  have hbuilds : (c.builds.map c.buildStep).filterMap Step.id = [] :=
    filterMap_id_eq_nil (List.forall_mem_map.2 fun _ _ => rfl)
  have hstores : c.storeSteps.filterMap Step.id = [] := by
    refine filterMap_id_eq_nil fun s hs => ?_
    simp only [storeSteps, List.mem_append] at hs
    rcases hs with (hs | hs) | hs
    all_goals
      split at hs
      · rw [List.mem_singleton.1 hs]
        rfl
      · cases hs
  have hchannels : (c.options.channels.map Channel.step).filterMap Step.id = [] :=
    filterMap_id_eq_nil (List.forall_mem_map.2 fun channel _ => by cases channel <;> rfl)
  have hinstall : (c.packageManager.tools.installStep
      [c.packageManager.tools.globalCliInstall]).id = none := rfl
  simp only [buildJobSteps, buildSteps, List.filterMap_append, List.filterMap_cons, hinstall,
    hpreparation, hbuilds, hstores, hchannels, List.append_nil]
  exact (ids_setupSteps _ _ _).append c.ids_publicationSteps

theorem ids_testSteps (c : Config) : (c.testSteps.filterMap Step.id).Sublist
    [c.packageManager.tools.cacheDirStepId] := by
  have hchecks : c.checkSteps.filterMap Step.id = [] := by
    refine filterMap_id_eq_nil fun s hs => ?_
    simp only [checkSteps, List.mem_append, List.mem_map] at hs
    rcases hs with ⟨kind, _, rfl⟩ | ⟨suite, _, rfl⟩
    · cases kind <;> rfl
    · cases suite <;> rfl
  have hinstall : (c.packageManager.tools.installStep []).id = none := rfl
  rw [testSteps]
  split
  · simp only [List.filterMap_append, List.filterMap_cons, hinstall, hchecks, List.append_nil]
    exact ids_setupSteps _ _ _
  · exact List.nil_sublist _

theorem nodup_ids_of_mem_jobs {c : Config} {j : Job} (hj : j ∈ c.jobs) :
    (j.steps.filterMap Step.id).Nodup := by
  rcases c.mem_jobs hj with rfl | ⟨_, rfl⟩ | rfl
  · exact List.nodup_nil
  · exact c.ids_testSteps.nodup (List.nodup_singleton _)
  · have hne : c.packageManager.tools.cacheDirStepId ≠ "build-info" := by
      cases c.packageManager <;> decide
    exact c.ids_buildJobSteps.nodup (by simp [hne])

/-! ## Legs -/

/-- The job runs once for each platform. -/
def hasLegs (c : Config) (j : Job) : Bool := j.id == c.buildJobId && c.options.iosSupport

end Config

theorem Job.field?_strategy (j : Job) : j.toJson.field? "strategy"
    = if j.strategy ≠ [] then some (.object j.strategy) else none := by
  have hneeds : (if j.needs.isEmpty then []
      else [("needs", needsJson j.needs)]).lookup "strategy" = none := by
    split <;> rfl
  have hlast : [("runs-on", Json.str j.runsOn),
      ("steps", .list (j.steps.map Step.toJson))].lookup "strategy" = none := rfl
  rw [toJson, Json.field?]
  simp only [List.lookup_append, hneeds, Step.lookup_textField, Step.lookup_objectField, hlast]
  simp

theorem Job.not_declaresPlatform {j : Job} (h : j.strategy = []) : ¬ j.DeclaresPlatform := by
  rintro ⟨v, hv⟩
  rw [Json.path?, field?_strategy, h] at hv
  cases hv

theorem Job.declaresPlatform_of_eq {j : Job} (h : j.strategy = platformStrategy) :
    j.DeclaresPlatform := by
  refine ⟨textsJson (Platform.all.map Platform.name), ?_⟩
  rw [Json.path?, field?_strategy, h]
  rfl

namespace Config

variable {c : Config} {j : Job}

theorem hasLegs_of_id_ne (hid : j.id ≠ c.buildJobId) : c.hasLegs j = false := by
  rw [hasLegs, beq_false_of_ne hid, Bool.false_and]

theorem hasLegs_buildJob (c : Config) : c.hasLegs c.buildJob = c.options.iosSupport := by
  rw [hasLegs, show c.buildJob.id = c.buildJobId from rfl, beq_self_eq_true, Bool.true_and]

theorem declaresPlatform_iff_hasLegs (hj : j ∈ c.jobs) :
    j.DeclaresPlatform ↔ c.hasLegs j = true := by
  have hnone {j : Job} (hstrategy : j.strategy = []) (hlegs : c.hasLegs j = false) :
      j.DeclaresPlatform ↔ c.hasLegs j = true :=
    iff_of_false (Job.not_declaresPlatform hstrategy) (by simp [hlegs])
  rcases c.mem_jobs hj with rfl | ⟨_, rfl⟩ | rfl
  · exact hnone rfl (hasLegs_of_id_ne c.buildJobId_ne.1)
  · exact hnone rfl (hasLegs_of_id_ne c.buildJobId_ne.2)
  · have hstrategy : c.buildJob.strategy
        = if c.options.iosSupport then platformStrategy else [] := rfl
    by_cases hios : c.options.iosSupport = true
    · rw [if_pos hios] at hstrategy
      exact iff_of_true (Job.declaresPlatform_of_eq hstrategy) (c.hasLegs_buildJob.trans hios)
    · rw [if_neg hios] at hstrategy
      exact hnone hstrategy (c.hasLegs_buildJob.trans (Bool.eq_false_of_not_eq_true hios))

end Config

/-! ## Steps of jobs -/

namespace Step

/-- The step asks for no secret, nor for a leg where there is none, and the configuration of a
drive reads only these variables. -/
structure Contained (legs : Bool) (names : List String) (s : Step) : Prop where
  avoids : s.withoutVersion.Unmarked (jobMarks legs)
  reads : ∀ command, s.run = some command → Stands "rclone.conf" command →
    variablesIn command ⊆ names

variable {legs : Bool} {names : List String} {s : Step}

theorem Contained.of_withoutVersion (h : s.withoutVersion.Unmarked (marksBeside legs)) :
    s.Contained legs names where
  avoids := h.of_subset (jobMarks_subset legs)
  reads command hrun hstands :=
    have hmark : "rclone.conf" ∈ marksBeside legs := by cases legs <;> decide
    absurd hstands (h.run command hrun "rclone.conf" hmark)

theorem Contained.of_marks (h : s.Unmarked marks) : s.Contained legs names :=
  .of_withoutVersion (h.withoutVersion.mono fun _ ht => ht.of_subset (marksBeside_subset legs))

theorem Contained.of_beside (h : s.Unmarked (watchedBeside legs)) : s.Contained legs names :=
  .of_withoutVersion
    (h.withoutVersion.mono fun _ ht => ht.of_subset (List.subset_append_left _ _))

theorem Contained.of_unmarked (h : s.Unmarked watched) : s.Contained legs names :=
  .of_beside (h.beside legs)

theorem Contained.of_refers {references : List (String × String)}
    (h : s.Holds (RefersTo references)) (hrun : s.run = none) : s.Contained legs names where
  avoids := h.withoutVersion.mono fun _ ht => ht.avoids.of_subset (jobMarks_subset_false legs)
  reads command hcommand := by
    rw [hrun] at hcommand
    cases hcommand

end Step

theorem Toolchain.contained_of_mem_setupSteps (m : PackageManager) {nodeVersion : String}
    {caching legs : Bool} {names : List String} {s : Step}
    (h : s ∈ m.tools.setupSteps nodeVersion caching) : s.Contained legs names := by
  have hnode := (unmarked_setupNode m nodeVersion).of_subset (marksBeside_subset legs)
  exact forall_mem_setupSteps (.of_unmarked unmarked_checkout)
    (fun _ h => .of_marks (unmarked_of_mem_setupManager m h)) (.of_withoutVersion hnode)
    (.of_marks (unmarked_cacheLookup m)) (.of_refers (refers_cacheRestore m) rfl) s h

namespace Config

variable {c : Config} {s : Step}

theorem contained_of_mem_testSteps {names : List String} (h : s ∈ c.testSteps) :
    s.Contained false names :=
  forall_mem_testSteps (fun _ => Toolchain.contained_of_mem_setupSteps _)
    (.of_marks (Toolchain.unmarked_installStep _ (List.forall_mem_nil _)))
    (fun _ h => .of_marks (unmarked_of_mem_checkSteps h)) s h

theorem contained_of_mem_publicationSteps (h : s ∈ c.publicationSteps) :
    s.Contained c.options.iosSupport c.storage.secrets := by
  have hrelease := refers_releaseStep (avoids_artifacts (c := c).of_subset marks_subset)
  refine forall_mem_publicationSteps (.of_unmarked unmarked_setupDrive) (fun d hd => ?_)
    (fun d hd b hb => .of_beside (unmarked_uploadStep hd hb)) (.of_beside unmarked_archiveStep)
    (.of_unmarked unmarked_buildInfoStep) (.of_refers hrelease rfl) s h
  have hsecrets : c.storage.secrets = d.secrets := by
    rw [Storage.secrets, hd]
    rfl
  refine ⟨(unmarked_configStep hd).withoutVersion.mono fun _ ht => ht.of_subset ?_,
    fun command hcommand _ => ?_⟩
  · cases c.options.iosSupport <;> decide
  · obtain rfl : d.configScript = command := Option.some.inj hcommand
    rw [variablesIn_configScript hd, hsecrets]
    exact List.Subset.refl _

theorem contained_of_mem_buildJobSteps (h : s ∈ c.buildJobSteps) :
    s.Contained c.options.iosSupport c.storage.secrets := by
  have hinstall := Toolchain.unmarked_installStep c.packageManager
    (List.forall_mem_singleton.2 (Toolchain.avoids_globalCliInstall c.packageManager))
  exact forall_mem_buildJobSteps (fun _ => Toolchain.contained_of_mem_setupSteps _)
    (.of_marks hinstall) (fun _ h => .of_unmarked (unmarked_of_mem_buildPreparation h))
    (fun _ hb => .of_beside (unmarked_buildStep hb)) (fun _ => contained_of_mem_publicationSteps)
    (fun _ h => .of_beside (unmarked_of_mem_storeSteps h))
    (fun channel => .of_unmarked channel.unmarked_step) s h

end Config

/-! ## Jobs -/

/-- No word stands in a key or in a value. -/
def FieldsUnmarked (fields : List (String × Json)) : Prop :=
  ∀ f ∈ fields, Avoids watched f.1 ∧ ∀ t ∈ f.2.texts, Avoids watched t

theorem forall_texts_textsJson {P : String → Prop} {texts : List String} :
    (∀ t ∈ (textsJson texts).texts, P t) ↔ ∀ t ∈ texts, P t := by
  rw [textsJson, Json.forall_texts_list, List.forall_mem_map]
  exact forall₂_congr fun _ _ => Json.forall_texts_str

theorem unmarked_platformStrategy : FieldsUnmarked platformStrategy := by
  refine List.forall_mem_singleton.2 ⟨avoids_ofList rfl, Json.forall_texts_object.2 ?_⟩
  refine List.forall_mem_singleton.2 ⟨avoids_ofList rfl, forall_texts_textsJson.2 ?_⟩
  rw [Platform.all, List.map_cons, List.map_singleton, List.forall_mem_cons,
    List.forall_mem_singleton]
  exact ⟨avoids_ofList rfl, avoids_ofList rfl⟩

namespace Config

variable {c : Config} {j : Job} {s : Step}

theorem contained_of_mem_jobs (hj : j ∈ c.jobs) (hs : s ∈ j.steps) :
    s.Contained (c.hasLegs j) c.storage.secrets := by
  obtain ⟨hskip, htest⟩ := c.buildJobId_ne
  rcases c.mem_jobs hj with rfl | ⟨_, rfl⟩ | rfl
  · rw [hasLegs_of_id_ne hskip, List.mem_singleton.1 hs]
    exact .of_unmarked unmarked_checkSkip
  · rw [hasLegs_of_id_ne htest]
    exact contained_of_mem_testSteps hs
  · rw [hasLegs_buildJob]
    exact contained_of_mem_buildJobSteps hs

theorem inOrder_of_mem_jobs (hj : j ∈ c.jobs) : InOrder Step.Resolves [] j.steps := by
  rcases c.mem_jobs hj with rfl | ⟨_, rfl⟩ | rfl
  · exact ⟨unmarked_checkSkip.resolves steps_mem_watched _, trivial⟩
  · exact c.inOrder_testSteps
  · exact c.inOrder_buildJobSteps

theorem avoids_buildJobId (c : Config) : Avoids watched c.buildJobId := by
  rw [buildJobId]
  split <;> exact avoids_ofList rfl

/-- Besides its steps, no part of a job holds a word but that of the leg, where there is one. -/
theorem holds_withoutSteps (hj : j ∈ c.jobs) :
    Avoids watched j.id ∧
      Job.Holds (Avoids (watchedBeside (c.hasLegs j))) { j with steps := [] } := by
  have hbeside {legs : Bool} {t : String} (h : Avoids watched t) :
      Avoids (watchedBeside legs) t := h.of_subset (watchedBeside_subset legs)
  have hrunner : Avoids watched "ubuntu-latest" := avoids_ofList rfl
  have hcheckSkip : Avoids watched checkSkipId := avoids_ofList rfl
  have hsteps {legs : Bool} : ∀ s ∈ ([] : List Step), s.Unmarked (watchedBeside legs) :=
    List.forall_mem_nil _
  rcases c.mem_jobs hj with rfl | ⟨_, rfl⟩ | rfl
  · refine ⟨hcheckSkip, List.forall_mem_nil _, fun t ht => ?_, List.forall_mem_nil _,
      hbeside hrunner, hsteps⟩
    obtain rfl : skipGuard = t := Option.some.inj ht
    exact hbeside (avoids_ofList rfl)
  · refine ⟨avoids_ofList rfl, List.forall_mem_singleton.2 (hbeside hcheckSkip), fun t ht => ?_,
      List.forall_mem_nil _, hbeside hrunner, hsteps⟩
    cases ht
  · refine ⟨c.avoids_buildJobId, List.forall_mem_singleton.2 ?_, ?_, ?_, ?_, hsteps⟩
    · split
      · exact hbeside (avoids_ofList rfl)
      · exact hbeside hcheckSkip
    · intro t ht
      obtain rfl : buildJobGuard = t := Option.some.inj ht
      exact hbeside
        (avoids_of_spelled ((spelled_ofList.append spelled_ofList).append spelled_ofList) rfl)
    · rw [hasLegs_buildJob, buildJob]
      cases c.options.iosSupport with
      | false => exact List.forall_mem_nil _
      | true =>
        intro f hf
        exact (unmarked_platformStrategy f hf).imp hbeside fun h t ht => hbeside (h t ht)
    · rw [hasLegs_buildJob, buildJob]
      cases c.options.iosSupport with
      | false => exact hbeside hrunner
      | true => exact avoids_of_spelled spelled_ofList.hosted rfl

theorem holds_of_mem_jobs (hj : j ∈ c.jobs) :
    j.withoutVersion.Holds (Avoids (jobMarks (c.hasLegs j))) := by
  have hsub : jobMarks (c.hasLegs j) ⊆ watchedBeside (c.hasLegs j) :=
    List.Subset.trans (jobMarks_subset _) (List.subset_append_left _ _)
  refine ((holds_withoutSteps hj).2.mono fun _ ht => ht.of_subset hsub).withSteps ?_
  exact List.forall_mem_map.2 fun s hs => (contained_of_mem_jobs hj hs).avoids

theorem stands_iosRunsOn : Stands "matrix.platform" iosRunsOn :=
  ⟨['$', '\x7b', '\x7b', ' '],
    " == 'ios' && 'macos-latest' || 'ubuntu-latest' \x7d\x7d".toList, by simp [iosRunsOn, hosted]⟩

/-- Only texts of the job that has legs ask for one, and its machine does. -/
theorem platform_of_mem_jobs (hj : j ∈ c.jobs) :
    (∃ t ∈ j.texts, Stands "matrix.platform" t) ↔ j.DeclaresPlatform := by
  rw [declaresPlatform_iff_hasLegs hj]
  constructor
  · -- without legs no part of the job asks for one, so none of its texts does
    rintro ⟨t, ht, hstands⟩
    by_contra hlegs
    have hholds := holds_of_mem_jobs hj
    rw [Bool.eq_false_of_not_eq_true hlegs] at hholds
    have hkeys : ∀ k ∈ Job.keys, Avoids (jobMarks false) k := fun k hk =>
      (avoids_jobKeys k hk).of_subset (by decide)
    exact hholds.forall_texts hkeys t ht "matrix.platform" (by decide) hstands
  · intro hlegs
    rcases c.mem_jobs hj with rfl | ⟨_, rfl⟩ | rfl
    · rw [hasLegs_of_id_ne c.buildJobId_ne.1] at hlegs
      cases hlegs
    · rw [hasLegs_of_id_ne c.buildJobId_ne.2] at hlegs
      cases hlegs
    · rw [hasLegs_buildJob] at hlegs
      refine ⟨c.buildJob.runsOn, c.buildJob.runsOn_mem_texts, ?_⟩
      rw [buildJob, hlegs]
      exact stands_iosRunsOn

/-- Jobs need such as come before them. -/
theorem inOrder_jobs (c : Config) :
    InOrder (fun earlier j => ∀ id ∈ j.needs, id ∈ earlier.map Job.id) [] c.jobs := by
  rw [jobs, testJob?]
  by_cases hwork : c.hasTestWork = true <;>
    simp [InOrder, hwork, buildJob, checkSkipJob]

/-! ## Triggers and environment -/

theorem unmarked_choiceInput {description default : String} {options : List String}
    (hdescription : Avoids watched description) (hdefault : Avoids watched default)
    (hoptions : ∀ t ∈ options, Avoids watched t) :
    ∀ t ∈ (choiceInput description default options).texts, Avoids watched t := by
  rw [choiceInput, Json.forall_texts_object]
  simp only [List.forall_mem_cons, List.not_mem_nil, false_implies, implies_true, and_true]
  exact ⟨⟨avoids_ofList rfl, Json.forall_texts_str.2 hdescription⟩,
    ⟨avoids_ofList rfl, List.forall_mem_nil _⟩,
    ⟨avoids_ofList rfl, Json.forall_texts_str.2 hdefault⟩,
    ⟨avoids_ofList rfl, Json.forall_texts_str.2 (avoids_ofList rfl)⟩,
    avoids_ofList rfl, forall_texts_textsJson.2 hoptions⟩

theorem unmarked_dispatchInputs (c : Config) : FieldsUnmarked c.dispatchInputs := by
  refine List.forall_mem_cons.2 ⟨⟨avoids_ofList rfl, unmarked_choiceInput (avoids_ofList rfl)
    (avoids_ofList rfl) (List.forall_mem_cons.2 ⟨avoids_ofList rfl, ?_⟩)⟩, ?_⟩
  · rw [List.forall_mem_map]
    intro t _
    cases t <;> exact avoids_ofList rfl
  · split
    · refine List.forall_mem_singleton.2 ⟨avoids_ofList rfl,
        unmarked_choiceInput (avoids_ofList rfl) (avoids_ofList rfl) ?_⟩
      refine List.forall_mem_cons.2 ⟨avoids_ofList rfl, List.forall_mem_singleton.2 ?_⟩
      exact avoids_ofList rfl
    · exact List.forall_mem_nil _

theorem unmarked_triggerMap (c : Config) : FieldsUnmarked c.triggerMap := by
  have hbranches : ∀ t ∈ (textsJson mainBranches).texts, Avoids watched t := by
    rw [forall_texts_textsJson, mainBranches, List.forall_mem_cons, List.forall_mem_singleton]
    exact ⟨avoids_ofList rfl, avoids_ofList rfl⟩
  have hpaths : ∀ t ∈ (textsJson ignoredPaths).texts, Avoids watched t := by
    rw [forall_texts_textsJson, ignoredPaths, List.forall_mem_cons, List.forall_mem_cons,
      List.forall_mem_singleton]
    exact ⟨avoids_ofList rfl, avoids_ofList rfl, avoids_ofList rfl⟩
  have hdispatch := Json.forall_texts_object.2 c.unmarked_dispatchInputs
  have hgroup {q : Prop} [Decidable q] {fields : List (String × Json)}
      (h : FieldsUnmarked fields) : FieldsUnmarked (if q then fields else []) := by
    split
    · exact h
    · exact List.forall_mem_nil _
  rw [FieldsUnmarked, triggerMap_eq]
  simp only [List.forall_mem_append]
  refine ⟨⟨hgroup ?_, hgroup ?_⟩, hgroup ?_⟩
  · refine List.forall_mem_singleton.2 ⟨avoids_ofList rfl, Json.forall_texts_object.2 ?_⟩
    exact List.forall_mem_cons.2 ⟨⟨avoids_ofList rfl, hbranches⟩,
      List.forall_mem_singleton.2 ⟨avoids_ofList rfl, hpaths⟩⟩
  · refine List.forall_mem_singleton.2 ⟨avoids_ofList rfl, Json.forall_texts_object.2 ?_⟩
    exact List.forall_mem_singleton.2 ⟨avoids_ofList rfl, hbranches⟩
  · refine List.forall_mem_singleton.2 ⟨avoids_ofList rfl, Json.forall_texts_object.2 ?_⟩
    exact List.forall_mem_singleton.2 ⟨avoids_ofList rfl, hdispatch⟩

end Config

/-! ## Environment -/

/-- The name of a secret refers to nothing, its value to the secret; neither tells of a package
manager. -/
structure IsSecretName (n : String) : Prop where
  avoids : Avoids watched n
  secrets : secretsIn (secret n) = [n]
  value : Avoids managerWords (secret n)

theorem isSecretName_ofList {cs : List Char} (havoids : findsAny watched cs = false)
    (hsecrets : ((Text.after "secrets.".toList (['$', '\x7b', '\x7b', ' ']
        ++ (['s', 'e', 'c', 'r', 'e', 't', 's', '.'] ++ cs) ++ [' ', '\x7d', '\x7d'])).map
          fun rest => String.ofList (rest.takeWhile Text.isReferenceChar)) = [String.ofList cs])
    (hvalue : findsAny managerWords (['$', '\x7b', '\x7b', ' ']
        ++ (['s', 'e', 'c', 'r', 'e', 't', 's', '.'] ++ cs) ++ [' ', '\x7d', '\x7d']) = false) :
    IsSecretName (String.ofList cs) := by
  have hspelled : Text.Spelled (secret (String.ofList cs)) _ :=
    (spelled_ofList.append spelled_ofList).hosted
  refine ⟨avoids_of_spelled spelled_ofList havoids, ?_, avoids_of_spelled hspelled hvalue⟩
  rw [Text.secretsIn_of_spelled hspelled]
  exact hsecrets

theorem SecretSource.isSecretName_of_mem {a : SecretSource} :
    ∀ n ∈ a.names, IsSecretName n := by
  have hthree {x y z : String} (hx : IsSecretName x) (hy : IsSecretName y)
      (hz : IsSecretName z) : ∀ n ∈ [x, y, z], IsSecretName n :=
    List.forall_mem_cons.2 ⟨hx, List.forall_mem_cons.2 ⟨hy, List.forall_mem_singleton.2 hz⟩⟩
  have hone {x : String} (hx : IsSecretName x) : ∀ n ∈ [x], IsSecretName n :=
    List.forall_mem_singleton.2 hx
  cases a with
  | expo => exact hone (isSecretName_ofList rfl (by decide) rfl)
  | apple =>
    refine hthree ?_ ?_ ?_ <;> exact isSecretName_ofList rfl (by decide) rfl
  | storage s =>
    cases s with
    | githubRelease => exact hone (isSecretName_ofList rfl (by decide) rfl)
    | _ => refine hthree ?_ ?_ ?_ <;> exact isSecretName_ofList rfl (by decide) rfl
  | stores => exact hone (isSecretName_ofList rfl (by decide) rfl)
  | channel channel => cases channel <;> exact hone (isSecretName_ofList rfl (by decide) rfl)

namespace Config

variable {c : Config}

theorem isSecretName_of_mem_secretNames {n : String} (hn : n ∈ c.secretNames) :
    IsSecretName n := by
  obtain ⟨a, -, hn⟩ := mem_secretNames.1 hn
  exact a.isSecretName_of_mem n hn

theorem mem_keys_env {n : String} (hn : n ∈ c.secretNames) : n ∈ c.env.map Prod.fst := by
  rw [env, List.map_append, List.map_map]
  exact List.mem_append_left _ (List.mem_map.2 ⟨n, hn, rfl⟩)

theorem mem_secretNames_of_mem_secrets {n : String} (hn : n ∈ c.storage.secrets) :
    n ∈ c.secretNames := mem_secretNames.2 ⟨.storage c.storage, rfl, hn⟩

/-- Every secret that is asked for anywhere is in the environment. -/
theorem secrets_compile (c : Config) :
    ∀ t ∈ c.compile.texts, ∀ n ∈ secretsIn t, n ∈ c.env.map Prod.fst := by
  have havoided {words : List String} {t : String} (h : Avoids words t)
      (hmark : "secrets." ∈ words) : ∀ n ∈ secretsIn t, n ∈ c.env.map Prod.fst := by
    rw [Text.secretsIn_eq_nil (h "secrets." hmark)]
    exact List.forall_mem_nil _
  have hwatched {t : String} (h : Avoids watched t) :
      ∀ n ∈ secretsIn t, n ∈ c.env.map Prod.fst := havoided h (by decide)
  refine Document.forall_texts (fun k hk => hwatched (avoids_keys k hk))
    (hwatched (avoids_ofList rfl)) ?_ ?_ ?_
  · exact fun f hf => (c.unmarked_triggerMap f hf).imp hwatched fun h t ht => hwatched (h t ht)
  · intro e he
    rcases List.mem_append.1 he with he | he
    · -- no text but these values asks for a secret, and each for the one that it is the value of
      obtain ⟨n, hn, rfl⟩ := List.mem_map.1 he
      have hname := isSecretName_of_mem_secretNames hn
      refine ⟨hwatched hname.avoids, ?_⟩
      rw [hname.secrets, List.forall_mem_singleton]
      exact mem_keys_env hn
    · rw [List.mem_singleton.1 he]
      exact ⟨hwatched (avoids_ofList rfl), hwatched (avoids_ofList rfl)⟩
  · refine List.forall_mem_map.2 fun j hj => ⟨hwatched (holds_withoutSteps hj).1, ?_⟩
    have hmark : "secrets." ∈ jobMarks (c.hasLegs j) := by
      cases c.hasLegs j <;> decide
    exact (holds_of_mem_jobs hj).mono fun t ht => havoided ht hmark

/-- Nothing in a compiled document refers to what is not there, and it is the build job that
has legs, for platforms with iOS. -/
theorem compile_closed (c : Config) :
    c.compile.IsClosed ∧
      ∀ j ∈ c.compile.jobs, j.DeclaresPlatform ↔
        j.id = c.buildJobId ∧ c.options.iosSupport = true := by
  refine ⟨⟨fun j hj => nodup_ids_of_mem_jobs hj, ?_, fun j hj => platform_of_mem_jobs hj,
    c.secrets_compile, ?_, ?_⟩, fun j hj => ?_⟩
  · intro j hj before s behind hsteps
    have horder := inOrder_of_mem_jobs hj
    rw [hsteps] at horder
    exact horder.at_split
  · intro j hj s hs command hrun hstands v hv
    exact mem_keys_env (mem_secretNames_of_mem_secrets
      ((contained_of_mem_jobs hj hs).reads command hrun hstands hv))
  · intro before j behind hjobs
    have horder := c.inOrder_jobs
    rw [show c.jobs = before ++ j :: behind from hjobs] at horder
    exact horder.at_split
  · rw [declaresPlatform_iff_hasLegs hj, hasLegs, Bool.and_eq_true, beq_iff_eq]

end Config

end AppPipeline
