import AppPipeline.Proofs.Workflow.Accepted
import AppPipeline.Proofs.Workflow.Unmarked

/-!
# Steps with references

Three steps of a compiled document refer to something: the one that restores a cache and
the release refer to outputs (`RefersTo`), the one that configures a drive reads secrets
(`variablesIn_configScript`).

Each output is written by a step before (`inOrder_testSteps`, `inOrder_buildJobSteps`).
-/

namespace AppPipeline

open Text (Avoids Spelled findsAny spelled_ofList avoids_of_spelled after outputAt? outputsIn
  secretsIn variablesIn Stands)

/-- The marks that stand in no step of a job. -/
def jobMarks (legs : Bool) : List String :=
  if legs then ["secrets."] else ["secrets.", "matrix.platform"]

theorem jobMarks_subset (legs : Bool) : jobMarks legs ⊆ marksBeside legs := by
  cases legs <;> decide

theorem jobMarks_subset_false (legs : Bool) : jobMarks legs ⊆ jobMarks false := by
  cases legs <;> decide

/-! ## References to outputs -/

/-- The text refers to none but these outputs. -/
structure RefersTo (references : List (String × String)) (text : String) : Prop where
  avoids : Avoids (jobMarks false) text
  outputs : outputsIn text ⊆ references

theorem outputsIn_of_avoids {text : String} {words : List String} (h : Avoids words text)
    (hwords : "steps." ∈ words) : outputsIn text = [] :=
  Text.outputsIn_eq_nil (h "steps." hwords)

section

variable {references : List (String × String)}

theorem RefersTo.of_avoids {text : String} (h : Avoids marks text) : RefersTo references text where
  avoids := h.of_subset (by decide)
  outputs := by
    rw [outputsIn_of_avoids h (by decide)]
    exact List.nil_subset _

theorem refersTo_of_spelled {text : String} {cs : List Char} (htext : Spelled text cs)
    (havoids : findsAny (jobMarks false) cs = false)
    (houtputs : (after "steps.".toList cs).filterMap outputAt? ⊆ references) :
    RefersTo references text where
  avoids := avoids_of_spelled htext havoids
  outputs := by rwa [Text.outputsIn_of_spelled htext]

end

namespace Toolchain

theorem writes_cacheLookup (m : PackageManager) : m.tools.cacheLookup.Writes "dir" := by
  refine ⟨[m.tools.cacheDirScript], "$(" ++ m.tools.cacheDir ++ ")", ?_, ?_, ?_, ?_⟩
  · rw [script, String.intercalate_singleton]
    rfl
  · cases m <;> simp [PackageManager.tools]
  · cases m <;> simp [PackageManager.tools]
  · rw [List.mem_singleton, ← String.toList_inj]
    simp [cacheDirScript]

theorem refers_cacheRestore (m : PackageManager) :
    m.tools.cacheRestore.Holds (RefersTo [(m.tools.cacheDirStepId, "dir")]) := by
  have hkey {n : List Char} {s : String} (h : Spelled s n) :
      Spelled (hosted "runner.os" ++ "-" ++ s ++ "-") _ :=
    ((spelled_ofList.hosted.append spelled_ofList).append h).append spelled_ofList
  have hname : Avoids marks ("📦 Setup " ++ m.tools.name ++ " cache") := by
    cases m <;> exact avoids_of_spelled
      ((spelled_ofList.append spelled_ofList).append spelled_ofList) rfl
  have hpath : RefersTo [(m.tools.cacheDirStepId, "dir")]
      (hosted ("steps." ++ m.tools.cacheDirStepId ++ ".outputs.dir")) := by
    cases m <;> exact refersTo_of_spelled ((spelled_ofList.append (spelled_ofList.append
      spelled_ofList)).append spelled_ofList).hosted (by decide) (by decide)
  have hrestore : Avoids marks (hosted "runner.os" ++ "-" ++ m.tools.name ++ "-") := by
    cases m <;> exact avoids_of_spelled (hkey spelled_ofList) rfl
  have hfull : Avoids marks (hosted "runner.os" ++ "-" ++ m.tools.name ++ "-"
      ++ hosted ("hashFiles('**/" ++ m.tools.lockFile ++ "')")) := by
    cases m <;> exact avoids_of_spelled ((hkey spelled_ofList).append
      ((spelled_ofList.append spelled_ofList).append spelled_ofList).hosted) rfl
  have hliteral {cs : List Char} (h : findsAny marks cs = false) :
      RefersTo [(m.tools.cacheDirStepId, "dir")] (String.ofList cs) := .of_avoids (avoids_ofList h)
  exact Step.holds_action (.of_avoids hname) (hliteral rfl)
    (((Step.inputsHold_nil.text (hliteral rfl) (.of_avoids hrestore)).text
      (hliteral rfl) (.of_avoids hfull)).text (hliteral rfl) hpath)

end Toolchain

theorem writes_buildInfoStep :
    buildInfoStep.Writes "version" ∧ buildInfoStep.Writes "build_number" := by
  refine ⟨⟨_, "$VERSION", rfl, by decide, by decide, ?_⟩,
    ⟨_, hosted "github.run_number", rfl, by simp [hosted], by simp [hosted], ?_⟩⟩
  · exact List.mem_cons_of_mem _ (List.mem_cons.2 (.inl (String.toList_inj.1 (by simp))))
  · exact List.mem_cons_of_mem _ (List.mem_cons_of_mem _
      (List.mem_cons.2 (.inl (String.toList_inj.1 (by simp)))))

theorem refers_releaseStep {files : List String} (hfiles : Avoids marks (script files)) :
    (releaseStep files).Holds
      (RefersTo [("build-info", "version"), ("build-info", "build_number")]) := by
  have htag : RefersTo [("build-info", "version"), ("build-info", "build_number")]
      ("v" ++ hosted "steps.build-info.outputs.version" ++ "-"
        ++ hosted "steps.build-info.outputs.build_number") :=
    refersTo_of_spelled (((spelled_ofList.append spelled_ofList.hosted).append
      spelled_ofList).append spelled_ofList.hosted) (by decide) (by decide)
  have htitle : RefersTo [("build-info", "version"), ("build-info", "build_number")]
      ("Release v" ++ hosted "steps.build-info.outputs.version" ++ " (build "
        ++ hosted "steps.build-info.outputs.build_number" ++ ")") :=
    refersTo_of_spelled ((((spelled_ofList.append spelled_ofList.hosted).append
      spelled_ofList).append spelled_ofList.hosted).append spelled_ofList)
      (by decide) (by decide)
  have hliteral {cs : List Char} (h : findsAny marks cs = false) :
      RefersTo [("build-info", "version"), ("build-info", "build_number")] (String.ofList cs) :=
    .of_avoids (avoids_ofList h)
  refine Step.holds_action (hliteral rfl) (hliteral rfl)
    (.cons (.text (.text (.text (.text Step.inputsHold_nil (hliteral rfl) (hliteral rfl))
      (hliteral rfl) (.of_avoids hfiles)) (hliteral rfl) htag) (hliteral rfl) htitle)
      (hliteral rfl) fun t ht => ?_)
  cases ht

/-! ## Drives -/

theorem exists_spelled_configScript {s : Storage} {d : Drive} (hd : s.drive? = some d) :
    ∃ cs, Spelled d.configScript cs ∧
      findsAny ("steps." :: jobMarks false ++ managerWords) cs = false ∧
      ((after ['$'] cs).map fun rest =>
        String.ofList (rest.takeWhile Text.isVariableChar)).filter (· != "") = d.secrets := by
  have hoption {k v : List Char} {key name : String} (hkey : Spelled key k)
      (hname : Spelled name v) : Spelled (key ++ " = $" ++ name) _ :=
    (hkey.append spelled_ofList).append hname
  cases s <;> cases hd
  all_goals
    exact ⟨_, spelled_ofList.script_cons (spelled_ofList.script_cons
      (((spelled_ofList.append spelled_ofList).append spelled_ofList).script_cons
        ((hoption spelled_ofList spelled_ofList).script_cons
          ((hoption spelled_ofList spelled_ofList).script_cons
            ((hoption spelled_ofList spelled_ofList).script_cons
              spelled_ofList.script_singleton))))), by decide, by decide⟩

theorem unmarked_configStep {s : Storage} {d : Drive} (hd : s.drive? = some d) :
    d.configStep.Unmarked ("steps." :: jobMarks false ++ managerWords) := by
  obtain ⟨cs, hscript, havoids, -⟩ := exists_spelled_configScript hd
  refine Step.holds_shell ?_ (avoids_of_spelled hscript havoids)
  cases s <;> cases hd
  all_goals exact avoids_of_spelled (spelled_ofList.append spelled_ofList) rfl

/-- The configuration of a drive reads its secrets. -/
theorem variablesIn_configScript {s : Storage} {d : Drive} (hd : s.drive? = some d) :
    variablesIn d.configScript = d.secrets := by
  obtain ⟨cs, hscript, -, hvariables⟩ := exists_spelled_configScript hd
  rw [Text.variablesIn_of_spelled hscript, hvariables]

/-! ## Steps after others -/

namespace Step

theorem refersTo_keys (references : List (String × String)) :
    ∀ k ∈ keys, RefersTo references k := fun k hk =>
  .of_avoids ((avoids_stepKeys k hk).of_subset marks_subset)

variable {s : Step} {earlier : List Step}

theorem Resolves.of_refers {references : List (String × String)}
    (h : s.Holds (RefersTo references))
    (hwrites : ∀ r ∈ references, ∃ e ∈ earlier, e.id = some r.1 ∧ e.Writes r.2) :
    s.Resolves earlier := fun t ht r hr =>
  hwrites r ((h.withoutVersion.forall_texts (refersTo_keys references) t ht).outputs hr)

theorem Resolves.of_withoutVersion {words : List String} (h : s.withoutVersion.Unmarked words)
    (hmark : "steps." ∈ words) (earlier : List Step) : s.Resolves earlier := by
  have h : s.withoutVersion.Unmarked ["steps."] :=
    h.of_subset (List.cons_subset.2 ⟨hmark, List.nil_subset _⟩)
  intro t ht r hr
  rw [outputsIn_of_avoids (h.avoids_texts (by decide) t ht) List.mem_cons_self] at hr
  cases hr

/-- With the mark of outputs among the words, the step refers to none. -/
theorem Unmarked.resolves {words : List String} (h : s.Unmarked words)
    (hmark : "steps." ∈ words) : ∀ earlier, s.Resolves earlier :=
  .of_withoutVersion h.withoutVersion hmark

end Step

theorem steps_mem_marks : "steps." ∈ marks := by decide

theorem steps_mem_watched : "steps." ∈ watched := by decide

theorem steps_mem_watchedBeside (legs : Bool) : "steps." ∈ watchedBeside legs := by
  cases legs <;> decide

theorem Toolchain.inOrder_setupSteps (m : PackageManager) (nodeVersion : String)
    (caching : Bool) (earlier : List Step) :
    InOrder Step.Resolves earlier (m.tools.setupSteps nodeVersion caching) := by
  rw [setupSteps_eq, inOrder_append]
  refine ⟨⟨unmarked_checkout.resolves steps_mem_watched _, .of_mem fun s hs =>
    (unmarked_of_mem_setupManager m hs).resolves steps_mem_marks⟩,
    .of_withoutVersion (unmarked_setupNode m nodeVersion) steps_mem_marks _, ?_⟩
  cases caching with
  | false => trivial
  | true =>
    -- the cache is restored from where the step right before has looked it up
    refine ⟨(unmarked_cacheLookup m).resolves steps_mem_marks _,
      .of_refers (refers_cacheRestore m) ?_, trivial⟩
    rw [List.forall_mem_singleton]
    exact ⟨m.tools.cacheLookup, List.mem_append_right _ List.mem_cons_self, rfl,
      writes_cacheLookup m⟩

namespace Config

variable {c : Config}

theorem inOrder_testSteps (c : Config) : InOrder Step.Resolves [] c.testSteps := by
  rw [testSteps]
  split
  · dsimp only
    rw [inOrder_append]
    exact ⟨Toolchain.inOrder_setupSteps _ _ _ _,
      (Toolchain.unmarked_installStep _ (List.forall_mem_nil _)).resolves steps_mem_marks _,
      .of_mem fun s hs => (unmarked_of_mem_checkSteps hs).resolves steps_mem_marks⟩
  · trivial

theorem inOrder_driveSteps {d : Drive} (hd : c.storage.drive? = some d) (earlier : List Step) :
    InOrder Step.Resolves earlier (c.driveSteps d) := by
  refine ⟨unmarked_setupDrive.resolves steps_mem_watched _,
    (unmarked_configStep hd).resolves List.mem_cons_self _, .of_mem fun s hs => ?_⟩
  obtain ⟨b, hb, rfl⟩ := List.mem_map.1 hs
  exact (unmarked_uploadStep hd hb).resolves (steps_mem_watchedBeside _)

/-- The release finds what it is called in the step before it. -/
theorem inOrder_publicationSteps (c : Config) (earlier : List Step) :
    InOrder Step.Resolves earlier c.publicationSteps := by
  have harchive : ∀ earlier, c.archiveStep.Resolves earlier :=
    unmarked_archiveStep.resolves (steps_mem_watchedBeside _)
  cases hd : c.storage.drive? with
  | some d =>
    rw [publicationSteps, hd]
    refine inOrder_append.2 ⟨inOrder_driveSteps hd earlier, ?_⟩
    split
    · trivial
    · exact ⟨harchive _, trivial⟩
  | none =>
    rw [publicationSteps, hd]
    dsimp only
    split
    · trivial
    · have hfiles : Avoids marks (script c.artifacts) := avoids_artifacts.of_subset marks_subset
      refine ⟨harchive _, unmarked_buildInfoStep.resolves steps_mem_watched _,
        .of_refers (refers_releaseStep hfiles) ?_, trivial⟩
      have hmem : buildInfoStep ∈ earlier ++ [c.archiveStep] ++ [buildInfoStep] := by simp
      rw [List.forall_mem_cons, List.forall_mem_singleton]
      exact ⟨⟨buildInfoStep, hmem, rfl, writes_buildInfoStep.1⟩,
        buildInfoStep, hmem, rfl, writes_buildInfoStep.2⟩

theorem inOrder_buildJobSteps (c : Config) : InOrder Step.Resolves [] c.buildJobSteps := by
  have hinstall : (c.packageManager.tools.installStep
      [c.packageManager.tools.globalCliInstall]).Unmarked marks :=
    Toolchain.unmarked_installStep _
      (List.forall_mem_singleton.2 (Toolchain.avoids_globalCliInstall _))
  simp only [buildJobSteps, buildSteps, inOrder_append]
  refine ⟨⟨⟨⟨⟨Toolchain.inOrder_setupSteps _ _ _ _, hinstall.resolves steps_mem_marks _, ?_⟩, ?_⟩,
    c.inOrder_publicationSteps _⟩, ?_⟩, ?_⟩
  · exact .of_mem fun s hs => (unmarked_of_mem_buildPreparation hs).resolves steps_mem_watched
  · refine .of_mem fun s hs => ?_
    obtain ⟨b, hb, rfl⟩ := List.mem_map.1 hs
    exact (unmarked_buildStep hb).resolves (steps_mem_watchedBeside _)
  · exact .of_mem fun s hs =>
      (unmarked_of_mem_storeSteps hs).resolves (steps_mem_watchedBeside _)
  · refine .of_mem fun s hs => ?_
    obtain ⟨channel, _, rfl⟩ := List.mem_map.1 hs
    exact channel.unmarked_step.resolves steps_mem_watched

end Config

end AppPipeline
