import AppPipeline.Proofs.Workflow.References
import AppPipeline.Proofs.Workflow.Traces

/-!
# Texts without references and without package managers

Most steps of a compiled document refer to nothing: the marks of references stand in
none of their texts. Those that do are left out here. In a step that the package manager
has no part in, none of its words stands either.

* `Step.Unmarked`: no word of the list stands in a text of the step;
* `Guard.avoids_allOf`, `Guard.avoids_anyOf`: words do not reach over the operators of
  conditions.
-/

namespace AppPipeline

open Text (Avoids Separates Spelled findsAny spelled_ofList avoids_of_spelled)

/-- How references to outputs and secrets start, the leg of a job, and the file that configures
a drive. -/
def marks : List String := ["steps.", "secrets.", "matrix.platform", "rclone.conf"]

/-- The marks that stand nowhere but in few steps; those of jobs with legs may ask for theirs. -/
def marksBeside (legs : Bool) : List String :=
  if legs then ["steps.", "secrets.", "rclone.conf"] else marks

theorem marksBeside_subset (legs : Bool) : marksBeside legs ⊆ marks := by
  cases legs
  · exact List.Subset.refl _
  · intro w hw
    simp only [marksBeside, ↓reduceIte, List.mem_cons, List.not_mem_nil, or_false] at hw
    rcases hw with rfl | rfl | rfl <;> decide

/-- The words that tell of a package manager; who installs with one of them is told by it. -/
def managerWords : List String := ["yarn", "npm", "npx", "package-lock.json"]

/-- The words that stand in none of the texts that are the same for all package managers. -/
def watched : List String := marks ++ managerWords

def watchedBeside (legs : Bool) : List String := marksBeside legs ++ managerWords

theorem marks_subset : marks ⊆ watched := List.subset_append_left _ _

theorem managerWords_subset : managerWords ⊆ watched := List.subset_append_right _ _

theorem watchedBeside_subset (legs : Bool) : watchedBeside legs ⊆ watched :=
  List.append_subset.2 ⟨List.Subset.trans (marksBeside_subset legs) marks_subset,
    managerWords_subset⟩

/-- A literal without words. -/
theorem avoids_ofList {words : List String} {cs : List Char} (h : findsAny words cs = false) :
    Avoids words (String.ofList cs) := avoids_of_spelled spelled_ofList h

theorem avoids_keys : ∀ k ∈ Document.keys, Avoids watched k := by
  simp only [Document.keys, Job.keys, Step.keys, List.cons_append, List.nil_append,
    List.forall_mem_cons, List.not_mem_nil, false_implies, implies_true, and_true]
  repeat' apply And.intro
  all_goals exact avoids_ofList rfl

theorem avoids_jobKeys : ∀ k ∈ Job.keys, Avoids watched k := fun k hk =>
  avoids_keys k (List.mem_append_right _ hk)

theorem avoids_stepKeys : ∀ k ∈ Step.keys, Avoids watched k := fun k hk =>
  avoids_jobKeys k (List.mem_append_right _ hk)

/-! ## Scripts and conditions -/

/-- Words do not reach over the ends of lines and the operators of conditions. -/
theorem separates_watched :
    ∀ sep ∈ ["\n", " || ", " && ", "(", ")"], ∀ w ∈ watched, Separates sep w := by
  decide +kernel

section

variable {words : List String}

theorem avoids_script (hwords : words ⊆ watched) {lines : List String}
    (h : ∀ l ∈ lines, Avoids words l) : Avoids words (script lines) := by
  have hsep := separates_watched "\n" (by simp)
  exact Avoids.intercalate (fun w hw => hsep w (hwords hw)) h

theorem Guard.avoids_anyOf (hwords : words ⊆ watched) {conditions : List String}
    (h : ∀ p ∈ conditions, Avoids words p) : Avoids words (anyOf conditions) := by
  have hsep := separates_watched " || " (by simp)
  exact Avoids.intercalate (fun w hw => hsep w (hwords hw)) h

theorem Guard.avoids_conjunct (hwords : words ⊆ watched) {p : String} (h : Avoids words p) :
    Avoids words (conjunct p) := by
  have hopen := separates_watched "(" (by simp)
  have hclose := separates_watched ")" (by simp)
  rw [conjunct]
  split
  · intro w hw hstands
    exact h w hw (hstands.of_enclosed (hopen w (hwords hw)) (hclose w (hwords hw)))
  · exact h

theorem Guard.avoids_allOf (hwords : words ⊆ watched) {conditions : List (Option String)}
    (h : ∀ o ∈ conditions, ∀ p ∈ o, Avoids words p) :
    ∀ g ∈ allOf conditions, Avoids words g := by
  have hparts : ∀ p ∈ conditions.filterMap fun c => c.filter (· != ""), Avoids words p := by
    intro p hp
    obtain ⟨o, ho, hop⟩ := List.mem_filterMap.1 hp
    exact h o ho p (Option.eq_some_of_filter_eq_some hop)
  intro g hg
  rw [allOf] at hg
  split at hg
  · cases hg
  · next p hp =>
    obtain rfl := Option.some.inj hg
    exact hparts _ (by rw [hp]; exact List.mem_cons_self)
  · next parts _ _ =>
    obtain rfl := Option.some.inj hg
    have hsep := separates_watched " && " (by simp)
    refine Avoids.intercalate (fun w hw => hsep w (hwords hw)) fun u hu => ?_
    obtain ⟨p, hp, rfl⟩ := List.mem_map.1 hu
    exact avoids_conjunct hwords (hparts p hp)

end

/-! ## Steps -/

namespace Step

/-- No word of the list stands in a text of the step. -/
def Unmarked (words : List String) (s : Step) : Prop := s.Holds (Avoids words)

variable {words : List String} {s : Step}

theorem Unmarked.of_subset (h : s.Unmarked words) {others : List String}
    (hsub : others ⊆ words) : s.Unmarked others := h.mono fun _ ht => ht.of_subset hsub

theorem Unmarked.beside (h : s.Unmarked watched) (legs : Bool) : s.Unmarked (watchedBeside legs) :=
  h.of_subset (watchedBeside_subset legs)

/-- The words do not stand in the texts of an unmarked step. -/
theorem Unmarked.avoids_texts (h : s.withoutVersion.Unmarked words) (hwords : words ⊆ watched) :
    ∀ t ∈ s.texts, Avoids words t :=
  h.forall_texts fun k hk => (avoids_stepKeys k hk).of_subset hwords

end Step

open Step (inputsHold_nil holds_action holds_shell)

/-! ## Preparing a job -/

namespace Toolchain

theorem unmarked_checkout : checkoutStep.Unmarked watched :=
  holds_action (avoids_ofList rfl) (avoids_ofList rfl) inputsHold_nil

theorem unmarked_of_mem_setupManager (m : PackageManager) {s : Step}
    (h : s ∈ m.tools.setupManager) : s.Unmarked marks := by
  cases m with
  | pnpm =>
    obtain rfl := List.mem_singleton.1 h
    exact holds_action
      (avoids_of_spelled (spelled_ofList.append spelled_ofList) rfl)
      (avoids_ofList rfl)
      (inputsHold_nil.text (avoids_ofList rfl) (avoids_ofList rfl))
  | _ => cases h

theorem withoutVersion_setupNode (t : Toolchain) (nodeVersion : String) :
    (t.setupNode nodeVersion).withoutVersion
      = Step.action "🏗 Setup Node.js" setupNodeAction [("cache", .str t.name)] := rfl

theorem unmarked_setupNode (m : PackageManager) (nodeVersion : String) :
    (m.tools.setupNode nodeVersion).withoutVersion.Unmarked marks := by
  rw [withoutVersion_setupNode]
  refine holds_action (avoids_ofList rfl) (avoids_ofList rfl)
    (inputsHold_nil.text (avoids_ofList rfl) ?_)
  cases m <;> exact avoids_ofList rfl

theorem unmarked_cacheLookup (m : PackageManager) : m.tools.cacheLookup.Unmarked marks := by
  refine (holds_shell ?_ ?_).withId ?_
  · cases m <;> exact avoids_of_spelled
      ((spelled_ofList.append spelled_ofList).append spelled_ofList) rfl
  · cases m <;> exact avoids_of_spelled
      ((spelled_ofList.append spelled_ofList).append spelled_ofList) rfl
  · cases m <;> exact avoids_of_spelled (spelled_ofList.append spelled_ofList) rfl

theorem unmarked_installStep (m : PackageManager) {further : List String}
    (h : ∀ l ∈ further, Avoids marks l) : (m.tools.installStep further).Unmarked marks := by
  refine holds_shell (avoids_ofList rfl)
    (avoids_script marks_subset (List.forall_mem_cons.2 ⟨?_, h⟩))
  cases m <;> exact avoids_ofList rfl

theorem avoids_globalCliInstall (m : PackageManager) : Avoids marks m.tools.globalCliInstall := by
  cases m <;> exact avoids_ofList rfl

end Toolchain

theorem unmarked_checkSkip :
    (Step.shell "Skip CI check" "echo \"Proceeding with workflow\"").Unmarked watched :=
  holds_shell (avoids_ofList rfl) (avoids_ofList rfl)

theorem Config.unmarked_of_mem_checkSteps {c : Config} {s : Step} (h : s ∈ c.checkSteps) :
    s.Unmarked marks := by
  refine forall_mem_checkSteps (fun kind => ?_) (fun suite => ?_) s h
  · cases c.packageManager <;> cases kind <;>
      exact holds_shell (avoids_ofList rfl) (avoids_ofList rfl)
  · cases c.packageManager <;> cases suite <;>
      exact holds_shell (avoids_ofList rfl) (avoids_ofList rfl)

/-! ## Builds -/

theorem unmarked_of_mem_buildPreparation {s : Step} (h : s ∈ buildPreparation) :
    s.Unmarked watched := by
  have hrefl := List.Subset.refl watched
  simp only [buildPreparation, List.mem_cons, List.not_mem_nil, or_false] at h
  rcases h with rfl | rfl | rfl | rfl
  · refine holds_action (avoids_ofList rfl) (avoids_ofList rfl)
      (((inputsHold_nil.text ?_ ?_).text ?_ ?_).text ?_ ?_)
    · exact avoids_ofList rfl
    · exact avoids_of_spelled (spelled_ofList.hosted.append spelled_ofList) rfl
    · exact avoids_ofList rfl
    · exact avoids_of_spelled
        ((spelled_ofList.hosted.append spelled_ofList).append spelled_ofList.hosted) rfl
    · exact avoids_ofList rfl
    · exact avoids_ofList rfl
  all_goals
    refine holds_shell (avoids_ofList rfl) (avoids_script hrefl fun l hl => ?_)
    simp only [List.mem_cons, List.not_mem_nil, or_false] at hl
  · rcases hl with rfl | rfl <;> exact avoids_ofList rfl
  · rcases hl with rfl | rfl <;> exact avoids_ofList rfl
  · rcases hl with rfl | rfl | rfl | rfl | rfl | rfl | rfl | rfl | rfl | rfl | rfl | rfl <;>
      exact avoids_ofList rfl

theorem avoids_buildTypeGuard (types : List BuildType) : Avoids watched (buildTypeGuard types) := by
  refine Guard.avoids_anyOf (List.Subset.refl watched) fun p hp => ?_
  have hpicked {value : List Char} {p : String} (h : Spelled p value) :
      Spelled (pickedInput p) _ := (spelled_ofList.append h).append spelled_ofList
  simp only [List.cons_append, List.mem_cons, List.mem_append, List.mem_map, List.not_mem_nil,
    or_false] at hp
  rcases hp with rfl | ⟨t, _, rfl⟩ | rfl
  · exact avoids_of_spelled (hpicked spelled_ofList) rfl
  · cases t <;> exact avoids_of_spelled (hpicked spelled_ofList) rfl
  · exact avoids_ofList rfl

namespace Config

variable {c : Config}

/-- The guard of a platform asks for the leg of the job. -/
theorem avoids_platformGuard (p : Platform) :
    ∀ g ∈ c.platformGuard p, Avoids (watchedBeside c.options.iosSupport) g := by
  rw [platformGuard]
  cases c.options.iosSupport with
  | false => intro g hg; cases hg
  | true =>
    have hsub := watchedBeside_subset true
    rw [if_pos rfl]
    refine Guard.avoids_allOf hsub ?_
    rw [List.forall_mem_cons, List.forall_mem_singleton]
    refine ⟨fun g hg => ?_, fun g hg => ?_⟩ <;> obtain rfl := Option.some.inj hg
    · cases p <;> exact avoids_of_spelled
        ((spelled_ofList.append spelled_ofList).append spelled_ofList) rfl
    · refine Guard.avoids_anyOf hsub ?_
      rw [List.forall_mem_cons, List.forall_mem_singleton]
      refine ⟨Avoids.of_subset (avoids_ofList rfl) hsub, ?_⟩
      cases p <;> exact avoids_of_spelled
        ((spelled_ofList.append spelled_ofList).append spelled_ofList) rfl

/-- A guard of two conditions, of which the first restricts to a platform. -/
theorem avoids_guard (p : Platform) {condition : String} (h : Avoids watched condition) :
    ∀ g ∈ Guard.allOf [c.platformGuard p, some condition],
      Avoids (watchedBeside c.options.iosSupport) g := by
  refine Guard.avoids_allOf (watchedBeside_subset _) ?_
  rw [List.forall_mem_cons, List.forall_mem_singleton]
  refine ⟨avoids_platformGuard p, fun g hg => ?_⟩
  obtain rfl := Option.some.inj hg
  exact h.of_subset (watchedBeside_subset _)

theorem avoids_output {b : Build} (h : b ∈ c.builds) : Avoids watched b.output := by
  have h := mem_table_of_mem_builds h
  simp only [Build.androidBuilds, Build.iosBuilds, List.cons_append, List.nil_append,
    List.mem_cons, List.not_mem_nil, or_false] at h
  rcases h with rfl | rfl | rfl | rfl | rfl <;>
    exact avoids_of_spelled (spelled_ofList.append spelled_ofList) rfl

theorem avoids_artifacts : Avoids watched (script c.artifacts) := by
  refine avoids_script (List.Subset.refl watched) fun l hl => ?_
  obtain ⟨b, hb, rfl⟩ := List.mem_map.1 hl
  exact avoids_output hb

theorem unmarked_buildStep {b : Build} (h : b ∈ c.builds) :
    (c.buildStep b).Unmarked (watchedBeside c.options.iosSupport) := by
  have hshell : ((Step.shell b.label b.command).withEnv [("NODE_ENV", b.nodeEnv)]).Unmarked
      watched := by
    have hline {platform profile file : List Char} {b : Build}
        (hplatform : Spelled b.platform.name platform) (hprofile : Spelled b.profile profile)
        (hfile : Spelled b.file file) :
        Spelled ("eas build --platform " ++ b.platform.name ++ " --profile " ++ b.profile
          ++ " --local --non-interactive --output=" ++ b.output) _ :=
      ((((spelled_ofList.append hplatform).append spelled_ofList).append hprofile).append
        spelled_ofList).append (spelled_ofList.append hfile)
    have h := mem_table_of_mem_builds h
    simp only [Build.androidBuilds, Build.iosBuilds, List.cons_append, List.nil_append,
      List.mem_cons, List.not_mem_nil, or_false] at h
    refine (holds_shell ?_ (avoids_script (List.Subset.refl watched) ?_)).withEnv ?_
    · rcases h with rfl | rfl | rfl | rfl | rfl <;> exact avoids_ofList rfl
    · rw [List.forall_mem_cons, List.forall_mem_singleton]
      refine ⟨avoids_ofList rfl, ?_⟩
      rcases h with rfl | rfl | rfl | rfl | rfl <;>
        exact avoids_of_spelled (hline spelled_ofList spelled_ofList spelled_ofList) rfl
    · refine List.forall_mem_singleton.2 ⟨avoids_ofList rfl, ?_⟩
      rcases h with rfl | rfl | rfl | rfl | rfl <;> exact avoids_ofList rfl
  exact { hshell.beside _ with
    condition := avoids_guard b.platform (avoids_buildTypeGuard b.buildTypes) }

/-! ## Publication -/

theorem unmarked_setupDrive : Drive.setupStep.Unmarked watched :=
  holds_action (avoids_ofList rfl) (avoids_ofList rfl)
    (inputsHold_nil.text (avoids_ofList rfl) (avoids_ofList rfl))

theorem unmarked_uploadStep {d : Drive} (hd : c.storage.drive? = some d) {b : Build}
    (h : b ∈ c.builds) : (c.uploadStep d b).Unmarked (watchedBeside c.options.iosSupport) := by
  have hshell : (Step.shell ("📤 Upload " ++ b.file ++ " to " ++ d.label)
      ("rclone copy " ++ b.output ++ " " ++ d.remote ++ ":builds/" ++ hosted "github.run_number"
        ++ "/")).Unmarked watched := by
    have h := mem_table_of_mem_builds h
    simp only [Build.androidBuilds, Build.iosBuilds, List.cons_append, List.nil_append,
      List.mem_cons, List.not_mem_nil, or_false] at h
    -- drives and files come from two tables, so every text is a literal
    cases hstorage : c.storage <;> rw [hstorage] at hd <;> cases hd
    all_goals
      rcases h with rfl | rfl | rfl | rfl | rfl
      all_goals
        refine holds_shell (avoids_of_spelled (((spelled_ofList.append spelled_ofList).append
          spelled_ofList).append spelled_ofList) rfl) ?_
        exact avoids_of_spelled ((((((spelled_ofList.append (spelled_ofList.append
          spelled_ofList)).append spelled_ofList).append spelled_ofList).append
            spelled_ofList).append spelled_ofList.hosted).append spelled_ofList) rfl
  exact { hshell.beside _ with
    condition := avoids_guard b.platform (avoids_buildTypeGuard b.buildTypes) }

theorem unmarked_archiveStep : c.archiveStep.Unmarked (watchedBeside c.options.iosSupport) := by
  have hbeside {t : String} (h : Avoids watched t) :
      Avoids (watchedBeside c.options.iosSupport) t := h.of_subset (watchedBeside_subset _)
  refine holds_action (hbeside (avoids_ofList rfl)) (hbeside (avoids_ofList rfl))
    (((inputsHold_nil.cons (hbeside (avoids_ofList rfl)) fun t ht => ?_).text
      (hbeside (avoids_ofList rfl)) (hbeside avoids_artifacts)).text
        (hbeside (avoids_ofList rfl)) ?_)
  · cases ht
  · -- the leg of the job is part of the name
    cases c.options.iosSupport with
    | false => exact avoids_ofList rfl
    | true => exact avoids_of_spelled (spelled_ofList.append spelled_ofList.hosted) rfl

end Config

theorem unmarked_buildInfoStep : buildInfoStep.Unmarked watched := by
  refine (holds_shell (avoids_ofList rfl)
    (avoids_script (List.Subset.refl watched) fun l hl => ?_)).withId (avoids_ofList rfl)
  simp only [List.mem_cons, List.not_mem_nil, or_false] at hl
  rcases hl with rfl | rfl | rfl | rfl
  · exact avoids_ofList rfl
  · exact avoids_ofList rfl
  · exact avoids_of_spelled
      ((spelled_ofList.append spelled_ofList.hosted).append spelled_ofList) rfl
  · exact avoids_ofList rfl

theorem Config.unmarked_of_mem_storeSteps {c : Config} {s : Step} (h : s ∈ c.storeSteps) :
    s.Unmarked (watchedBeside c.options.iosSupport) := by
  have hmanual (p : Platform) {name command : String} (hname : Avoids watched name)
      (hcommand : Avoids watched command) :
      (c.manualStep p name command).Unmarked (watchedBeside c.options.iosSupport) := by
    have hsub := watchedBeside_subset c.options.iosSupport
    exact (holds_shell (hname.of_subset hsub) (hcommand.of_subset hsub)).onlyIf
      (avoids_guard p (avoids_ofList rfl))
  exact forall_mem_storeSteps (fun _ => hmanual _ (avoids_ofList rfl) (avoids_ofList rfl))
    (fun _ => hmanual _ (avoids_ofList rfl) (avoids_ofList rfl))
    (fun _ => hmanual _ (avoids_ofList rfl) (avoids_ofList rfl)) s h

theorem Channel.unmarked_step (channel : Channel) : channel.step.Unmarked watched := by
  have halways : ∀ g ∈ some "always()", Avoids watched g := by
    intro g hg
    obtain rfl := Option.some.inj hg
    exact avoids_ofList rfl
  cases channel with
  | slack =>
    refine ((holds_action (avoids_ofList rfl) (avoids_ofList rfl)
      inputsHold_nil).onlyIf halways).withEnv ?_
    simp only [List.forall_mem_cons, List.not_mem_nil, false_implies, implies_true, and_true]
    refine ⟨⟨?_, ?_⟩, ⟨?_, ?_⟩, ?_, ?_⟩
    · exact avoids_ofList rfl
    · exact avoids_of_spelled spelled_ofList.hosted rfl
    · exact avoids_ofList rfl
    · exact avoids_of_spelled (spelled_ofList.append spelled_ofList.hosted) rfl
    · exact avoids_ofList rfl
    · exact avoids_of_spelled ((spelled_ofList.hosted.append spelled_ofList).append
        spelled_ofList.hosted) rfl
  | discord =>
    refine (holds_action (avoids_ofList rfl) (avoids_ofList rfl)
      (inputsHold_nil.text (avoids_ofList rfl) ?_)).onlyIf halways
    exact avoids_of_spelled ((((spelled_ofList.hosted.append spelled_ofList).append
      spelled_ofList.hosted).append spelled_ofList).append spelled_ofList.hosted) rfl

end AppPipeline
