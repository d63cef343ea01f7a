import AppPipeline.Proofs.Command.TestPhase
import AppPipeline.Proofs.Text.Words
import AppPipeline.Proofs.Workflow.Traces

/-!
# Commands of local runs

What publishes or builds is kept from local runs by its category, what only the
hosted runner resolves by a mark:

* `not_publishes_of_mem_testCommands`: no command of the test job publishes or builds;
* `confined_of_mem_buildJob`: those of the build job that do are in the category of
  builds or in no special one, or hold an expression;
* `Job.hosted_iff`: exactly the commands with an expression are marked.
-/

namespace AppPipeline

open Text (Avoids Spelled Stands findsAny spelled_ofList)

/-! ## Publishing and building -/

/-- The words that start builds, hand them in, publish them and copy them to a drive. -/
def publishingWords : List String := ["eas build", "eas submit", "eas update", "rclone"]

/-- The text publishes or builds. -/
def Publishes (text : String) : Prop := ∃ w ∈ publishingWords, Stands w text

theorem Publishes.of_strip {text : String} (h : Publishes (Text.strip text)) : Publishes text := by
  obtain ⟨w, hw, hstands⟩ := h
  exact ⟨w, hw, hstands.of_strip⟩

theorem not_publishes_iff (text : String) : ¬ Publishes text ↔ Avoids publishingWords text := by
  simp only [Publishes, Avoids, not_exists, not_and]

theorem not_publishes_of_spelled {text : String} {cs : List Char} (htext : Spelled text cs)
    (h : findsAny publishingWords cs = false) : ¬ Publishes text :=
  (not_publishes_iff text).2 (Text.avoids_of_spelled htext h)

theorem not_publishes_ofList {cs : List Char}
    (h : findsAny publishingWords cs = false) : ¬ Publishes (String.ofList cs) :=
  not_publishes_of_spelled spelled_ofList h

theorem not_publishes_script {lines : List String} (h : ∀ l ∈ lines, ¬ Publishes l) :
    ¬ Publishes (script lines) := by
  have hsep : ∀ w ∈ publishingWords, Text.Separates "\n" w := by decide +kernel
  rw [not_publishes_iff]
  exact Avoids.intercalate hsep fun l hl => (not_publishes_iff l).1 (h l hl)

/-! ## Categories -/

/-- The words of labels that decide for a category before that of builds. -/
def labelWords : List String :=
  ["install dependencies", "typescript", "eslint", "prettier", "renderhook",
   "react native testing library", "jest", "test", "cache directory"]

/-- The words of commands that do. -/
def commandWords : List String :=
  ["yarn install", "npm install", "pnpm install", "tsc", "typecheck", "type-check", "eslint",
   "run lint", "prettier", "format:check", "test:hooks", "test:rntl", "cache dir",
   "npm config get cache", "pnpm store path", "eas-cli", "yarn global add eas",
   "npm install -g eas", "pnpm add -g eas"]

theorem not_mentions_lowerAscii {text word : String} {cs : List Char}
    (h : Text.occurs word.toList (cs.flatMap Text.lowerAsciiChar) = false) {part : List Char}
    (hpart : part <:+: cs) (htext : text.toList = part) :
    Text.mentions (Text.lowerAscii text) word = false := by
  rw [← Bool.not_eq_true, Text.occurs_iff_infix] at h
  rw [← Bool.not_eq_true, Text.mentions_iff_stands, Stands, Text.lowerAscii,
    String.toList_ofList, htext]
  obtain ⟨before, behind, rfl⟩ := hpart
  refine fun hword => h (hword.trans ⟨before.flatMap Text.lowerAsciiChar,
    behind.flatMap Text.lowerAsciiChar, ?_⟩)
  simp

/-- Without the words of the rules before, a command is a build or nothing special. -/
theorem isBuildCategory_classify {name text : String} {label command : List Char}
    (hname : Spelled name label) (htext : Spelled text command)
    (hlabel : findsAny labelWords (label.flatMap Text.lowerAsciiChar) = false)
    (hcommand : findsAny commandWords (command.flatMap Text.lowerAsciiChar) = false) :
    Config.isBuildCategory (Category.classify name text).name = true := by
  rw [findsAny, List.any_eq_false] at hlabel hcommand
  simp only [Bool.not_eq_true] at hlabel hcommand
  have hl : ∀ w ∈ labelWords, Text.mentions (Text.lowerAscii name) w = false := fun w hw =>
    not_mentions_lowerAscii (hlabel w hw) List.infix_rfl hname
  have ht : ∀ w ∈ commandWords,
      Text.mentions (Text.lowerAscii (Text.strip text)) w = false := fun w hw =>
    not_mentions_lowerAscii (hcommand w hw) (htext ▸ Text.trim_isInfix text.toList)
      String.toList_ofList
  -- a bare installation would stand in itself
  have hself : ∀ w ∈ Category.installCommands,
      w ∈ commandWords ∧ Text.mentions (Text.lowerAscii w) w = true := by
    decide +kernel
  have hbare : Category.installCommands.contains (Text.strip text) = false := by
    rw [← Bool.not_eq_true, List.contains_iff_mem]
    intro h
    obtain ⟨hw, hmentions⟩ := hself _ h
    rw [ht _ hw] at hmentions
    cases hmentions
  simp only [labelWords, commandWords, List.forall_mem_cons] at hl ht
  simp only [Category.classify, Category.mentionsAny, Category.namesTests, List.any_cons,
    List.any_nil, hl, ht, hbare, Bool.false_or, Bool.false_and, Bool.false_eq_true, if_false]
  have hrest : ∀ builds : Bool,
      Config.isBuildCategory (if builds = true then Category.build else Category.other).name
        = true := by
    decide
  exact hrest _

/-! ## Commands of steps -/

namespace Step

theorem exists_of_mem_command? {s : Step} {k : Command} (h : k ∈ s.command?) :
    ∃ text, s.run = some text ∧ k = Command.ofTexts (s.name.getD "") text := by
  rw [Option.mem_def, command?] at h
  split at h
  · cases h
  · next text hrun =>
    split at h
    · cases h
    · exact ⟨text, hrun, (Option.some.inj h).symm⟩

theorem eq_of_mem_command? {s : Step} {k : Command} {text : String} (hrun : s.run = some text)
    (h : k ∈ s.command?) : k = Command.ofTexts (s.name.getD "") text := by
  obtain ⟨_, ht, rfl⟩ := exists_of_mem_command? h
  rw [Option.some.inj (hrun.symm.trans ht)]

/-- If the step publishes or builds, the category of its command or an expression shows it. -/
def Confined (s : Step) : Prop :=
  ∀ k ∈ s.command?, Publishes k.text →
    Config.isBuildCategory k.category = true ∨ HoldsExpression k.text

theorem confined_action (name reference : String) (inputs : List (String × Json)) :
    (action name reference inputs).Confined := by
  intro k h
  cases h

variable {s : Step} {name text : String}

theorem confined_of_not_publishes (hrun : s.run = some text) (h : ¬ Publishes text) :
    s.Confined := by
  intro k hk hpublishes
  obtain rfl := eq_of_mem_command? hrun hk
  exact absurd hpublishes h

theorem confined_of_hosted (hrun : s.run = some text) (h : HoldsExpression text) :
    s.Confined := by
  intro k hk _
  obtain rfl := eq_of_mem_command? hrun hk
  exact .inr h

theorem confined_of_category (hname : s.name = some name) (hrun : s.run = some text)
    (h : Config.isBuildCategory (Category.classify name text).name = true) : s.Confined := by
  intro k hk _
  obtain rfl := eq_of_mem_command? hrun hk
  simp only [hname, Option.getD_some, Command.ofTexts]
  exact .inl h

end Step

/-- Exactly the commands with an expression are marked. -/
theorem Job.hosted_iff {j : Job} {k : Command} (h : k ∈ j.commands) :
    k.hosted = true ↔ HoldsExpression k.text := by
  obtain ⟨s, _, hs⟩ := List.mem_filterMap.1 h
  obtain ⟨text, _, rfl⟩ := Step.exists_of_mem_command? hs
  exact holdsExpression_iff text

/-! ## The test job -/

theorem PackageManager.not_publishes_install (m : PackageManager) :
    ¬ Publishes m.tools.install := by
  cases m <;> exact not_publishes_ofList rfl

theorem PackageManager.not_publishes_cacheDirScript (m : PackageManager) :
    ¬ Publishes m.tools.cacheDirScript := by
  cases m <;> exact not_publishes_of_spelled
    ((spelled_ofList.append spelled_ofList).append spelled_ofList) rfl

theorem TestTask.not_publishes_text (m : PackageManager) (t : TestTask) :
    ¬ Publishes (t.text m.tools) := by
  cases t with
  | cacheLookup => exact m.not_publishes_cacheDirScript
  | install => exact m.not_publishes_install
  | check kind =>
    cases m <;> cases kind <;> exact not_publishes_ofList rfl
  | suite suite =>
    cases m <;> cases suite <;> exact not_publishes_ofList rfl

theorem Config.not_publishes_of_mem_testCommands {c : Config} {k : Command}
    (h : k ∈ c.testCommands) : ¬ Publishes k.text := by
  rw [testCommands_eq] at h
  split at h
  · obtain ⟨t, _, rfl⟩ := List.mem_map.1 h
    exact t.not_publishes_text c.packageManager
  · cases h

/-! ## The build job -/

theorem Toolchain.confined_of_mem_setupSteps (m : PackageManager) {nodeVersion : String}
    {caching : Bool} {s : Step} (h : s ∈ m.tools.setupSteps nodeVersion caching) : s.Confined := by
  have hmanager : ∀ s ∈ m.tools.setupManager, s.Confined := by
    cases m with
    | pnpm =>
      intro s hs
      rw [List.mem_singleton.1 hs]
      exact Step.confined_action _ _ _
    | _ => intro s hs; cases hs
  exact forall_mem_setupSteps (Step.confined_action _ _ _) hmanager (Step.confined_action _ _ _)
    (Step.confined_of_not_publishes rfl m.not_publishes_cacheDirScript)
    (Step.confined_action _ _ _) s h

theorem Toolchain.confined_installStep (m : PackageManager) :
    (m.tools.installStep [m.tools.globalCliInstall]).Confined := by
  refine Step.confined_of_not_publishes rfl (not_publishes_script ?_)
  refine List.forall_mem_cons.2 ⟨m.not_publishes_install, List.forall_mem_singleton.2 ?_⟩
  cases m <;> exact not_publishes_ofList rfl

theorem confined_of_mem_buildPreparation {s : Step} (h : s ∈ buildPreparation) : s.Confined := by
  simp only [buildPreparation, List.mem_cons, List.not_mem_nil, or_false] at h
  rcases h with rfl | rfl | rfl | rfl
  · exact Step.confined_action _ _ _
  all_goals
    refine Step.confined_of_not_publishes rfl (not_publishes_script fun l hl => ?_)
    simp only [List.mem_cons, List.not_mem_nil, or_false] at hl
  · rcases hl with rfl | rfl <;> exact not_publishes_ofList rfl
  · rcases hl with rfl | rfl <;> exact not_publishes_ofList rfl
  · rcases hl with rfl | rfl | rfl | rfl | rfl | rfl | rfl | rfl | rfl | rfl | rfl | rfl <;>
      exact not_publishes_ofList rfl

theorem Channel.confined_step (channel : Channel) : channel.step.Confined := by
  cases channel <;> intro k h <;> cases h

/-- A label and a command without the words of other categories. -/
theorem Step.confined_of_clear {s : Step} {name text : String} {label command : List Char}
    (hname : s.name = some name) (hrun : s.run = some text)
    (hlabel : Spelled name label) (htext : Spelled text command)
    (hclear : findsAny labelWords (label.flatMap Text.lowerAsciiChar) = false
      ∧ findsAny commandWords (command.flatMap Text.lowerAsciiChar) = false) : s.Confined :=
  confined_of_category hname hrun
    (isBuildCategory_classify hlabel htext hclear.1 hclear.2)

namespace Config

variable {c : Config}

theorem confined_buildStep {b : Build} (h : b ∈ c.builds) : (c.buildStep b).Confined := by
  have htext {platform profile file : List Char} {b : Build}
      (hplatform : Spelled b.platform.name platform) (hprofile : Spelled b.profile profile)
      (hfile : Spelled b.file file) : Spelled b.command _ :=
    .script_cons spelled_ofList (.script_singleton
      (((((spelled_ofList.append hplatform).append spelled_ofList).append hprofile).append
        spelled_ofList).append (spelled_ofList.append hfile)))
  have h := mem_table_of_mem_builds h
  simp only [Build.androidBuilds, Build.iosBuilds, List.cons_append, List.nil_append,
    List.mem_cons, List.not_mem_nil, or_false] at h
  rcases h with rfl | rfl | rfl | rfl | rfl
  all_goals
    exact Step.confined_of_clear rfl rfl spelled_ofList
      (htext spelled_ofList spelled_ofList spelled_ofList) (by decide +kernel)

theorem confined_configStep {d : Drive} (hd : c.storage.drive? = some d) :
    d.configStep.Confined := by
  cases hstorage : c.storage <;> rw [hstorage] at hd <;> cases hd
  all_goals
    refine Step.confined_of_clear rfl rfl (spelled_ofList.append spelled_ofList)
      (.script_cons spelled_ofList (.script_cons spelled_ofList (.script_cons
        ((spelled_ofList.append spelled_ofList).append spelled_ofList)
        (.script_cons ((spelled_ofList.append spelled_ofList).append spelled_ofList)
          (.script_cons ((spelled_ofList.append spelled_ofList).append spelled_ofList)
            (.script_cons ((spelled_ofList.append spelled_ofList).append spelled_ofList)
              (.script_singleton spelled_ofList))))))) ?_
    decide +kernel

/-- Files are copied to a drive under the number of the run. -/
theorem confined_uploadStep (d : Drive) (b : Build) : (c.uploadStep d b).Confined := by
  have hrun : (c.uploadStep d b).run = some (("rclone copy " ++ b.output ++ " " ++ d.remote
      ++ ":builds/" ++ hosted "github.run_number") ++ "/") := rfl
  exact Step.confined_of_hosted hrun
    (((holdsExpression_hosted "github.run_number").of_append_right _).of_append_left "/")

theorem confined_buildInfoStep : buildInfoStep.Confined := by
  refine Step.confined_of_not_publishes rfl (not_publishes_script fun l hl => ?_)
  simp only [List.mem_cons, List.not_mem_nil, or_false] at hl
  rcases hl with rfl | rfl | rfl | rfl
  · exact not_publishes_ofList rfl
  · exact not_publishes_ofList rfl
  · exact not_publishes_of_spelled
      ((spelled_ofList.append spelled_ofList.hosted).append spelled_ofList) rfl
  · exact not_publishes_ofList rfl

theorem confined_of_mem_publicationSteps {s : Step} (h : s ∈ c.publicationSteps) :
    s.Confined :=
  forall_mem_publicationSteps (Step.confined_action _ _ _) (fun _ => confined_configStep)
    (fun d _ b _ => confined_uploadStep d b) (Step.confined_action _ _ _) confined_buildInfoStep
    (Step.confined_action _ _ _) s h

theorem confined_of_mem_storeSteps {s : Step} (h : s ∈ c.storeSteps) : s.Confined := by
  refine forall_mem_storeSteps (fun _ => ?_) (fun _ => ?_) (fun _ => ?_) s h <;>
    exact Step.confined_of_clear rfl rfl spelled_ofList spelled_ofList (by decide +kernel)

theorem confined_of_mem_buildJobSteps {s : Step} (h : s ∈ c.buildJobSteps) : s.Confined :=
  forall_mem_buildJobSteps (fun _ => Toolchain.confined_of_mem_setupSteps _)
    (Toolchain.confined_installStep _) (fun _ => confined_of_mem_buildPreparation)
    (fun _ => confined_buildStep) (fun _ => confined_of_mem_publicationSteps)
    (fun _ => confined_of_mem_storeSteps) Channel.confined_step s h

/-- The commands of the build job that publish or build can be told by their category, or hold an
expression. -/
theorem confined_of_mem_buildJob {k : Command} (h : k ∈ c.buildJob.commands)
    (hpublishes : Publishes k.text) :
    isBuildCategory k.category = true ∨ HoldsExpression k.text := by
  obtain ⟨s, hs, hk⟩ := List.mem_filterMap.1 h
  exact confined_of_mem_buildJobSteps hs k hk hpublishes

end Config

end AppPipeline
