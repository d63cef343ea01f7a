import AppPipeline.Proofs.Text.Separated
import AppPipeline.Proofs.Workflow.Accepted
import AppPipeline.Proofs.Workflow.Unmarked

/-!
# What is built is what is published

The steps of the build job are read for what they do about files: building, copying to a drive,
archiving, collecting what a release is called, releasing (`Step.acts`). A step in whose command
and action the words for it do not stand does none of it (`Step.Aside.acts_eq`). What the
build job does is read part by part (`Config.acts_buildJob`), so the files that are published
are those that are built (`Config.publication_of_builds`).
-/

namespace AppPipeline

open Text (Avoids Separates Spelled Stands spelled_ofList avoids_of_spelled)

/-! ## Commands about files -/

/-- A command that leaves a file, or copies one. -/
inductive FileCommand where
  | build (file : String)
  | copy (file : String)
  deriving DecidableEq, Repr

namespace FileCommand

/-- The file that an argument names as the output. -/
def outputOf? (argument : List Char) : Option String :=
  if "--output=".toList.isPrefixOf argument then
    some (String.ofList (argument.drop "--output=".length))
  else none

/-- The command that the words begin with. -/
def ofWords : List (List Char) → Option FileCommand
  | program :: mode :: arguments =>
    if program = "eas".toList ∧ mode = "build".toList then
      (arguments.findSome? outputOf?).map .build
    else if program = "rclone".toList ∧ mode = "copy".toList then
      arguments.head?.map fun file => .copy (String.ofList file)
    else none
  | _ => none

/-- The first command among the words. -/
def amongWords : List (List Char) → Option FileCommand
  | [] => none
  | word :: rest => (ofWords (word :: rest)).or (amongWords rest)

def ofLine (line : List Char) : Option FileCommand := amongWords (line.splitOn ' ')

/-- The commands of a script, line by line. -/
def inScript (text : String) : List FileCommand := (text.toList.splitOn '\n').filterMap ofLine

end FileCommand

/-! ### Where there are none -/

theorem prefix_intercalate (sep first : List Char) (others : List (List Char)) :
    first <+: sep.intercalate (first :: others) := by
  cases others with
  | nil => simp
  | cons second others =>
    rw [List.intercalate_cons_cons, List.append_assoc]
    exact List.prefix_append _ _

theorem infix_intercalate {sep part : List Char} {parts : List (List Char)} (h : part ∈ parts) :
    part <:+: sep.intercalate parts := by
  induction parts with
  | nil => cases h
  | cons first others ih =>
    rcases List.mem_cons.1 h with rfl | h
    · exact (prefix_intercalate sep part others).isInfix
    · cases others with
      | nil => cases h
      | cons second others =>
        rw [List.intercalate_cons_cons]
        exact (ih h).trans (List.suffix_append _ _).isInfix

namespace FileCommand

/-- The two words that a command about files begins with. -/
theorem ofWords_eq_some {program mode : List Char} {arguments : List (List Char)} {k : FileCommand}
    (h : ofWords (program :: mode :: arguments) = some k) :
    program ++ [' '] ++ mode = "eas build".toList
      ∨ program ++ [' '] ++ mode = "rclone copy".toList := by
  rw [ofWords] at h
  split at h
  · next hbuild =>
    rw [hbuild.1, hbuild.2]
    exact .inl (by decide)
  · split at h
    · next hcopy =>
      rw [hcopy.1, hcopy.2]
      exact .inr (by decide)
    · cases h

/-- They stand next to each other in the line. -/
theorem stands_of_amongWords {words : List (List Char)} {k : FileCommand}
    (h : amongWords words = some k) :
    "eas build".toList <:+: [' '].intercalate words
      ∨ "rclone copy".toList <:+: [' '].intercalate words := by
  induction words with
  | nil => cases h
  | cons program rest ih =>
    cases rest with
    | nil => cases h
    | cons mode arguments =>
      rw [List.intercalate_cons_cons]
      rcases Option.or_eq_some_iff.1 h with h | ⟨-, h⟩
      · have hprefix : program ++ [' '] ++ mode
            <+: program ++ [' '] ++ [' '].intercalate (mode :: arguments) :=
          (List.prefix_append_right_inj _).2 (prefix_intercalate _ _ _)
        rcases ofWords_eq_some h with he | he
        · exact .inl (he ▸ hprefix.isInfix)
        · exact .inr (he ▸ hprefix.isInfix)
      · have hsuffix : [' '].intercalate (mode :: arguments)
            <:+ program ++ [' '] ++ [' '].intercalate (mode :: arguments) := List.suffix_append _ _
        exact (ih h).imp (·.trans hsuffix.isInfix) (·.trans hsuffix.isInfix)

theorem inScript_eq_nil {text : String} (hbuild : ¬ Stands "eas build" text)
    (hcopy : ¬ Stands "rclone copy" text) : inScript text = [] := by
  rw [inScript, List.filterMap_eq_nil_iff]
  intro line hline
  have hjoined : ['\n'].intercalate (text.toList.splitOn '\n') = text.toList :=
    List.intercalate_splitOn '\n'
  have hinfix : line <:+: text.toList := hjoined ▸ infix_intercalate hline
  rw [← Option.not_isSome_iff_eq_none]
  intro hsome
  obtain ⟨k, hk⟩ := Option.isSome_iff_exists.1 hsome
  rw [ofLine] at hk
  have hstands := stands_of_amongWords hk
  rw [List.intercalate_splitOn] at hstands
  exact hstands.elim (fun h => hbuild (h.trans hinfix)) fun h => hcopy (h.trans hinfix)

end FileCommand

/-! ## Acts -/

/-- What a step does about files; a command under the condition of the step. -/
inductive Act where
  | command (k : FileCommand) (condition : Option String)
  | archive (files : List String)
  | info
  | release (files : List String)
  deriving DecidableEq, Repr

namespace Act

/-- The file that is built. -/
def built? : Act → Option String
  | .command (.build file) _ => some file
  | _ => none

/-- The same file is copied under the same condition. -/
def copied : Act → Act
  | .command (.build file) condition => .command (.copy file) condition
  | a => a

end Act

namespace Step

/-- The action that the step uses, without its version. -/
def action? (s : Step) : Option String :=
  s.uses.map fun reference => String.ofList (reference.toList.takeWhile (· != '@'))

/-- The texts that stand under a key of the inputs, one per line. -/
def listed (s : Step) (key : String) : List String :=
  match s.input? key with
  | some text => (text.toList.splitOn '\n').map String.ofList
  | none => []

def acts (s : Step) : List Act :=
  ((s.run.map FileCommand.inScript).getD []).map (Act.command · s.condition)
    ++ (if s.action? = some "actions/upload-artifact" then [.archive (s.listed "path")] else [])
    ++ (if s.action? = some "softprops/action-gh-release" then [.release (s.listed "files")] else [])
    ++ (if s.id = some "build-info" then [.info] else [])

end Step

namespace Job

/-- What the steps of the job do, one after another. -/
def acts (j : Job) : List Act := j.steps.flatMap Step.acts

/-- The builds among it. -/
def buildActs (j : Job) : List Act := j.acts.filter fun a => a.built?.isSome

end Job

/-! ### Steps that do nothing about files -/

/-- The words that tell of it. -/
def fileWords : List String :=
  ["eas build", "rclone copy", "actions/upload-artifact", "softprops/action-gh-release"]

/-- Beside them, the word that tells of a drive. -/
def publicWords : List String := "rclone" :: fileWords

theorem fileWords_subset : fileWords ⊆ publicWords := List.subset_cons_self _ _

theorem separates_publicWords : ∀ w ∈ publicWords, Separates "\n" w := by decide +kernel

theorem avoids_lines {words : List String} (hwords : words ⊆ publicWords) {lines : List String}
    (h : ∀ line ∈ lines, Avoids words line) : Avoids words (script lines) :=
  Avoids.intercalate (fun w hw => separates_publicWords w (hwords hw)) h

namespace Step

/-- None of the words stands in the command or the action of the step. -/
structure Aside (words : List String) (s : Step) : Prop where
  run : ∀ text ∈ s.run, Avoids words text
  uses : ∀ text ∈ s.uses, Avoids words text

variable {words : List String} {s : Step}

theorem aside_shell {name command : String} (h : Avoids words command) :
    (shell name command).Aside words :=
  ⟨fun _ ht => Option.some.inj ht ▸ h, nofun⟩

theorem aside_action {name reference : String} {inputs : List (String × Json)}
    (h : Avoids words reference) : (action name reference inputs).Aside words :=
  ⟨nofun, fun _ ht => Option.some.inj ht ▸ h⟩

theorem Aside.onlyIf (h : s.Aside words) (condition : Option String) :
    (s.onlyIf condition).Aside words := ⟨h.run, h.uses⟩

theorem Aside.withId (h : s.Aside words) (id : String) : (s.withId id).Aside words :=
  ⟨h.run, h.uses⟩

theorem Aside.withEnv (h : s.Aside words) (env : List (String × String)) :
    (s.withEnv env).Aside words := ⟨h.run, h.uses⟩

theorem Aside.action?_ne (h : s.Aside words) {name : String} (hname : name ∈ words) :
    s.action? ≠ some name := by
  intro haction
  obtain ⟨reference, huses, rfl⟩ := Option.map_eq_some_iff.1 haction
  refine h.uses reference huses _ hname ?_
  rw [Stands, String.toList_ofList]
  exact (List.takeWhile_prefix _).isInfix

/-- The step does nothing about files, and has no part in a drive. -/
structure Quiet (s : Step) : Prop where
  aside : s.Aside publicWords
  id : s.id ≠ some "build-info"

theorem quiet_shell {name command : String} (h : Avoids publicWords command) :
    (shell name command).Quiet := ⟨aside_shell h, nofun⟩

theorem quiet_action {name reference : String} {inputs : List (String × Json)}
    (h : Avoids publicWords reference) : (action name reference inputs).Quiet :=
  ⟨aside_action h, nofun⟩

/-- Only by its id it may tell what a release is called. -/
theorem Aside.acts_eq (h : s.Aside fileWords) :
    s.acts = if s.id = some "build-info" then [.info] else [] := by
  have hrun : (s.run.map FileCommand.inScript).getD [] = [] := by
    cases hs : s.run with
    | none => rfl
    | some text =>
      have htext := h.run text hs
      exact FileCommand.inScript_eq_nil (htext "eas build" (by decide))
        (htext "rclone copy" (by decide))
  rw [acts, hrun, if_neg (h.action?_ne (by decide)), if_neg (h.action?_ne (by decide))]
  rfl

theorem Aside.of_subset (h : s.Aside words) {others : List String} (hsub : others ⊆ words) :
    s.Aside others :=
  ⟨fun t ht => (h.run t ht).of_subset hsub, fun t ht => (h.uses t ht).of_subset hsub⟩

theorem Quiet.acts_eq_nil (h : s.Quiet) : s.acts = [] := by
  rw [(h.aside.of_subset fileWords_subset).acts_eq, if_neg h.id]

theorem flatMap_acts_eq_nil {steps : List Step} (h : ∀ s ∈ steps, s.Quiet) :
    steps.flatMap acts = [] :=
  List.flatMap_eq_nil_iff.2 fun s hs => (h s hs).acts_eq_nil

end Step

/-! ### Steps of the jobs -/

open Step (aside_shell aside_action quiet_shell quiet_action)

namespace Toolchain

theorem quiet_cacheLookup (m : PackageManager) : m.tools.cacheLookup.Quiet := by
  constructor
  · refine (aside_shell ?_).withId _
    cases m <;> exact avoids_of_spelled
      ((spelled_ofList.append spelled_ofList).append spelled_ofList) rfl
  · cases m <;> decide

theorem quiet_of_mem_setupSteps (m : PackageManager) {nodeVersion : String} {caching : Bool} :
    ∀ s ∈ m.tools.setupSteps nodeVersion caching, s.Quiet := by
  refine forall_mem_setupSteps (quiet_action (avoids_ofList rfl)) ?_
    (quiet_action (avoids_ofList rfl)) (quiet_cacheLookup m) (quiet_action (avoids_ofList rfl))
  cases m with
  | pnpm => exact List.forall_mem_singleton.2 (quiet_action (avoids_ofList rfl))
  | _ => exact List.forall_mem_nil _

theorem quiet_installStep (m : PackageManager) {further : List String}
    (h : ∀ line ∈ further, Avoids publicWords line) : (m.tools.installStep further).Quiet := by
  refine quiet_shell (avoids_lines (List.Subset.refl _) (List.forall_mem_cons.2 ⟨?_, h⟩))
  cases m <;> exact avoids_ofList rfl

theorem avoids_publicWords_globalCliInstall (m : PackageManager) :
    Avoids publicWords m.tools.globalCliInstall := by
  cases m <;> exact avoids_ofList rfl

end Toolchain

theorem quiet_of_mem_buildPreparation : ∀ s ∈ buildPreparation, s.Quiet := by
  have hlines {lines : List String} (h : ∀ line ∈ lines, Avoids publicWords line) :
      Avoids publicWords (script lines) := avoids_lines (List.Subset.refl _) h
  simp only [buildPreparation, List.forall_mem_cons, List.not_mem_nil, false_implies, implies_true,
    and_true]
  refine ⟨quiet_action (avoids_ofList rfl), quiet_shell (hlines ?_), quiet_shell (hlines ?_),
    quiet_shell (hlines ?_)⟩
  all_goals
    simp only [List.forall_mem_cons, List.not_mem_nil, false_implies, implies_true, and_true]
    repeat' apply And.intro
  all_goals exact avoids_ofList rfl

theorem Channel.quiet_step (channel : Channel) : channel.step.Quiet := by
  cases channel with
  | slack => exact ⟨((aside_action (avoids_ofList rfl)).onlyIf _).withEnv _, nofun⟩
  | discord => exact ⟨(aside_action (avoids_ofList rfl)).onlyIf _, nofun⟩

namespace Config

variable {c : Config}

theorem quiet_of_mem_testSteps : ∀ s ∈ c.testSteps, s.Quiet := by
  refine forall_mem_testSteps (Toolchain.quiet_of_mem_setupSteps _)
    (Toolchain.quiet_installStep _ (List.forall_mem_nil _)) (forall_mem_checkSteps ?_ ?_)
  · intro kind
    cases c.packageManager <;> cases kind <;> exact quiet_shell (avoids_ofList rfl)
  · intro suite
    cases c.packageManager <;> cases suite <;> exact quiet_shell (avoids_ofList rfl)

theorem quiet_manualStep (p : Platform) {name command : String} (h : Avoids publicWords command) :
    (c.manualStep p name command).Quiet := ⟨(aside_shell h).onlyIf _, nofun⟩

theorem quiet_of_mem_storeSteps : ∀ s ∈ c.storeSteps, s.Quiet :=
  forall_mem_storeSteps (fun _ => quiet_manualStep _ (avoids_ofList rfl))
    (fun _ => quiet_manualStep _ (avoids_ofList rfl))
    fun _ => quiet_manualStep _ (avoids_ofList rfl)

end Config

/-! ## What the build job does -/

namespace FileCommand

theorem inScript_of_spelled {text file : String} {cs fs : List Char} {make : String → FileCommand}
    (htext : Spelled text cs) (hfile : Spelled file fs)
    (h : (cs.splitOn '\n').filterMap ofLine = [make (String.ofList fs)]) :
    inScript text = [make file] := by
  rw [inScript, htext, h, ← hfile, String.ofList_toList]

theorem spelled_output {b : Build} {file : List Char} (h : Spelled b.file file) :
    Spelled b.output (['.', '/'] ++ file) := spelled_ofList.append h

/-- A build names the file that it leaves, and no drive. -/
theorem exists_spelled_command {b : Build} (hb : b ∈ Build.androidBuilds ++ Build.iosBuilds) :
    ∃ cs fs, Spelled b.command cs ∧ Spelled b.output fs
      ∧ (cs.splitOn '\n').filterMap ofLine = [.build (String.ofList fs)]
      ∧ Text.findsAny ["rclone"] cs = false := by
  have htext {platform profile file : List Char} {b : Build}
      (hplatform : Spelled b.platform.name platform) (hprofile : Spelled b.profile profile)
      (hfile : Spelled b.file file) : Spelled b.command _ :=
    .script_cons spelled_ofList (.script_singleton
      (((((spelled_ofList.append hplatform).append spelled_ofList).append hprofile).append
        spelled_ofList).append (spelled_output hfile)))
  simp only [Build.androidBuilds, Build.iosBuilds, List.cons_append, List.nil_append,
    List.mem_cons, List.not_mem_nil, or_false] at hb
  rcases hb with rfl | rfl | rfl | rfl | rfl <;>
    exact ⟨_, _, htext spelled_ofList spelled_ofList spelled_ofList, spelled_output spelled_ofList,
      rfl, rfl⟩

theorem inScript_command {b : Build} (hb : b ∈ Build.androidBuilds ++ Build.iosBuilds) :
    inScript b.command = [.build b.output] := by
  obtain ⟨cs, fs, htext, hfile, h, -⟩ := exists_spelled_command hb
  exact inScript_of_spelled htext hfile h

theorem inScript_copy {s : Storage} {d : Drive} (hd : s.drive? = some d) {b : Build}
    (hb : b ∈ Build.androidBuilds ++ Build.iosBuilds) :
    inScript ("rclone copy " ++ b.output ++ " " ++ d.remote ++ ":builds/"
      ++ hosted "github.run_number" ++ "/") = [.copy b.output] := by
  have htext {file remote : List Char} {b : Build} {d : Drive} (hfile : Spelled b.file file)
      (hremote : Spelled d.remote remote) :
      Spelled ("rclone copy " ++ b.output ++ " " ++ d.remote ++ ":builds/"
        ++ hosted "github.run_number" ++ "/") _ :=
    (((((spelled_ofList.append (spelled_output hfile)).append spelled_ofList).append
      hremote).append spelled_ofList).append spelled_ofList.hosted).append spelled_ofList
  simp only [Build.androidBuilds, Build.iosBuilds, List.cons_append, List.nil_append,
    List.mem_cons, List.not_mem_nil, or_false] at hb
  cases s <;> cases hd <;> rcases hb with rfl | rfl | rfl | rfl | rfl <;>
    exact inScript_of_spelled (htext spelled_ofList spelled_ofList)
      (spelled_output spelled_ofList) rfl

end FileCommand

theorem Step.acts_shell (name command : String) (condition : Option String) :
    ((shell name command).onlyIf condition).acts
      = (FileCommand.inScript command).map (Act.command · condition) := by
  simp [acts, shell, onlyIf, action?]

/-- The file of a build, under the condition of the step that builds it. -/
def Config.buildAct (c : Config) (b : Build) : Act :=
  .command (.build b.output) (c.buildGuard b)

namespace Config

variable {c : Config}

theorem acts_buildStep {b : Build} (hb : b ∈ c.builds) : (c.buildStep b).acts = [c.buildAct b] := by
  have hshell : (c.buildStep b).acts
      = ((Step.shell b.label b.command).onlyIf (c.buildGuard b)).acts := rfl
  rw [hshell, Step.acts_shell, FileCommand.inScript_command (mem_table_of_mem_builds hb)]
  rfl

theorem acts_uploadStep {d : Drive} (hd : c.storage.drive? = some d) {b : Build}
    (hb : b ∈ c.builds) : (c.uploadStep d b).acts = [(c.buildAct b).copied] := by
  rw [uploadStep, Step.acts_shell, FileCommand.inScript_copy hd (mem_table_of_mem_builds hb)]
  rfl

/-- The lines of the files are the files. -/
theorem lines_artifacts (h : c.builds ≠ []) :
    ((script c.artifacts).toList.splitOn '\n').map String.ofList = c.artifacts := by
  have hfree : ∀ b ∈ Build.androidBuilds ++ Build.iosBuilds, '\n' ∉ b.output.toList := by decide
  have hne : c.artifacts ≠ [] := fun he => h (List.map_eq_nil_iff.1 he)
  have hlines : ∀ file ∈ c.artifacts, '\n' ∉ file.toList := by
    rw [artifacts, List.forall_mem_map]
    exact fun b hb => hfree b (mem_table_of_mem_builds hb)
  rw [script, Text.splitOn_intercalate rfl hne hlines, List.map_map]
  simp

theorem acts_archiveStep (c : Config) :
    c.archiveStep.acts = [.archive (c.archiveStep.listed "path")] := by
  have haction : c.archiveStep.action? = some "actions/upload-artifact" := by
    simp [archiveStep, Step.action, Step.action?]
  have hrun : c.archiveStep.run = none := rfl
  have hid : c.archiveStep.id = none := rfl
  simp [Step.acts, haction, hrun, hid]

theorem acts_releaseStep (files : List String) :
    (releaseStep files).acts = [.release ((releaseStep files).listed "files")] := by
  have haction : (releaseStep files).action? = some "softprops/action-gh-release" := by
    simp [releaseStep, Step.action, Step.action?]
  have hrun : (releaseStep files).run = none := rfl
  have hid : (releaseStep files).id = none := rfl
  simp [Step.acts, haction, hrun, hid]

theorem listed_archiveStep (h : c.builds ≠ []) : c.archiveStep.listed "path" = c.artifacts :=
  lines_artifacts h

theorem listed_releaseStep (h : c.builds ≠ []) :
    (releaseStep c.artifacts).listed "files" = c.artifacts := lines_artifacts h

theorem aside_buildInfoStep : buildInfoStep.Aside publicWords := by
  refine (aside_shell (avoids_lines (List.Subset.refl _) ?_)).withId _
  simp only [List.forall_mem_cons, List.not_mem_nil, false_implies, implies_true, and_true]
  exact ⟨avoids_ofList rfl, avoids_ofList rfl,
    avoids_of_spelled ((spelled_ofList.append spelled_ofList.hosted).append spelled_ofList) rfl,
    avoids_ofList rfl⟩

theorem acts_buildInfoStep : buildInfoStep.acts = [.info] :=
  (aside_buildInfoStep.of_subset fileWords_subset).acts_eq

theorem acts_setupStep : Drive.setupStep.acts = [] :=
  Step.Aside.acts_eq (aside_action (avoids_ofList rfl))

/-- The configuration of a drive names its program, but no file. -/
theorem acts_configStep {d : Drive} (hd : c.storage.drive? = some d) : d.configStep.acts = [] := by
  refine Step.Aside.acts_eq (aside_shell (avoids_lines fileWords_subset ?_))
  cases hstorage : c.storage <;> rw [hstorage] at hd <;> cases hd
  all_goals
    simp only [List.map_cons, List.map_nil, List.cons_append, List.nil_append,
      List.forall_mem_cons, List.not_mem_nil, false_implies, implies_true, and_true]
    exact ⟨avoids_ofList rfl, avoids_ofList rfl,
      avoids_of_spelled ((spelled_ofList.append spelled_ofList).append spelled_ofList) rfl,
      avoids_of_spelled ((spelled_ofList.append spelled_ofList).append spelled_ofList) rfl,
      avoids_of_spelled ((spelled_ofList.append spelled_ofList).append spelled_ofList) rfl,
      avoids_of_spelled ((spelled_ofList.append spelled_ofList).append spelled_ofList) rfl,
      avoids_ofList rfl⟩

/-! ### The whole job -/

theorem flatMap_acts_map {f : Build → Step} {g : Build → Act}
    (h : ∀ b ∈ c.builds, (f b).acts = [g b]) :
    (c.builds.map f).flatMap Step.acts = c.builds.map g := by
  rw [List.flatMap_map, List.flatMap_congr h]
  exact List.map_eq_flatMap.symm

/-- Outside of its publication the job does nothing about files but building them. -/
theorem acts_buildJob (c : Config) :
    c.buildJob.acts = c.builds.map c.buildAct ++ c.publicationSteps.flatMap Step.acts := by
  have hsetup : (c.packageManager.tools.setupSteps c.nodeVersion c.options.caching).flatMap Step.acts
      = [] := Step.flatMap_acts_eq_nil (Toolchain.quiet_of_mem_setupSteps _)
  have hinstall : (c.packageManager.tools.installStep
      [c.packageManager.tools.globalCliInstall]).acts = [] :=
    (Toolchain.quiet_installStep _ (List.forall_mem_singleton.2
      (Toolchain.avoids_publicWords_globalCliInstall _))).acts_eq_nil
  have hpreparation := Step.flatMap_acts_eq_nil quiet_of_mem_buildPreparation
  have hbuilds := flatMap_acts_map (c := c) fun b hb => acts_buildStep hb
  have hstores := Step.flatMap_acts_eq_nil (quiet_of_mem_storeSteps (c := c))
  have hchannels : (c.options.channels.map Channel.step).flatMap Step.acts = [] :=
    Step.flatMap_acts_eq_nil (List.forall_mem_map.2 fun channel _ => channel.quiet_step)
  have hsteps : c.buildJob.steps = c.buildJobSteps := rfl
  simp only [Job.acts, hsteps, buildJobSteps, buildSteps, List.flatMap_append, List.flatMap_cons,
    hsetup, hinstall, hpreparation, hbuilds, hstores, hchannels, List.nil_append, List.append_nil]

/-- All steps of the build job but those of its builds and its publication are quiet. -/
theorem forall_mem_buildJob {P : Step → Prop} (quiet : ∀ s : Step, s.Quiet → P s)
    (builds : ∀ b ∈ c.builds, P (c.buildStep b)) (publication : ∀ s ∈ c.publicationSteps, P s) :
    ∀ s ∈ c.buildJob.steps, P s :=
  forall_mem_buildJobSteps
    (fun s hs => quiet s (Toolchain.quiet_of_mem_setupSteps _ s hs))
    (quiet _ (Toolchain.quiet_installStep _ (List.forall_mem_singleton.2
      (Toolchain.avoids_publicWords_globalCliInstall _))))
    (fun s hs => quiet s (quiet_of_mem_buildPreparation s hs)) builds publication
    (fun s hs => quiet s (quiet_of_mem_storeSteps s hs)) fun channel => quiet _ channel.quiet_step

theorem length_acts_le (c : Config) : ∀ s ∈ c.buildJob.steps, s.acts.length ≤ 1 := by
  have hnone {s : Step} (h : s.acts = []) : s.acts.length ≤ 1 := by
    rw [h]
    exact Nat.zero_le 1
  have hone {s : Step} {a : Act} (h : s.acts = [a]) : s.acts.length ≤ 1 := by
    rw [h]
    exact Nat.le_refl 1
  exact forall_mem_buildJob (fun s hs => hnone hs.acts_eq_nil) (fun b hb => hone (acts_buildStep hb))
    (forall_mem_publicationSteps (hnone acts_setupStep) (fun d hd => hnone (acts_configStep hd))
      (fun d hd b hb => hone (acts_uploadStep hd hb)) (hone (acts_archiveStep c))
      (hone acts_buildInfoStep) (hone (acts_releaseStep _)))

theorem avoids_command {b : Build} (hb : b ∈ c.builds) : Avoids ["rclone"] b.command := by
  obtain ⟨cs, -, htext, -, -, h⟩ := FileCommand.exists_spelled_command (mem_table_of_mem_builds hb)
  exact avoids_of_spelled htext h

/-- Where the storage is no drive, no step of the jobs has a part in one. -/
theorem aside_of_mem_jobs (h : c.storage.drive? = none) :
    ∀ j ∈ c.compile.jobs, ∀ s ∈ j.steps, s.Aside ["rclone"] := by
  have hsub : ["rclone"] ⊆ publicWords := by decide
  have hquiet (s : Step) (hs : s.Quiet) : s.Aside ["rclone"] := hs.aside.of_subset hsub
  have hpublication : ∀ s ∈ c.publicationSteps, s.Aside ["rclone"] := by
    rw [publicationSteps, h]
    cases c.builds.isEmpty with
    | true => exact List.forall_mem_nil _
    | false =>
      exact List.forall_mem_cons.2 ⟨aside_action (avoids_ofList rfl), List.forall_mem_cons.2
        ⟨aside_buildInfoStep.of_subset hsub,
          List.forall_mem_singleton.2 (aside_action (avoids_ofList rfl))⟩⟩
  intro j hj
  rcases c.mem_jobs hj with rfl | ⟨-, rfl⟩ | rfl
  · exact List.forall_mem_singleton.2 (aside_shell (avoids_ofList rfl))
  · exact fun s hs => hquiet s (quiet_of_mem_testSteps s hs)
  · exact forall_mem_buildJob hquiet
      (fun b hb => ((aside_shell (avoids_command hb)).onlyIf _).withEnv _) hpublication

theorem publicationActs_of_drive {d : Drive} (hd : c.storage.drive? = some d) :
    c.publicationSteps.flatMap Step.acts
      = c.builds.map (fun b => (c.buildAct b).copied)
        ++ if c.builds.isEmpty then [] else [.archive c.artifacts] := by
  have huploads := flatMap_acts_map fun b hb => acts_uploadStep hd hb
  have hsteps : c.driveSteps d = Drive.setupStep :: d.configStep :: c.builds.map (c.uploadStep d) :=
    rfl
  rw [publicationSteps, hd]
  simp only [List.flatMap_append, hsteps, List.flatMap_cons, acts_setupStep, acts_configStep hd,
    List.nil_append, huploads]
  cases hempty : c.builds.isEmpty with
  | true => rfl
  | false =>
    have hne : c.builds ≠ [] := fun he => by simp [he] at hempty
    simp [acts_archiveStep, listed_archiveStep hne]

theorem publicationActs_of_release (hd : c.storage.drive? = none) :
    c.publicationSteps.flatMap Step.acts
      = if c.builds.isEmpty then [] else [.archive c.artifacts, .info, .release c.artifacts] := by
  rw [publicationSteps, hd]
  cases hempty : c.builds.isEmpty with
  | true => rfl
  | false =>
    have hne : c.builds ≠ [] := fun he => by simp [he] at hempty
    simp [acts_archiveStep, listed_archiveStep hne, acts_buildInfoStep, acts_releaseStep,
      listed_releaseStep hne]

/-- Nothing is built where it is published. -/
theorem built?_of_mem_publication (c : Config) :
    ∀ a ∈ c.publicationSteps.flatMap Step.acts, a.built? = none := by
  cases hd : c.storage.drive? with
  | some d =>
    rw [publicationActs_of_drive hd, List.forall_mem_append, List.forall_mem_map]
    refine ⟨fun b _ => rfl, ?_⟩
    cases c.builds.isEmpty with
    | true => exact List.forall_mem_nil _
    | false => exact List.forall_mem_singleton.2 rfl
  | none =>
    rw [publicationActs_of_release hd]
    cases c.builds.isEmpty with
    | true => exact List.forall_mem_nil _
    | false =>
      exact List.forall_mem_cons.2 ⟨rfl, List.forall_mem_cons.2
        ⟨rfl, List.forall_mem_singleton.2 rfl⟩⟩

theorem filterMap_built? (c : Config) : c.buildJob.acts.filterMap Act.built? = c.artifacts := by
  have hbuilds : (c.builds.map c.buildAct).filterMap Act.built? = c.artifacts := by
    have hbuilt : Act.built? ∘ c.buildAct = fun b => some b.output := rfl
    rw [List.filterMap_map, hbuilt, List.filterMap_eq_map']
    rfl
  rw [acts_buildJob, List.filterMap_append, hbuilds,
    List.filterMap_eq_nil_iff.2 c.built?_of_mem_publication, List.append_nil]

theorem buildActs_buildJob (c : Config) : c.buildJob.buildActs = c.builds.map c.buildAct := by
  have hbuilds : (c.builds.map c.buildAct).filter (fun a => a.built?.isSome)
      = c.builds.map c.buildAct := List.filter_eq_self.2 (List.forall_mem_map.2 fun _ _ => rfl)
  have hpublication : (c.publicationSteps.flatMap Step.acts).filter (fun a => a.built?.isSome) = [] :=
    List.filter_eq_nil_iff.2 fun a ha => by simp [c.built?_of_mem_publication a ha]
  rw [Job.buildActs, acts_buildJob, List.filter_append, hbuilds, hpublication, List.append_nil]

/-- The job builds the files of the configuration. They are archived as they were built, and
released or, each under the condition of its build, copied to the drive; where there are none,
nothing is. No step does two of these. -/
theorem publication_of_builds (c : Config) :
    ∃ j, c.compile.job? c.buildJobId = some j ∧
      (∀ s ∈ j.steps, s.acts.length ≤ 1) ∧
      j.acts.filterMap Act.built? = c.artifacts ∧
      (c.artifacts = [] → j.acts = []) ∧
      (c.artifacts ≠ [] → c.storage = .githubRelease →
        j.acts = j.buildActs ++ [.archive c.artifacts, .info, .release c.artifacts]) ∧
      (c.artifacts ≠ [] → c.storage ≠ .githubRelease →
        j.acts = j.buildActs ++ j.buildActs.map Act.copied ++ [.archive c.artifacts]) ∧
      (c.storage = .githubRelease →
        ∀ other ∈ c.compile.jobs, ∀ s ∈ other.steps, s.Aside ["rclone"]) := by
  have hempty : c.artifacts = [] ↔ c.builds = [] := List.map_eq_nil_iff
  have hnone (h : c.storage = .githubRelease) : c.storage.drive? = none := by
    rw [h]
    rfl
  refine ⟨c.buildJob, c.job?_build, c.length_acts_le, c.filterMap_built?, fun h => ?_,
    fun h hrelease => ?_, fun h hdrive => ?_, fun h => aside_of_mem_jobs (hnone h)⟩
  · cases hd : c.storage.drive? with
    | some d => simp [acts_buildJob, publicationActs_of_drive hd, hempty.1 h]
    | none => simp [acts_buildJob, publicationActs_of_release hd, hempty.1 h]
  · have hne : c.builds.isEmpty ≠ true := fun he => h (hempty.2 (List.isEmpty_iff.1 he))
    rw [buildActs_buildJob, acts_buildJob, publicationActs_of_release (hnone hrelease),
      if_neg hne]
  · have hne : c.builds.isEmpty ≠ true := fun he => h (hempty.2 (List.isEmpty_iff.1 he))
    obtain ⟨d, hd⟩ : ∃ d, c.storage.drive? = some d := by
      cases hstorage : c.storage with
      | githubRelease => exact absurd hstorage hdrive
      | _ => exact ⟨_, rfl⟩
    rw [buildActs_buildJob, acts_buildJob, publicationActs_of_drive hd, if_neg hne, List.map_map,
      List.append_assoc]
    rfl

/-- Two builds that are copied to a drive, and one that is released. -/
theorem publication_of_builds_drive :
    (let c : Config := { buildTypes := [.prodAab, .dev], storage := .googleDrive }
      ∃ j, c.compile.job? "build-and-deploy" = some j ∧
        j.acts = j.buildActs ++ j.buildActs.map Act.copied
          ++ [.archive ["./app-dev.apk", "./app-prod.aab"]]) ∧
    (let c : Config := { buildTypes := [.prodApk] }
      ∃ j, c.compile.job? "build-and-release" = some j ∧
        j.acts = j.buildActs
          ++ [.archive ["./app-prod.apk"], .info, .release ["./app-prod.apk"]]) ∧
    (let c : Config := { storage := .custom }
      ∃ j, c.compile.job? "build-and-deploy" = some j ∧ j.acts = []) := by
  refine ⟨?_, ?_, ?_⟩
  · intro c
    have hartifacts : c.artifacts = ["./app-dev.apk", "./app-prod.aab"] := by decide
    obtain ⟨j, hj, -, -, -, -, hdrive, -⟩ := publication_of_builds c
    exact ⟨j, hj, hartifacts ▸ hdrive (hartifacts ▸ List.cons_ne_nil _ _) nofun⟩
  · intro c
    have hartifacts : c.artifacts = ["./app-prod.apk"] := by decide
    obtain ⟨j, hj, -, -, -, hrelease, -⟩ := publication_of_builds c
    exact ⟨j, hj, hartifacts ▸ hrelease (hartifacts ▸ List.cons_ne_nil _ _) rfl⟩
  · intro c
    obtain ⟨j, hj, -, -, hnothing, -⟩ := publication_of_builds c
    exact ⟨j, hj, hnothing rfl⟩

end Config

end AppPipeline
