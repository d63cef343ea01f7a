import AppPipeline.Proofs.Workflow.Accepted
import AppPipeline.Proofs.Workflow.Ordinary
import AppPipeline.Validation.Text

/-!
# Emitted documents are accepted

All texts of a compiled document are ordinary besides the version of Node, so the document
is read as the one of a configuration with another version (`readsAs_compile`), which is
accepted like every compiled document (`emitted_accepted`).
-/

namespace AppPipeline

open Json (ReadsAs FieldsReadAs ShortKey shortKey_ofList)
open Text (ordinary_ofList ordinary_append)

/-! ## Steps -/

namespace Step

variable {s : Step} {key : String} {text : Option String} {n : Nat}
variable {inputs fields read : List (String × Json)}

theorem fieldsReadAs_textField (hkey : ShortKey key) (h : ∀ t ∈ text, Text.Ordinary t) :
    FieldsReadAs (n + 1) (textField key text) (textField key text) := by
  cases text with
  | none => exact .nil
  | some t => exact .single hkey (.text (h t rfl))

theorem fieldsReadAs_objectField (hkey : ShortKey key)
    (h : ReadsAs n (.object fields) (.object read)) :
    FieldsReadAs n (objectField key fields) (objectField key read) := by
  obtain rfl := Json.object.inj h.readBack
  cases fields with
  | nil => exact .nil
  | cons e es => exact .single hkey h

theorem keys_textField : ((textField key text).map Prod.fst).Sublist [key] := by
  cases text with
  | none => exact List.nil_sublist _
  | some t => exact List.Sublist.refl _

theorem keys_objectField : ((objectField key fields).map Prod.fst).Sublist [key] := by
  cases fields with
  | nil => exact List.nil_sublist _
  | cons e es => exact List.Sublist.refl _

/-- The step is read as it is, but with the given inputs. -/
structure ReadsWith (s : Step) (inputs : List (String × Json)) : Prop where
  name : ∀ t ∈ s.name, Text.Ordinary t
  id : ∀ t ∈ s.id, Text.Ordinary t
  condition : ∀ t ∈ s.condition, Text.Ordinary t
  uses : ∀ t ∈ s.uses, Text.Ordinary t
  inputs : ReadsAs 2 (.object s.inputs) (.object inputs)
  run : ∀ t ∈ s.run, Text.Ordinary t
  env : ReadsAs 2 (.object s.env) (.object s.env)

/-- The step is read as it is. -/
def Ordinary (s : Step) : Prop := s.ReadsWith s.inputs

theorem readsAs_empty : ReadsAs (n + 1) (.object []) (.object []) := .object .nil List.nodup_nil

theorem ReadsWith.toJson (h : s.ReadsWith inputs) :
    ReadsAs 3 s.toJson { s with inputs := inputs }.toJson := by
  refine .object ?_ ?_
  · exact ((((((fieldsReadAs_textField (shortKey_ofList (by decide)) h.name).append
      (fieldsReadAs_textField (shortKey_ofList (by decide)) h.id)).append
      (fieldsReadAs_textField (shortKey_ofList (by decide)) h.condition)).append
      (fieldsReadAs_textField (shortKey_ofList (by decide)) h.uses)).append
      (fieldsReadAs_objectField (shortKey_ofList (by decide)) h.inputs)).append
      (fieldsReadAs_textField (shortKey_ofList (by decide)) h.run)).append
      (fieldsReadAs_objectField (shortKey_ofList (by decide)) h.env)
  · refine List.Nodup.sublist ?_ (show (["name"] ++ ["id"] ++ ["if"] ++ ["uses"] ++ ["with"]
      ++ ["run"] ++ ["env"]).Nodup by decide)
    simp only [List.map_append]
    exact (((((keys_textField.append keys_textField).append keys_textField).append
      keys_textField).append keys_objectField).append keys_textField).append keys_objectField

theorem ordinary_shell {name command : String} (hname : Text.Ordinary name)
    (hcommand : Text.Ordinary command) : (shell name command).Ordinary where
  name := by rintro t ⟨⟩; exact hname
  id := nofun
  condition := nofun
  uses := nofun
  inputs := readsAs_empty
  run := by rintro t ⟨⟩; exact hcommand
  env := readsAs_empty

theorem readsWith_action {name reference : String} (hname : Text.Ordinary name)
    (hreference : Text.Ordinary reference) (h : ReadsAs 2 (.object inputs) (.object read)) :
    (action name reference inputs).ReadsWith read where
  name := by rintro t ⟨⟩; exact hname
  id := nofun
  condition := nofun
  uses := by rintro t ⟨⟩; exact hreference
  inputs := h
  run := nofun
  env := readsAs_empty

theorem ordinary_action {name reference : String} (hname : Text.Ordinary name)
    (hreference : Text.Ordinary reference) (h : FieldsReadAs 1 inputs inputs)
    (hkeys : (inputs.map Prod.fst).Nodup) : (action name reference inputs).Ordinary :=
  readsWith_action hname hreference (.object h hkeys)

theorem Ordinary.onlyIf (h : s.Ordinary) {condition : Option String}
    (hcondition : ∀ t ∈ condition, Text.Ordinary t) : (s.onlyIf condition).Ordinary :=
  { h with condition := hcondition }

theorem Ordinary.withId (h : s.Ordinary) {id : String} (hid : Text.Ordinary id) :
    (s.withId id).Ordinary :=
  { h with id := by rintro t ⟨⟩; exact hid }

theorem Ordinary.withEnv (h : s.Ordinary) {env : List (String × String)}
    (henv : ∀ e ∈ env, ShortKey e.1 ∧ Text.Ordinary e.2) (hkeys : (env.map Prod.fst).Nodup) :
    (s.withEnv env).Ordinary :=
  { h with env := .textFields henv hkeys }

theorem Ordinary.readsAs (h : s.Ordinary) : ReadsAs 3 s.toJson s.toJson := h.toJson

/-- The steps are read as the others, one by one. -/
def ListReadsAs (steps read : List Step) : Prop :=
  List.Forall₂ (fun s t => ReadsAs 3 s.toJson t.toJson) steps read

variable {t : Step} {steps read further : List Step}

theorem ListReadsAs.cons (h : ReadsAs 3 s.toJson t.toJson) (hrest : ListReadsAs steps read) :
    ListReadsAs (s :: steps) (t :: read) := List.Forall₂.cons h hrest

theorem ListReadsAs.same (h : ∀ s ∈ steps, s.Ordinary) : ListReadsAs steps steps :=
  List.forall₂_same.2 fun s hs => (h s hs).readsAs

/-- Ordinary steps may follow. -/
theorem ListReadsAs.append_same (h : ListReadsAs steps read)
    (hfurther : ∀ s ∈ further, s.Ordinary) :
    ListReadsAs (steps ++ further) (read ++ further) :=
  List.rel_append h (ListReadsAs.same hfurther)

end Step

/-! ## Preparing a job -/

/-- All names and commands of the toolchain are ordinary. -/
structure Toolchain.Ordinary (t : Toolchain) : Prop where
  name : Text.Ordinary t.name
  install : Text.Ordinary t.install
  cacheDir : Text.Ordinary t.cacheDir
  lockFile : Text.Ordinary t.lockFile
  globalCliInstall : Text.Ordinary t.globalCliInstall
  typecheck : Text.Ordinary t.typecheck
  lint : Text.Ordinary t.lint
  formatCheck : Text.Ordinary t.formatCheck
  test : Text.Ordinary t.test
  testRntl : Text.Ordinary t.testRntl
  testHooks : Text.Ordinary t.testHooks
  setupAction : ∀ a ∈ t.setupAction, Text.Ordinary a

theorem PackageManager.ordinary_tools (m : PackageManager) : m.tools.Ordinary := by
  cases m <;> constructor
  case pnpm.setupAction =>
    rintro a ⟨⟩
    exact ordinary_ofList (by decide)
  case yarn.setupAction => rintro a ⟨⟩
  case npm.setupAction => rintro a ⟨⟩
  all_goals exact ordinary_ofList (by decide)

namespace Toolchain

variable {t : Toolchain} (ht : t.Ordinary)

include ht

theorem ordinary_of_mem_setupManager {s : Step} (hs : s ∈ t.setupManager) : s.Ordinary := by
  rw [setupManager, Option.mem_toList, Option.map_eq_some_iff] at hs
  obtain ⟨a, ha, rfl⟩ := hs
  exact Step.ordinary_action (ht.name.after (by decide)) (ht.setupAction a ha)
    (.single (shortKey_ofList (by decide)) (.text (ordinary_ofList (by decide)))) (by decide)

theorem ordinary_cacheDirStepId : Text.Ordinary t.cacheDirStepId :=
  ht.name.before (by decide)

theorem ordinary_cacheDirScript : Text.Ordinary t.cacheDirScript :=
  ht.cacheDir.between (by decide) (by decide)

theorem ordinary_of_mem_cacheSteps {s : Step} (hs : s ∈ t.cacheSteps) : s.Ordinary := by
  have hkey : Text.Ordinary (hosted "runner.os" ++ "-" ++ t.name ++ "-") :=
    (((ordinary_hosted (ordinary_ofList (by decide))).before (by decide)).append ht.name).before
      (by decide)
  have hdir : Text.Ordinary (hosted ("steps." ++ t.cacheDirStepId ++ ".outputs.dir")) :=
    ordinary_hosted ((ordinary_cacheDirStepId ht).between (by decide) (by decide))
  have hhash : Text.Ordinary (hosted ("hashFiles('**/" ++ t.lockFile ++ "')")) :=
    ordinary_hosted (ht.lockFile.between (by decide) (by decide))
  simp only [cacheSteps, List.mem_cons, List.not_mem_nil, or_false] at hs
  rcases hs with rfl | rfl
  · exact (Step.ordinary_shell (ht.name.between (by decide) (by decide))
      (ordinary_cacheDirScript ht)).withId (ordinary_cacheDirStepId ht)
  · exact Step.ordinary_action (ht.name.between (by decide) (by decide))
      (ordinary_ofList (by decide)) (.cons (shortKey_ofList (by decide)) (.text hdir)
        (.cons (shortKey_ofList (by decide)) (.text (hkey.append hhash))
          (.single (shortKey_ofList (by decide)) (.text hkey)))) (by simp)

/-- The version of Node is the one text that need not come back as it was. -/
theorem readsAs_setupSteps {nodeVersion : String} (h : Text.Coded nodeVersion.toList)
    (caching : Bool) : Step.ListReadsAs (t.setupSteps nodeVersion caching)
      (t.setupSteps (Json.readBackText nodeVersion) caching) := by
  have hcheckout : (Step.action "🏗 Checkout repository" checkoutAction []).Ordinary :=
    Step.ordinary_action (ordinary_ofList (by decide)) (ordinary_ofList (by decide)) .nil
      List.nodup_nil
  have hnode : (Step.action "🏗 Setup Node.js" setupNodeAction
      [("node-version", .str nodeVersion), ("cache", .str t.name)]).ReadsWith
        [("node-version", .str (Json.readBackText nodeVersion)), ("cache", .str t.name)] :=
    Step.readsWith_action (ordinary_ofList (by decide)) (ordinary_ofList (by decide))
      (.object (.cons (shortKey_ofList (by decide)) (.coded h)
        (.single (shortKey_ofList (by decide)) (.text ht.name))) (by simp))
  have hcache : ∀ s ∈ if caching then t.cacheSteps else [], s.Ordinary := by
    intro s hs
    split at hs
    · exact ordinary_of_mem_cacheSteps ht hs
    · cases hs
  have hmanager : ∀ s ∈ t.setupManager, s.Ordinary := fun s => ordinary_of_mem_setupManager ht
  exact List.rel_append (Step.ListReadsAs.cons hcheckout.readsAs (.same hmanager))
    (Step.ListReadsAs.cons hnode.toJson (.same hcache))

theorem ordinary_installStep {further : List String} (h : ∀ l ∈ further, Text.Ordinary l) :
    (t.installStep further).Ordinary :=
  Step.ordinary_shell (ordinary_ofList (by decide))
    (ordinary_script (List.forall_mem_cons.2 ⟨ht.install, h⟩))

end Toolchain

theorem Config.ordinary_of_mem_checkSteps {c : Config} {s : Step} (hs : s ∈ c.checkSteps) :
    s.Ordinary := by
  have ht := c.packageManager.ordinary_tools
  simp only [checkSteps, List.mem_append, List.mem_map] at hs
  rcases hs with ⟨k, _, rfl⟩ | ⟨suite, _, rfl⟩
  · cases k
    · exact Step.ordinary_shell (ordinary_ofList (by decide)) ht.typecheck
    · exact Step.ordinary_shell (ordinary_ofList (by decide)) ht.lint
    · exact Step.ordinary_shell (ordinary_ofList (by decide)) ht.formatCheck
  · cases suite
    · exact Step.ordinary_shell (ordinary_ofList (by decide)) ht.test
    · exact Step.ordinary_shell (ordinary_ofList (by decide)) ht.testRntl
    · exact Step.ordinary_shell (ordinary_ofList (by decide)) ht.testHooks

/-! ## Builds -/

/-- All texts of the build are ordinary. -/
structure Build.Ordinary (b : Build) : Prop where
  label : Text.Ordinary b.label
  profile : Text.Ordinary b.profile
  file : Text.Ordinary b.file
  nodeEnv : Text.Ordinary b.nodeEnv

theorem Build.ordinary_of_mem {b : Build} (hb : b ∈ androidBuilds ++ iosBuilds) :
    b.Ordinary := by
  simp only [androidBuilds, iosBuilds, List.cons_append, List.nil_append, List.mem_cons,
    List.not_mem_nil, or_false] at hb
  rcases hb with rfl | rfl | rfl | rfl | rfl <;> constructor
  all_goals exact ordinary_ofList (by decide)

theorem Platform.ordinary_name (p : Platform) : Text.Ordinary p.name := by
  cases p <;> exact ordinary_ofList (by decide)

theorem BuildType.ordinary_name (t : BuildType) : Text.Ordinary (Choice.name t) := by
  cases t <;> exact ordinary_ofList (by decide)

theorem ordinary_buildTypeGuard (types : List BuildType) :
    Text.Ordinary (buildTypeGuard types) := by
  refine Guard.ordinary_anyOf (List.forall_mem_append.2 ⟨List.forall_mem_cons.2 ⟨?_, ?_⟩, ?_⟩)
  · exact (ordinary_ofList (by decide)).between (by decide) (by decide)
  · intro t ht
    obtain ⟨type, -, rfl⟩ := List.mem_map.1 ht
    exact type.ordinary_name.between (by decide) (by decide)
  · intro t ht
    rw [List.mem_singleton.1 ht]
    exact ordinary_ofList (by decide)

theorem Build.Ordinary.output {b : Build} (h : b.Ordinary) : Text.Ordinary b.output :=
  h.file.after (by decide)

theorem Build.Ordinary.command {b : Build} (h : b.Ordinary) : Text.Ordinary b.command := by
  refine ordinary_script (List.forall_mem_cons.2 ⟨?_, fun l hl => ?_⟩)
  · exact ordinary_ofList (by decide)
  · rw [List.mem_singleton.1 hl]
    exact (((b.platform.ordinary_name.between (by decide) (by decide)).append h.profile).before
      (by decide)).append h.output

theorem ordinary_of_mem_buildPreparation {s : Step} (hs : s ∈ buildPreparation) : s.Ordinary := by
  have hkey : Text.Ordinary (hosted "runner.os" ++ "-eas-build-local-") :=
    (ordinary_hosted (ordinary_ofList (by decide))).before (by decide)
  have hhash : Text.Ordinary (hosted "hashFiles('**/package.json')") :=
    ordinary_hosted (ordinary_ofList (by decide))
  simp only [buildPreparation, List.mem_cons, List.not_mem_nil, or_false] at hs
  rcases hs with rfl | rfl | rfl | rfl
  · exact Step.ordinary_action (ordinary_ofList (by decide)) (ordinary_ofList (by decide))
      (.cons (shortKey_ofList (by decide)) (.text (ordinary_ofList (by decide)))
        (.cons (shortKey_ofList (by decide)) (.text (hkey.append hhash))
          (.single (shortKey_ofList (by decide)) (.text hkey)))) (by decide)
  all_goals
    refine Step.ordinary_shell (ordinary_ofList (by decide)) (ordinary_script ?_)
    repeat' refine List.forall_mem_cons.2 ⟨ordinary_ofList (by decide), ?_⟩
    exact List.forall_mem_nil _

namespace Config

variable {c : Config}

theorem ordinary_platformGuard (p : Platform) : ∀ t ∈ c.platformGuard p, Text.Ordinary t := by
  rw [platformGuard]
  split
  · have hguard := p.ordinary_name
    refine Guard.ordinary_allOf (List.forall_mem_cons.2 ⟨?_, List.forall_mem_cons.2 ⟨?_,
      List.forall_mem_nil _⟩⟩)
    · rintro t ⟨⟩
      exact hguard.between (by decide) (by decide)
    · rintro t ⟨⟩
      refine Guard.ordinary_anyOf (List.forall_mem_cons.2 ⟨ordinary_ofList (by decide),
        List.forall_mem_cons.2 ⟨?_, List.forall_mem_nil _⟩⟩)
      exact hguard.between (by decide) (by decide)
  · rintro t ⟨⟩

/-- The guard of a platform together with another one. -/
theorem ordinary_guard (p : Platform) {condition : String} (h : Text.Ordinary condition) :
    ∀ t ∈ Guard.allOf [c.platformGuard p, some condition], Text.Ordinary t := by
  refine Guard.ordinary_allOf (List.forall_mem_cons.2 ⟨ordinary_platformGuard p,
    List.forall_mem_cons.2 ⟨?_, List.forall_mem_nil _⟩⟩)
  rintro t ⟨⟩
  exact h

theorem ordinary_of_mem_builds {b : Build} (hb : b ∈ c.builds) : b.Ordinary :=
  Build.ordinary_of_mem (mem_table_of_mem_builds hb)

theorem ordinary_artifacts : Text.Ordinary (script c.artifacts) := by
  refine ordinary_script fun l hl => ?_
  obtain ⟨b, hb, rfl⟩ := List.mem_map.1 hl
  exact (ordinary_of_mem_builds hb).output

theorem ordinary_buildStep {b : Build} (hb : b ∈ c.builds) : (c.buildStep b).Ordinary := by
  have h := ordinary_of_mem_builds hb
  refine ((Step.ordinary_shell h.label h.command).onlyIf
    (ordinary_guard _ (ordinary_buildTypeGuard _))).withEnv (fun e he => ?_)
      (List.nodup_singleton _)
  rw [List.mem_singleton.1 he]
  exact ⟨shortKey_ofList (by decide), h.nodeEnv⟩

end Config

/-! ## Delivery -/

/-- All texts of the drive are ordinary. -/
structure Drive.Ordinary (d : Drive) : Prop where
  label : Text.Ordinary d.label
  remote : Text.Ordinary d.remote
  options : ∀ o ∈ d.options, Text.Ordinary o.1 ∧ Text.Ordinary o.2

theorem Storage.ordinary_drive {s : Storage} {d : Drive} (h : s.drive? = some d) :
    d.Ordinary := by
  cases s <;> cases h <;> refine ⟨ordinary_ofList (by decide), ordinary_ofList (by decide), ?_⟩
  all_goals
    repeat'
      refine List.forall_mem_cons.2
        ⟨⟨ordinary_ofList (by decide), ordinary_ofList (by decide)⟩, ?_⟩
    exact List.forall_mem_nil _

theorem Drive.Ordinary.configScript {d : Drive} (h : d.Ordinary) :
    Text.Ordinary d.configScript := by
  refine ordinary_script (List.forall_mem_append.2 ⟨List.forall_mem_append.2
    ⟨List.forall_mem_cons.2 ⟨ordinary_ofList (by decide), List.forall_mem_cons.2
      ⟨ordinary_ofList (by decide), List.forall_mem_cons.2 ⟨?_, List.forall_mem_nil _⟩⟩⟩,
        fun l hl => ?_⟩, List.forall_mem_cons.2 ⟨ordinary_ofList (by decide),
          List.forall_mem_nil _⟩⟩)
  · exact h.remote.between (by decide) (by decide)
  · obtain ⟨o, ho, rfl⟩ := List.mem_map.1 hl
    obtain ⟨hkey, hname⟩ := h.options o ho
    exact (hkey.before (by decide)).append hname

theorem ordinary_buildInfoStep : buildInfoStep.Ordinary := by
  refine (Step.ordinary_shell (ordinary_ofList (by decide)) (ordinary_script ?_)).withId
    (ordinary_ofList (by decide))
  refine List.forall_mem_cons.2 ⟨ordinary_ofList (by decide), List.forall_mem_cons.2
    ⟨ordinary_ofList (by decide), List.forall_mem_cons.2 ⟨?_, List.forall_mem_cons.2
      ⟨ordinary_ofList (by decide), List.forall_mem_nil _⟩⟩⟩⟩
  exact (ordinary_hosted (ordinary_ofList (by decide))).between (by decide) (by decide)

theorem ordinary_releaseStep {files : List String} (h : Text.Ordinary (script files)) :
    (releaseStep files).Ordinary := by
  have hversion : Text.Ordinary (hosted "steps.build-info.outputs.version") :=
    ordinary_hosted (ordinary_ofList (by decide))
  have hnumber : Text.Ordinary (hosted "steps.build-info.outputs.build_number") :=
    ordinary_hosted (ordinary_ofList (by decide))
  have hname : Text.Ordinary ("Release v" ++ hosted "steps.build-info.outputs.version" ++ " (build "
      ++ hosted "steps.build-info.outputs.build_number" ++ ")") :=
    ((hversion.between (by decide) (by decide)).append hnumber).before (by decide)
  have htag : Text.Ordinary ("v" ++ hosted "steps.build-info.outputs.version" ++ "-"
      ++ hosted "steps.build-info.outputs.build_number") :=
    (hversion.between (by decide) (by decide)).append hnumber
  exact Step.ordinary_action (ordinary_ofList (by decide)) (ordinary_ofList (by decide))
    (.cons (shortKey_ofList (by decide)) (.bare trivial)
      (.cons (shortKey_ofList (by decide)) (.text hname)
        (.cons (shortKey_ofList (by decide)) (.text htag)
          (.cons (shortKey_ofList (by decide)) (.text h)
            (.single (shortKey_ofList (by decide)) (.text (ordinary_ofList (by decide))))))))
    (by simp)

namespace Config

variable {c : Config}

theorem ordinary_uploadStep {d : Drive} (hd : d.Ordinary) {b : Build} (hb : b.Ordinary) :
    (c.uploadStep d b).Ordinary := by
  refine (Step.ordinary_shell ((hb.file.between (by decide) (by decide)).append hd.label)
    ?_).onlyIf (ordinary_guard _ (ordinary_buildTypeGuard _))
  exact ((((hb.output.between (by decide) (by decide)).append hd.remote).before
    (by decide)).append (ordinary_hosted (ordinary_ofList (by decide)))).before (by decide)

theorem ordinary_setupDrive : Drive.setupStep.Ordinary :=
  Step.ordinary_action (ordinary_ofList (by decide)) (ordinary_ofList (by decide))
    (.single (shortKey_ofList (by decide)) (.text (ordinary_ofList (by decide)))) (by decide)

theorem ordinary_configStep {d : Drive} (hd : d.Ordinary) : d.configStep.Ordinary :=
  Step.ordinary_shell (hd.label.after (by decide)) hd.configScript

theorem ordinary_archiveStep : c.archiveStep.Ordinary := by
  have hname : Text.Ordinary (if c.options.iosSupport then
      "app-builds-" ++ hosted "matrix.platform" else "app-builds") := by
    split
    · exact (ordinary_hosted (ordinary_ofList (by decide))).after (by decide)
    · exact ordinary_ofList (by decide)
  have hpower : ∀ limit, 1 ≤ limit → 7 < Nat.pow 10 limit := fun limit h =>
    Nat.lt_of_lt_of_le (by decide) (Nat.pow_le_pow_right (by decide) h)
  have hdays : Yaml.IsBare (.int 7) := decide_eq_true (hpower _ (by decide))
  exact Step.ordinary_action (ordinary_ofList (by decide)) (ordinary_ofList (by decide))
    (.cons (shortKey_ofList (by decide)) (.text hname)
      (.cons (shortKey_ofList (by decide)) (.text ordinary_artifacts)
        (.single (shortKey_ofList (by decide)) (.bare hdays)))) (by simp)

theorem ordinary_of_mem_publicationSteps {s : Step} (hs : s ∈ c.publicationSteps) :
    s.Ordinary :=
  forall_mem_publicationSteps ordinary_setupDrive
    (fun _ hd => ordinary_configStep (Storage.ordinary_drive hd))
    (fun _ hd _ hb => ordinary_uploadStep (Storage.ordinary_drive hd) (ordinary_of_mem_builds hb))
    ordinary_archiveStep ordinary_buildInfoStep (ordinary_releaseStep ordinary_artifacts) s hs

theorem ordinary_manualStep (p : Platform) {name command : String} (hname : Text.Ordinary name)
    (hcommand : Text.Ordinary command) : (c.manualStep p name command).Ordinary :=
  (Step.ordinary_shell hname hcommand).onlyIf (ordinary_guard p (ordinary_ofList (by decide)))

theorem ordinary_of_mem_storeSteps {s : Step} (hs : s ∈ c.storeSteps) : s.Ordinary := by
  refine forall_mem_storeSteps (fun _ => ?_) (fun _ => ?_) (fun _ => ?_) s hs <;>
    exact ordinary_manualStep _ (ordinary_ofList (by decide)) (ordinary_ofList (by decide))

end Config

theorem Channel.ordinary_step (ch : Channel) : ch.step.Ordinary := by
  have hrepository : Text.Ordinary (hosted "github.repository") :=
    ordinary_hosted (ordinary_ofList (by decide))
  have hnumber : Text.Ordinary (hosted "github.run_number") :=
    ordinary_hosted (ordinary_ofList (by decide))
  have hstatus : Text.Ordinary (hosted "job.status") :=
    ordinary_hosted (ordinary_ofList (by decide))
  have hbuild : Text.Ordinary (hosted "github.repository" ++ " build #"
      ++ hosted "github.run_number") := (hrepository.before (by decide)).append hnumber
  have halways : ∀ t ∈ some "always()", Text.Ordinary t := by
    rintro t ⟨⟩
    exact ordinary_ofList (by decide)
  cases ch with
  | slack =>
    refine ((Step.ordinary_action (ordinary_ofList (by decide)) (ordinary_ofList (by decide)) .nil
      List.nodup_nil).onlyIf halways).withEnv ?_ (by decide)
    exact List.forall_mem_cons.2 ⟨⟨shortKey_ofList (by decide), hstatus⟩, List.forall_mem_cons.2
      ⟨⟨shortKey_ofList (by decide), hstatus.after (by decide)⟩, List.forall_mem_cons.2
        ⟨⟨shortKey_ofList (by decide), hbuild⟩, List.forall_mem_nil _⟩⟩⟩
  | discord =>
    exact (Step.ordinary_action (ordinary_ofList (by decide)) (ordinary_ofList (by decide))
      (.single (shortKey_ofList (by decide))
        (.text ((hbuild.before (by decide)).append hstatus))) (by decide)).onlyIf halways

/-! ## Jobs -/

namespace Config

/-- The configuration with the version of Node as it is read back. -/
def readBack (c : Config) : Config := { c with nodeVersion := Json.readBackText c.nodeVersion }

variable {c : Config} (hversion : Text.Coded c.nodeVersion.toList)

include hversion

theorem readsAs_testSteps : Step.ListReadsAs c.testSteps c.readBack.testSteps := by
  have hwork : c.readBack.hasTestWork = c.hasTestWork := rfl
  have ht := c.packageManager.ordinary_tools
  rw [testSteps, testSteps, hwork]
  split
  · exact (Toolchain.readsAs_setupSteps ht hversion _).append_same (List.forall_mem_cons.2
      ⟨Toolchain.ordinary_installStep ht (List.forall_mem_nil _),
        fun s => ordinary_of_mem_checkSteps⟩)
  · exact .nil

theorem readsAs_buildSteps : Step.ListReadsAs c.buildSteps c.readBack.buildSteps := by
  have ht := c.packageManager.ordinary_tools
  have hinstall : ∀ l ∈ [c.packageManager.tools.globalCliInstall], Text.Ordinary l :=
    List.forall_mem_singleton.2 ht.globalCliInstall
  have hbuilds : ∀ s ∈ c.builds.map c.buildStep, s.Ordinary := by
    intro s hs
    obtain ⟨b, hb, rfl⟩ := List.mem_map.1 hs
    exact ordinary_buildStep hb
  have hprepared : ∀ s ∈ c.packageManager.tools.installStep
      [c.packageManager.tools.globalCliInstall] :: buildPreparation, s.Ordinary :=
    List.forall_mem_cons.2 ⟨Toolchain.ordinary_installStep ht hinstall,
      fun s => ordinary_of_mem_buildPreparation⟩
  exact ((Toolchain.readsAs_setupSteps ht hversion _).append_same hprepared).append_same hbuilds

theorem readsAs_buildJobSteps : Step.ListReadsAs c.buildJobSteps c.readBack.buildJobSteps := by
  have hchannels : ∀ s ∈ c.options.channels.map Channel.step, s.Ordinary := by
    intro s hs
    obtain ⟨ch, -, rfl⟩ := List.mem_map.1 hs
    exact ch.ordinary_step
  exact (((readsAs_buildSteps hversion).append_same fun s => ordinary_of_mem_publicationSteps)
    |>.append_same fun s => ordinary_of_mem_storeSteps).append_same hchannels

end Config

namespace Job

variable {j : Job} {steps : List Step}

theorem keys_needs : ((if j.needs.isEmpty then [] else [("needs", needsJson j.needs)]).map
    Prod.fst).Sublist ["needs"] := by
  split
  · exact List.nil_sublist _
  · exact List.Sublist.refl _

theorem fieldsReadAs_needs (h : ∀ need ∈ j.needs, Text.Ordinary need) :
    FieldsReadAs 4 (if j.needs.isEmpty then [] else [("needs", needsJson j.needs)])
      (if j.needs.isEmpty then [] else [("needs", needsJson j.needs)]) := by
  split
  · exact .nil
  · refine .single (shortKey_ofList (by decide)) ?_
    match j.needs, h with
    | [], _ => exact .bare trivial
    | [need], h => exact .text (h need List.mem_cons_self)
    | first :: second :: rest, h => exact .texts h

/-- A job is read with the steps that its own are read as. -/
theorem readsAs_toJson (hneeds : ∀ need ∈ j.needs, Text.Ordinary need)
    (hcondition : ∀ t ∈ j.condition, Text.Ordinary t)
    (hstrategy : ReadsAs 4 (.object j.strategy) (.object j.strategy))
    (hrunsOn : Text.Ordinary j.runsOn) (hsteps : Step.ListReadsAs j.steps steps) :
    ReadsAs 5 j.toJson { j with steps := steps }.toJson := by
  have hlist : ReadsAs 4 (.list (j.steps.map Step.toJson)) (.list (steps.map Step.toJson)) :=
    .list (List.forall₂_map_left_iff.2 (List.forall₂_map_right_iff.2 hsteps))
  refine .object ?_ ?_
  · exact (((fieldsReadAs_needs hneeds).append
      (Step.fieldsReadAs_textField (shortKey_ofList (by decide)) hcondition)).append
      (Step.fieldsReadAs_objectField (shortKey_ofList (by decide)) hstrategy)).append
      (.cons (shortKey_ofList (by decide)) (.text hrunsOn)
        (.single (shortKey_ofList (by decide)) hlist))
  · refine List.Nodup.sublist ?_ (show (["needs"] ++ ["if"] ++ ["strategy"]
      ++ ["runs-on", "steps"]).Nodup by decide)
    simp only [List.map_append]
    exact ((keys_needs.append Step.keys_textField).append Step.keys_objectField).append
      (List.Sublist.refl _)

end Job

/-! ## Triggers and environment -/

theorem sublist_of_ite {α : Type} {p : Prop} [Decidable p] {xs : List α} :
    (if p then xs else []).Sublist xs := by
  split
  · exact List.Sublist.refl xs
  · exact List.nil_sublist xs

theorem readsAs_choiceInput {description default : String} {options : List String}
    (hdescription : Text.Ordinary description) (hdefault : Text.Ordinary default)
    (hoptions : ∀ o ∈ options, Text.Ordinary o) :
    ReadsAs 3 (choiceInput description default options)
      (choiceInput description default options) :=
  .object (.cons (shortKey_ofList (by decide)) (.text hdescription)
    (.cons (shortKey_ofList (by decide)) (.bare trivial)
      (.cons (shortKey_ofList (by decide)) (.text hdefault)
        (.cons (shortKey_ofList (by decide)) (.text (ordinary_ofList (by decide)))
          (.single (shortKey_ofList (by decide)) (.texts hoptions)))))) (by simp)

namespace Config

theorem readsAs_dispatchInputs (c : Config) :
    ReadsAs 4 (.object c.dispatchInputs) (.object c.dispatchInputs) := by
  have htypes : ∀ o ∈ "all" :: c.offeredTypes.map Choice.name, Text.Ordinary o := by
    refine List.forall_mem_cons.2 ⟨ordinary_ofList (by decide), fun o ho => ?_⟩
    obtain ⟨t, -, rfl⟩ := List.mem_map.1 ho
    exact t.ordinary_name
  have hplatforms : ∀ o ∈ Platform.all.map Platform.name, Text.Ordinary o := by
    intro o ho
    obtain ⟨p, -, rfl⟩ := List.mem_map.1 ho
    exact p.ordinary_name
  rw [dispatchInputs]
  split
  · exact .object (.cons (shortKey_ofList (by decide))
      (readsAs_choiceInput (ordinary_ofList (by decide)) (ordinary_ofList (by decide)) htypes)
      (.single (shortKey_ofList (by decide))
        (readsAs_choiceInput (ordinary_ofList (by decide)) Platform.android.ordinary_name
          hplatforms))) (by simp)
  · exact .object (.single (shortKey_ofList (by decide))
      (readsAs_choiceInput (ordinary_ofList (by decide)) (ordinary_ofList (by decide)) htypes))
        (List.nodup_singleton _)

theorem readsAs_triggerMap (c : Config) :
    ReadsAs 6 (.object c.triggerMap) (.object c.triggerMap) := by
  have hbranches : ReadsAs 4 (textsJson mainBranches) (textsJson mainBranches) :=
    .texts (List.forall_mem_cons.2 ⟨ordinary_ofList (by decide),
      List.forall_mem_singleton.2 (ordinary_ofList (by decide))⟩)
  have hpaths : ReadsAs 4 (textsJson ignoredPaths) (textsJson ignoredPaths) :=
    .texts (List.forall_mem_cons.2 ⟨ordinary_ofList (by decide), List.forall_mem_cons.2
      ⟨ordinary_ofList (by decide), List.forall_mem_singleton.2 (ordinary_ofList (by decide))⟩⟩)
  have hpush : ReadsAs 5 (.object [("branches", textsJson mainBranches),
      ("paths-ignore", textsJson ignoredPaths)]) (.object [("branches", textsJson mainBranches),
      ("paths-ignore", textsJson ignoredPaths)]) :=
    .object (.cons (shortKey_ofList (by decide)) hbranches
      (.single (shortKey_ofList (by decide)) hpaths)) (by simp)
  have hpull : ReadsAs 5 (.object [("branches", textsJson mainBranches)])
      (.object [("branches", textsJson mainBranches)]) :=
    .object (.single (shortKey_ofList (by decide)) hbranches) (List.nodup_singleton _)
  have hmanual : ReadsAs 5 (.object [("inputs", .object c.dispatchInputs)])
      (.object [("inputs", .object c.dispatchInputs)]) :=
    .object (.single (shortKey_ofList (by decide)) c.readsAs_dispatchInputs)
      (List.nodup_singleton _)
  rw [triggerMap_eq]
  refine .object ?_ ?_
  · exact ((FieldsReadAs.single (shortKey_ofList (by decide)) hpush).ite.append
      (FieldsReadAs.single (shortKey_ofList (by decide)) hpull).ite).append
      (FieldsReadAs.single (shortKey_ofList (by decide)) hmanual).ite
  · refine List.Nodup.sublist ?_ (show (["push"] ++ ["pull_request"]
      ++ ["workflow_dispatch"]).Nodup by decide)
    simp only [List.map_append, apply_ite (List.map Prod.fst)]
    exact (sublist_of_ite.append sublist_of_ite).append sublist_of_ite

/-- No secret has two sources, and none of them is the last entry. -/
theorem nodup_secretNames (c : Config) : (c.secretNames ++ ["NODE_OPTIONS"]).Nodup := by
  have hchannels : (c.options.channels.map Channel.secretName).Sublist
      ([.slack, .discord].map Channel.secretName) := by
    rw [channels_eq_filter]
    exact List.filter_sublist.map _
  have hnames : (("EXPO_TOKEN" :: appleSecrets ++ c.storage.secrets ++ storeSecrets
      ++ [.slack, .discord].map Channel.secretName) ++ ["NODE_OPTIONS"]).Nodup := by
    cases c.storage <;> decide
  refine List.Nodup.sublist (List.Sublist.append ?_ (List.Sublist.refl _)) hnames
  exact (((sublist_of_ite.cons_cons _).append (List.Sublist.refl _)).append sublist_of_ite).append
    hchannels

theorem shortKey_of_mem_secretNames {c : Config} {n : String} (hn : n ∈ c.secretNames) :
    ShortKey n := by
  have hall : ∀ a : SecretSource, ∀ n ∈ a.names, ShortKey n := by
    intro a
    rcases a with _ | _ | s | _ | ch
    case storage =>
      cases s
      all_goals
        repeat' refine List.forall_mem_cons.2 ⟨shortKey_ofList (by decide), ?_⟩
        exact List.forall_mem_nil _
    case channel =>
      cases ch
      all_goals
        exact List.forall_mem_singleton.2 (shortKey_ofList (by decide))
    all_goals
      repeat' refine List.forall_mem_cons.2 ⟨shortKey_ofList (by decide), ?_⟩
      exact List.forall_mem_nil _
  obtain ⟨a, -, ha⟩ := mem_secretNames.1 hn
  exact hall a n ha

theorem readsAs_env (c : Config) : ReadsAs 6 (.object (c.env.map fun e => (e.1, .str e.2)))
    (.object (c.env.map fun e => (e.1, .str e.2))) := by
  refine .textFields (List.forall_mem_append.2 ⟨fun e he => ?_, List.forall_mem_singleton.2
    ⟨shortKey_ofList (by decide), ordinary_ofList (by decide)⟩⟩) ?_
  · obtain ⟨n, hn, rfl⟩ := List.mem_map.1 he
    have hkey := shortKey_of_mem_secretNames hn
    exact ⟨hkey, ordinary_hosted (hkey.1.after (by decide))⟩
  · have hkeys : c.env.map Prod.fst = c.secretNames ++ ["NODE_OPTIONS"] := by
      simp [env, Function.comp_def]
    rw [hkeys]
    exact c.nodup_secretNames

end Config

/-! ## Documents -/

namespace Config

variable {c : Config}

section

variable (hversion : Text.Coded c.nodeVersion.toList)

include hversion

theorem readsAs_buildJob : ReadsAs 5 c.buildJob.toJson c.readBack.buildJob.toJson := by
  have hneeds : ∀ need ∈ c.buildJob.needs, Text.Ordinary need := by
    refine List.forall_mem_singleton.2 ?_
    split <;> exact ordinary_ofList (by decide)
  have hcondition : ∀ t ∈ c.buildJob.condition, Text.Ordinary t := by
    rintro t ⟨⟩
    exact ((ordinary_ofList (by decide)).append (ordinary_ofList (by decide))).before (by decide)
  have hplatforms : ReadsAs 2 (textsJson (Platform.all.map Platform.name))
      (textsJson (Platform.all.map Platform.name)) := by
    refine .texts fun o ho => ?_
    obtain ⟨p, -, rfl⟩ := List.mem_map.1 ho
    exact p.ordinary_name
  have hstrategy : ReadsAs 4 (.object c.buildJob.strategy) (.object c.buildJob.strategy) := by
    rw [buildJob]
    split
    · exact .object (.single (shortKey_ofList (by decide)) (.object
        (.single (shortKey_ofList (by decide)) hplatforms) (List.nodup_singleton _)))
          (List.nodup_singleton _)
    · exact Step.readsAs_empty
  have hrunsOn : Text.Ordinary c.buildJob.runsOn := by
    rw [buildJob]
    split
    · exact ordinary_hosted (ordinary_ofList (by decide))
    · exact ordinary_ofList (by decide)
  exact Job.readsAs_toJson hneeds hcondition hstrategy hrunsOn (readsAs_buildJobSteps hversion)

theorem readsAs_jobs : List.Forall₂
    (fun i j => i.id = j.id ∧ ShortKey i.id ∧ ReadsAs 5 i.toJson j.toJson) c.jobs
      c.readBack.jobs := by
  have hskip : ReadsAs 5 checkSkipJob.toJson checkSkipJob.toJson := by
    refine Job.readsAs_toJson (List.forall_mem_nil _) ?_ Step.readsAs_empty
      (ordinary_ofList (by decide)) (.same (List.forall_mem_singleton.2 (Step.ordinary_shell
        (ordinary_ofList (by decide)) (ordinary_ofList (by decide)))))
    rintro t ⟨⟩
    exact ordinary_ofList (by decide)
  have hbuildId : ShortKey c.buildJobId := by
    rw [buildJobId]
    split <;> exact shortKey_ofList (by decide)
  have htest : List.Forall₂ (fun i j => i.id = j.id ∧ ShortKey i.id ∧ ReadsAs 5 i.toJson j.toJson)
      c.testJob?.toList c.readBack.testJob?.toList := by
    have hwork : c.readBack.hasTestWork = c.hasTestWork := rfl
    rw [testJob?, testJob?, hwork]
    split
    · exact .cons ⟨rfl, shortKey_ofList (by decide), Job.readsAs_toJson
        (List.forall_mem_singleton.2 (ordinary_ofList (by decide))) (by rintro t ⟨⟩)
          Step.readsAs_empty (ordinary_ofList (by decide)) (readsAs_testSteps hversion)⟩ .nil
    · exact .nil
  exact List.rel_append (.cons ⟨rfl, shortKey_ofList (by decide), hskip⟩ htest)
    (.cons ⟨rfl, hbuildId, readsAs_buildJob hversion⟩ .nil)

/-- A compiled document is read as the one with the version of Node as it is read back. -/
theorem readsAs_compile : ReadsAs 7 c.compile.toJson c.readBack.compile.toJson := by
  have hjobs : FieldsReadAs 5 (c.jobs.map fun j => (j.id, j.toJson))
      (c.readBack.jobs.map fun j => (j.id, j.toJson)) :=
    List.forall₂_map_left_iff.2 (List.forall₂_map_right_iff.2 (readsAs_jobs hversion))
  have hids : ((c.jobs.map fun j => (j.id, j.toJson)).map Prod.fst).Nodup := by
    rw [List.map_map]
    exact c.nodup_ids
  exact .object (.cons (shortKey_ofList (by decide)) (.text (ordinary_ofList (by decide)))
    (.cons (shortKey_ofList (by decide)) c.readsAs_triggerMap
      (.cons (shortKey_ofList (by decide)) c.readsAs_env
        (.single (shortKey_ofList (by decide)) (.object hjobs hids))))) (by simp)

/-- The text of a compiled document is read, and no check finds a problem. -/
theorem textProblems_compile :
    Validation.textProblems (Yaml.write c.compile.toJson) = .ok [] := by
  have hread := readsAs_compile hversion
  have htext : Yaml.read (Yaml.write c.compile.toJson)
      = .ok ⟨Value.ofJson c.readBack.compile.toJson, #[]⟩ := by
    rw [hread.legible.read_write (Nat.le_trans hread.levels (by decide)), hread.readBack]
  have hnone : Validation.problemTexts #[] (Value.ofJson c.readBack.compile.toJson) = .ok [] := by
    refine Validation.problemTexts_of_isWorkflow #[] ?_ c.readBack.isWorkflow_compile
    rw [keys_jobsIn]
    exact c.readBack.nodup_ids
  rw [Validation.textProblems, htext, Validation.readProblems]
  simp only [hnone]

theorem write?_compile : Yaml.write? c.compile.toJson = some (Yaml.write c.compile.toJson) :=
  if_pos (Nat.le_trans (readsAs_compile hversion).levels (by decide))

end

/-- Whatever codes the version of Node consists of: the document is accepted and written, its text
is read, and no check finds a problem. -/
theorem emitted_accepted (c : Config) (version : List (Fin 0x110000)) :
    ∃ document text,
      Document.accept { c with nodeVersion := Text.ofCodes (version.map Fin.val) }.compile
        = .ok document ∧
      Yaml.write? document.toJson = some text ∧ Validation.textProblems text = .ok [] := by
  have hcodes : ∀ n ∈ version.map Fin.val, n < 0x110000 := by
    intro n hn
    obtain ⟨i, -, rfl⟩ := List.mem_map.1 hn
    exact i.isLt
  have hversion : Text.Coded (Text.ofCodes (version.map Fin.val)).toList := by
    rw [Text.Coded, Text.ofCodes, String.toList_ofList, Text.codes_flatMap _ hcodes]
    exact hcodes
  exact ⟨_, _, Document.accept_eq fun j hj => proper_of_mem_jobs hj, write?_compile hversion,
    textProblems_compile hversion⟩

end Config

end AppPipeline
