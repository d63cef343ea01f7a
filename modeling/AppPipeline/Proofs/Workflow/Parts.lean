import AppPipeline.Workflow.Compile

/-!
# Parts of jobs

The steps of a job stand in a few lists, some of which depend on what is selected. What
holds of each step that can stand there holds of all steps of the job
(`Toolchain.forall_mem_setupSteps`, `Config.forall_mem_testSteps`,
`Config.forall_mem_buildJobSteps`); so do properties of steps that are shown elsewhere,
without going through the lists again.
-/

namespace AppPipeline

/-! ## Steps with names -/

namespace Toolchain

/-- Sets Node up, with the cache of the package manager. -/
def setupNode (t : Toolchain) (nodeVersion : String) : Step :=
  Step.action "🏗 Setup Node.js" setupNodeAction
    [("node-version", .str nodeVersion), ("cache", .str t.name)]

/-- Looks up the directory of the cache. -/
def cacheLookup (t : Toolchain) : Step :=
  (Step.shell ("📦 Get " ++ t.name ++ " cache directory path") t.cacheDirScript).withId
    t.cacheDirStepId

/-- Restores the cache from the directory that was looked up. -/
def cacheRestore (t : Toolchain) : Step :=
  let key := hosted "runner.os" ++ "-" ++ t.name ++ "-"
  Step.action ("📦 Setup " ++ t.name ++ " cache") cacheAction
    [("path", .str (hosted ("steps." ++ t.cacheDirStepId ++ ".outputs.dir"))),
     ("key", .str (key ++ hosted ("hashFiles('**/" ++ t.lockFile ++ "')"))),
     ("restore-keys", .str key)]

end Toolchain

def checkoutStep : Step := Step.action "🏗 Checkout repository" checkoutAction []

def Drive.setupStep : Step :=
  Step.action "🏗 Setup rclone" "AnimMouse/setup-rclone@v1" [("version", .str "latest")]

/-- Writes the configuration of the drive. -/
def Drive.configStep (d : Drive) : Step :=
  Step.shell ("📤 Configure " ++ d.label) d.configScript

/-! ## Lists of steps -/

section

variable {P : Step → Prop}

theorem forall_mem_ite {q : Prop} [Decidable q] {s : Step} (h : q → P s) :
    ∀ r ∈ if q then [s] else [], P r := by
  split
  · next hq => exact List.forall_mem_singleton.2 (h hq)
  · exact List.forall_mem_nil _

namespace Toolchain

variable {t : Toolchain} {nodeVersion : String} {caching : Bool}

theorem setupSteps_eq (t : Toolchain) (nodeVersion : String) (caching : Bool) :
    t.setupSteps nodeVersion caching
      = checkoutStep :: t.setupManager
        ++ t.setupNode nodeVersion :: (if caching then [t.cacheLookup, t.cacheRestore] else []) :=
  rfl

theorem forall_mem_setupSteps (checkout : P checkoutStep) (manager : ∀ s ∈ t.setupManager, P s)
    (node : P (t.setupNode nodeVersion)) (lookup : P t.cacheLookup) (restore : P t.cacheRestore) :
    ∀ s ∈ t.setupSteps nodeVersion caching, P s := by
  rw [setupSteps_eq, List.forall_mem_append, List.forall_mem_cons, List.forall_mem_cons]
  refine ⟨⟨checkout, manager⟩, node, ?_⟩
  split
  · exact List.forall_mem_cons.2 ⟨lookup, List.forall_mem_singleton.2 restore⟩
  · exact List.forall_mem_nil _

end Toolchain

namespace Config

variable {c : Config}

theorem forall_mem_checkSteps (check : ∀ kind, P (TestKind.step c.packageManager.tools kind))
    (suite : ∀ suite, P (Suite.step c.packageManager.tools suite)) : ∀ s ∈ c.checkSteps, P s := by
  rw [checkSteps, List.forall_mem_append, List.forall_mem_map, List.forall_mem_map]
  exact ⟨fun kind _ => check kind, fun s _ => suite s⟩

theorem forall_mem_testSteps
    (setup : ∀ s ∈ c.packageManager.tools.setupSteps c.nodeVersion c.options.caching, P s)
    (install : P (c.packageManager.tools.installStep [])) (checks : ∀ s ∈ c.checkSteps, P s) :
    ∀ s ∈ c.testSteps, P s := by
  rw [testSteps]
  split
  · exact List.forall_mem_append.2 ⟨setup, List.forall_mem_cons.2 ⟨install, checks⟩⟩
  · exact List.forall_mem_nil _

/-- Without a drive there is a release; both come after the archive. -/
theorem forall_mem_publicationSteps (setup : P Drive.setupStep)
    (configure : ∀ d, c.storage.drive? = some d → P d.configStep)
    (upload : ∀ d, c.storage.drive? = some d → ∀ b ∈ c.builds, P (c.uploadStep d b))
    (archive : P c.archiveStep) (info : P buildInfoStep) (release : P (releaseStep c.artifacts)) :
    ∀ s ∈ c.publicationSteps, P s := by
  rw [publicationSteps]
  split
  · next d hd =>
    refine List.forall_mem_append.2 ⟨?_, ?_⟩
    · exact List.forall_mem_cons.2 ⟨setup, List.forall_mem_cons.2
        ⟨configure d hd, List.forall_mem_map.2 (upload d hd)⟩⟩
    · split
      · exact List.forall_mem_nil _
      · exact List.forall_mem_singleton.2 archive
  · split
    · exact List.forall_mem_nil _
    · exact List.forall_mem_cons.2 ⟨archive, List.forall_mem_cons.2
        ⟨info, List.forall_mem_singleton.2 release⟩⟩

theorem forall_mem_storeSteps
    (expo : c.options.publishToExpo = true → P (c.manualStep .android "🚀 Publish to Expo"
      "eas update --auto --non-interactive"))
    (play : c.options.publishToStores = true → P (c.manualStep .android "🏪 Submit to Play Store"
      "eas submit -p android --latest --non-interactive"))
    (apple : (c.options.publishToStores && c.options.iosSupport) = true →
      P (c.manualStep .ios "🏪 Submit to App Store"
        "eas submit -p ios --latest --non-interactive")) :
    ∀ s ∈ c.storeSteps, P s :=
  List.forall_mem_append.2 ⟨List.forall_mem_append.2
    ⟨forall_mem_ite expo, forall_mem_ite play⟩, forall_mem_ite apple⟩

theorem forall_mem_buildJobSteps
    (setup : ∀ s ∈ c.packageManager.tools.setupSteps c.nodeVersion c.options.caching, P s)
    (install : P (c.packageManager.tools.installStep [c.packageManager.tools.globalCliInstall]))
    (preparation : ∀ s ∈ buildPreparation, P s) (builds : ∀ b ∈ c.builds, P (c.buildStep b))
    (publication : ∀ s ∈ c.publicationSteps, P s) (stores : ∀ s ∈ c.storeSteps, P s)
    (channels : ∀ channel : Channel, P channel.step) : ∀ s ∈ c.buildJobSteps, P s := by
  simp only [buildJobSteps, buildSteps, List.forall_mem_append, List.forall_mem_cons,
    List.forall_mem_map]
  exact ⟨⟨⟨⟨⟨setup, install, preparation⟩, builds⟩, publication⟩, stores⟩,
    fun channel _ => channels channel⟩

end Config

end

end AppPipeline
