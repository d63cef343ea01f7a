import AppPipeline.Proofs.Command.Signature

/-!
# The test phase of a configuration

What the test job runs is a list of `TestTask`s, in the order of the tables:

* `testCommands_eq`: the commands of the test job are those of the selected
  tasks, each in the category of its task and without an expression that only
  the hosted runner resolves;
* `pair_command_inj`: a task can be read off the pair that a signature shows of
  its command, and `manager_of_install` the package manager off the installation;
* `signature_eq_iff`: configurations have one signature exactly when neither
  tests anything or both select the same test work.
-/

namespace AppPipeline

/-! ## Tasks -/

inductive TestTask where
  | cacheLookup
  | install
  | check (kind : TestKind)
  | suite (suite : Suite)
  deriving DecidableEq, Repr

namespace TestTask

def category : TestTask → Category
  | cacheLookup => .cacheDir
  | install => .install
  | check .typescript => .typecheck
  | check .eslint => .lint
  | check .prettier => .format
  | suite .jest => .jest
  | suite .rntl => .rntl
  | suite .hooks => .hooks

def label (t : Toolchain) : TestTask → String
  | cacheLookup => "📦 Get " ++ t.name ++ " cache directory path"
  | install => "📦 Install dependencies"
  | check .typescript => "🧪 Run TypeScript check"
  | check .eslint => "🧹 Run ESLint"
  | check .prettier => "🎨 Run Prettier check"
  | suite .jest => "Run Jest Tests"
  | suite .rntl => "Run React Native Testing Library Tests"
  | suite .hooks => "Run renderHook Tests"

def text (t : Toolchain) : TestTask → String
  | cacheLookup => t.cacheDirScript
  | install => t.install
  | check .typescript => t.typecheck
  | check .eslint => t.lint
  | check .prettier => t.formatCheck
  | suite .jest => t.test
  | suite .rntl => t.testRntl
  | suite .hooks => t.testHooks

def command (m : PackageManager) (task : TestTask) : Command :=
  { stepName := task.label m.tools
    text := task.text m.tools
    category := task.category.name
    hosted := false }

/-- The task of a category. -/
def ofCategory? : Category → Option TestTask
  | .cacheDir => some cacheLookup
  | .install => some install
  | .typecheck => some (check .typescript)
  | .lint => some (check .eslint)
  | .format => some (check .prettier)
  | .jest => some (suite .jest)
  | .rntl => some (suite .rntl)
  | .hooks => some (suite .hooks)
  | _ => none

theorem ofCategory?_category (t : TestTask) : ofCategory? t.category = some t := by
  cases t with
  | cacheLookup => rfl
  | install => rfl
  | check kind => cases kind <;> rfl
  | suite suite => cases suite <;> rfl

/-! ## What a signature shows of a task -/

theorem bar_not_mem_text (m : PackageManager) (t : TestTask) : '|' ∉ (t.text m.tools).toList := by
  cases t with
  | cacheLookup => cases m <;> simp [text, Toolchain.cacheDirScript, PackageManager.tools]
  | install => cases m <;> simp [text, PackageManager.tools]
  | check kind => cases m <;> cases kind <;> simp [text, PackageManager.tools]
  | suite suite => cases m <;> cases suite <;> simp [text, PackageManager.tools]

theorem separable_command (m : PackageManager) (t : TestTask) : (t.command m).Separable :=
  ⟨⟨t.category, rfl⟩, t.bar_not_mem_text m⟩

theorem pair_command_inj {m n : PackageManager} {t u : TestTask}
    (h : (t.command m).pair = (u.command n).pair) : t = u := by
  have hn : t.category.name = u.category.name := congrArg Prod.fst h
  have hc := congrArg ofCategory? (Category.name_injective hn)
  rwa [ofCategory?_category, ofCategory?_category, Option.some.injEq] at hc

theorem strip_install_inj {m n : PackageManager}
    (h : Text.strip m.tools.install = Text.strip n.tools.install) : m = n := by
  have hall : ∀ m ∈ (Choice.members : List PackageManager),
      ∀ n ∈ (Choice.members : List PackageManager),
        Text.strip m.tools.install = Text.strip n.tools.install → m = n := by
    decide +kernel
  exact hall m (by cases m <;> decide) n (by cases n <;> decide) h

theorem manager_of_install {m n : PackageManager}
    (h : (install.command m).pair = (install.command n).pair) : m = n :=
  strip_install_inj (congrArg Prod.snd h)

/-! ## What the steps of the test job run -/

theorem classify_label_text (m : PackageManager) (t : TestTask) :
    Category.classify (t.label m.tools) (t.text m.tools) = t.category := by
  cases t with
  | cacheLookup => cases m <;> decide +kernel
  | install => cases m <;> decide +kernel
  | check kind => cases m <;> cases kind <;> decide +kernel
  | suite suite => cases m <;> cases suite <;> decide +kernel

theorem holdsExpression_text (m : PackageManager) (t : TestTask) :
    holdsExpression (t.text m.tools).toList = false := by
  cases t with
  | cacheLookup => cases m <;> decide +kernel
  | install => cases m <;> decide +kernel
  | check kind => cases m <;> cases kind <;> decide +kernel
  | suite suite => cases m <;> cases suite <;> decide +kernel

theorem label_ne_empty (t : Toolchain) (u : TestTask) : u.label t ≠ "" := by
  cases u with
  | cacheLookup => simp [label, String.append_eq_empty_iff]
  | install => simp [label]
  | check kind => cases kind <;> simp [label]
  | suite suite => cases suite <;> simp [label]

theorem text_ne_empty (m : PackageManager) (t : TestTask) : t.text m.tools ≠ "" := by
  cases t with
  | cacheLookup => simp [text, Toolchain.cacheDirScript, String.append_eq_empty_iff]
  | install => cases m <;> simp [text, PackageManager.tools]
  | check kind => cases m <;> cases kind <;> simp [text, PackageManager.tools]
  | suite suite => cases m <;> cases suite <;> simp [text, PackageManager.tools]

/-- A step with the label and the text of a task has its command. -/
theorem command?_of_texts (m : PackageManager) (t : TestTask) {s : Step}
    (hn : s.name = some (t.label m.tools)) (hr : s.run = some (t.text m.tools)) :
    s.command? = some (t.command m) := by
  rw [Step.command?, hr]
  simp only [t.text_ne_empty m, ↓reduceIte, hn, Option.getD_some, Command.ofTexts,
    t.label_ne_empty, t.classify_label_text m, t.holdsExpression_text m]
  rfl

end TestTask

theorem Step.command?_action (name reference : String) (inputs : List (String × Json)) :
    (Step.action name reference inputs).command? = none := rfl

namespace Toolchain

theorem filterMap_setupManager (t : Toolchain) : t.setupManager.filterMap Step.command? = [] := by
  rw [setupManager]
  cases t.setupAction <;> rfl

theorem filterMap_cacheSteps (m : PackageManager) :
    m.tools.cacheSteps.filterMap Step.command? = [TestTask.cacheLookup.command m] := by
  have h := TestTask.command?_of_texts m .cacheLookup
    (s := (Step.shell ("📦 Get " ++ m.tools.name ++ " cache directory path")
      m.tools.cacheDirScript).withId m.tools.cacheDirStepId) rfl rfl
  rw [cacheSteps, List.filterMap_cons_some h]
  rfl

/-- Setting up runs nothing but the lookup of the cache. -/
theorem filterMap_setupSteps (m : PackageManager) (nodeVersion : String) (caching : Bool) :
    (m.tools.setupSteps nodeVersion caching).filterMap Step.command?
      = if caching then [TestTask.cacheLookup.command m] else [] := by
  rw [setupSteps, List.cons_append, List.filterMap_cons_none (Step.command?_action ..),
    List.filterMap_append, filterMap_setupManager, List.nil_append,
    List.filterMap_cons_none (Step.command?_action ..)]
  cases caching
  · rfl
  · exact filterMap_cacheSteps m

end Toolchain

/-- Lists with the same members contain the same. -/
theorem contains_eq_of_mem_iff {α : Type} [DecidableEq α] {xs ys : List α}
    (h : ∀ a, a ∈ xs ↔ a ∈ ys) : xs.contains = ys.contains := by
  funext a
  rw [Bool.eq_iff_iff, List.contains_iff_mem, List.contains_iff_mem, h a]

namespace Config

/-- The selected static checks, then the selected suites. -/
def checkTasks (c : Config) : List TestTask :=
  (Choice.members.filter fun k => c.tests.contains k).map .check
    ++ (Suite.all.filter (Suite.selected c.options)).map .suite

/-- The tasks that a configuration with test work selects. -/
def testTasks (c : Config) : List TestTask :=
  (if c.options.caching then [.cacheLookup] else []) ++ .install :: c.checkTasks

theorem filterMap_checkSteps (c : Config) :
    c.checkSteps.filterMap Step.command?
      = c.checkTasks.map (TestTask.command c.packageManager) := by
  have hk : ∀ k : TestKind, (k.step c.packageManager.tools).command?
      = some ((TestTask.check k).command c.packageManager) := by
    intro k
    apply TestTask.command?_of_texts <;> cases k <;> rfl
  have hs : ∀ s : Suite, (s.step c.packageManager.tools).command?
      = some ((TestTask.suite s).command c.packageManager) := by
    intro s
    apply TestTask.command?_of_texts <;> cases s <;> rfl
  rw [checkSteps, checkTasks, List.filterMap_append, List.filterMap_map, List.filterMap_map,
    List.map_append, List.map_map, List.map_map]
  simp only [Function.comp_def, hk, hs, List.filterMap_eq_map']

/-- The test job runs the selected tasks in order. -/
theorem testCommands_eq (c : Config) :
    c.testCommands
      = if c.hasTestWork then c.testTasks.map (TestTask.command c.packageManager) else [] := by
  rw [testCommands, testJob?]
  by_cases h : c.hasTestWork = true
  · have hi := TestTask.command?_of_texts c.packageManager .install
      (s := c.packageManager.tools.installStep []) rfl (by simp [Toolchain.installStep, script,
        Step.shell, TestTask.text])
    simp only [h, ↓reduceIte, Option.map_some, Option.getD_some, Job.commands, testSteps]
    rw [List.filterMap_append, Toolchain.filterMap_setupSteps, List.filterMap_cons_some hi,
      filterMap_checkSteps, testTasks]
    cases c.options.caching <;> rfl
  · simp only [h, ↓reduceIte, Bool.false_eq_true]
    rfl

theorem mem_testTasks_cacheLookup (c : Config) :
    .cacheLookup ∈ c.testTasks ↔ c.options.caching = true := by
  cases h : c.options.caching <;> simp [testTasks, checkTasks, h]

theorem install_mem_testTasks (c : Config) : .install ∈ c.testTasks :=
  List.mem_append_right _ List.mem_cons_self

theorem mem_testTasks_check (c : Config) (k : TestKind) :
    .check k ∈ c.testTasks ↔ k ∈ c.tests := by
  have hm : k ∈ (Choice.members : List TestKind) := by cases k <;> decide
  cases h : c.options.caching <;> simp [testTasks, checkTasks, h, hm]

theorem mem_testTasks_suite (c : Config) (s : Suite) :
    .suite s ∈ c.testTasks ↔ s.selected c.options = true := by
  have hm : s ∈ Suite.all := by cases s <;> decide
  cases h : c.options.caching <;> simp [testTasks, checkTasks, h, hm]

/-! ## Signatures -/

/-- Some static check is selected, or some suite is switched on. -/
def TestsSomething (c : Config) : Prop :=
  c.tests ≠ [] ∨ c.options.jestTests = true ∨ c.options.rntlTests = true
    ∨ c.options.renderHookTests = true

/-- The configurations agree in everything that their test jobs depend on. -/
structure SameTestWork (c d : Config) : Prop where
  manager : c.packageManager = d.packageManager
  tests : ∀ k, k ∈ c.tests ↔ k ∈ d.tests
  jest : c.options.jestTests = d.options.jestTests
  rntl : c.options.rntlTests = d.options.rntlTests
  hooks : c.options.renderHookTests = d.options.renderHookTests
  caching : c.options.caching = d.options.caching

theorem hasTestWork_iff (c : Config) : c.hasTestWork = true ↔ c.TestsSomething := by
  simp [hasTestWork, TestsSomething, Options.anyTestFlag, or_assoc]

theorem separable_of_mem_testCommands {c : Config} {k : Command} (h : k ∈ c.testCommands) :
    k.Separable := by
  rw [testCommands_eq] at h
  split at h
  · obtain ⟨t, _, rfl⟩ := List.mem_map.1 h
    exact t.separable_command c.packageManager
  · cases h

/-- Without test work, and only then, there is nothing to sign. -/
theorem signature_eq_empty_iff (c : Config) : c.signature = "" ↔ ¬ c.TestsSomething := by
  rw [signature, signatureOf_eq_empty_iff, testCommands_eq, ← hasTestWork_iff]
  by_cases h : c.hasTestWork = true
  · simp [h, testTasks]
  · simp [h]

theorem SameTestWork.testTasks_eq {c d : Config} (h : c.SameTestWork d) :
    c.testTasks = d.testTasks := by
  have ht : c.tests.contains = d.tests.contains := contains_eq_of_mem_iff h.tests
  have hs : Suite.selected c.options = Suite.selected d.options := by
    funext s
    cases s
    · exact h.jest
    · exact h.rntl
    · exact h.hooks
  rw [testTasks, testTasks, checkTasks, checkTasks, h.caching, ht, hs]

theorem SameTestWork.hasTestWork_eq {c d : Config} (h : c.SameTestWork d) :
    c.hasTestWork = d.hasTestWork := by
  have ht : c.tests.isEmpty = d.tests.isEmpty := by
    rw [Bool.eq_iff_iff, List.isEmpty_iff, List.isEmpty_iff, List.eq_nil_iff_forall_not_mem,
      List.eq_nil_iff_forall_not_mem]
    simp only [h.tests]
  rw [hasTestWork, hasTestWork, Options.anyTestFlag, Options.anyTestFlag, ht, h.jest, h.rntl,
    h.hooks]

theorem SameTestWork.signature_eq {c d : Config} (h : c.SameTestWork d) :
    c.signature = d.signature := by
  rw [signature, signature, testCommands_eq, testCommands_eq, h.hasTestWork_eq, h.testTasks_eq,
    h.manager]

/-- A selected task stands among the signed pairs, and shows which task it is. -/
theorem mem_testTasks_of_keys {c d : Config}
    (h : ((c.testTasks.map (TestTask.command c.packageManager)).map Command.key).Perm
      ((d.testTasks.map (TestTask.command d.packageManager)).map Command.key))
    {t : TestTask} (ht : t ∈ c.testTasks) :
    t ∈ d.testTasks ∧
      (t.command c.packageManager).pair = (t.command d.packageManager).pair := by
  have hm := h.mem_iff.1 (List.mem_map_of_mem (List.mem_map_of_mem ht))
  obtain ⟨_, hu, hk⟩ := List.mem_map.1 hm
  obtain ⟨u, hd, rfl⟩ := List.mem_map.1 hu
  rw [Command.key_eq_iff (u.separable_command _) (t.separable_command _)] at hk
  obtain rfl := TestTask.pair_command_inj hk
  exact ⟨hd, hk.symm⟩

theorem signature_eq_iff_sameTestWork {c d : Config} (hc : c.TestsSomething)
    (hd : d.TestsSomething) : c.signature = d.signature ↔ c.SameTestWork d := by
  refine ⟨fun h => ?_, SameTestWork.signature_eq⟩
  rw [signature, signature, signatureOf_eq_iff_keys (fun _ => separable_of_mem_testCommands)
      (fun _ => separable_of_mem_testCommands), testCommands_eq, testCommands_eq,
    if_pos ((hasTestWork_iff c).2 hc), if_pos ((hasTestWork_iff d).2 hd)] at h
  have hmem : ∀ t, t ∈ c.testTasks ↔ t ∈ d.testTasks := fun t =>
    ⟨fun ht => (mem_testTasks_of_keys h ht).1, fun ht => (mem_testTasks_of_keys h.symm ht).1⟩
  have hsuite : ∀ s : Suite, s.selected c.options = s.selected d.options := by
    intro s
    rw [Bool.eq_iff_iff, ← mem_testTasks_suite, ← mem_testTasks_suite, hmem]
  refine ⟨?_, ?_, hsuite .jest, hsuite .rntl, hsuite .hooks, ?_⟩
  · exact TestTask.manager_of_install (mem_testTasks_of_keys h c.install_mem_testTasks).2
  · intro k
    rw [← mem_testTasks_check, ← mem_testTasks_check, hmem]
  · rw [Bool.eq_iff_iff, ← mem_testTasks_cacheLookup, ← mem_testTasks_cacheLookup, hmem]

/-- One signature means no test work on both sides, or the same. -/
theorem signature_eq_iff (c d : Config) :
    c.signature = d.signature ↔
      (¬ c.TestsSomething ∧ ¬ d.TestsSomething) ∨
        (c.TestsSomething ∧ d.TestsSomething ∧ c.SameTestWork d) := by
  by_cases hc : c.TestsSomething
  · by_cases hd : d.TestsSomething
    · rw [signature_eq_iff_sameTestWork hc hd]
      simp [hc, hd]
    · have hs : d.signature = "" := (signature_eq_empty_iff d).2 hd
      rw [hs, signature_eq_empty_iff]
      simp [hc, hd]
  · have hs : c.signature = "" := (signature_eq_empty_iff c).2 hc
    rw [hs, eq_comm, signature_eq_empty_iff]
    simp [hc]

end Config

end AppPipeline
