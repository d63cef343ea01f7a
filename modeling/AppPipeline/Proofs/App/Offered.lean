import AppPipeline.App.Probe
import AppPipeline.Proofs.Command.TestPhase

/-!
# What an app offers, before and after compiling

An app offers some of the tasks of a test job (`TestTask.offeredBy`). Leaving the
others out of the commands of a configuration, and leaving their checks and suites
out of the configuration itself (`Config.offeredBy`), comes to the same:

* `available_map_command`: the commands that are left are those of the offered tasks;
* `testTasks_offeredBy`: so are the tasks of the configuration that is left;
* `available_testCommands`: both together, with the case that nothing is left to test.
-/

namespace AppPipeline

namespace TestTask

/-- The app can run the task. -/
def offeredBy (scripts : List String) (typed : Bool) (t : TestTask) : Bool :=
  App.offers scripts typed t.category

theorem offeredBy_install (scripts : List String) (typed : Bool) :
    install.offeredBy scripts typed = true := rfl

end TestTask

namespace Config

/-- The configuration with those of its checks and suites that an app with these scripts, and with
settings of the type checker or without them, can run. -/
def offeredBy (scripts : List String) (typed : Bool) (c : Config) : Config :=
  { c with
    tests := c.tests.filter fun
      | .typescript => typed
      | .eslint => scripts.contains "lint"
      | .prettier => scripts.contains "format:check"
    options := { c.options with
      jestTests := c.options.jestTests && scripts.contains "test"
      rntlTests := c.options.rntlTests && scripts.contains "test:rntl"
      renderHookTests := c.options.renderHookTests && scripts.contains "test:hooks" } }

variable {scripts : List String} {typed : Bool} {c : Config}

theorem contains_tests_offeredBy (k : TestKind) :
    (c.offeredBy scripts typed).tests.contains k
      = (c.tests.contains k && (TestTask.check k).offeredBy scripts typed) := by
  rw [Bool.eq_iff_iff, Bool.and_eq_true, List.contains_iff_mem, List.contains_iff_mem]
  cases k <;> exact List.mem_filter

theorem selected_offeredBy (s : Suite) :
    s.selected (c.offeredBy scripts typed).options
      = (s.selected c.options && (TestTask.suite s).offeredBy scripts typed) := by
  cases s <;> rfl

theorem checkTasks_offeredBy :
    (c.offeredBy scripts typed).checkTasks
      = c.checkTasks.filter (TestTask.offeredBy scripts typed) := by
  have hsuites : Suite.selected (c.offeredBy scripts typed).options
      = fun s => s.selected c.options && (TestTask.suite s).offeredBy scripts typed :=
    funext selected_offeredBy
  simp only [checkTasks, List.filter_append, List.filter_map, List.filter_filter,
    Function.comp_def, contains_tests_offeredBy, hsuites, Bool.and_comm]

/-- The tasks of the configuration that is left are the offered ones. -/
theorem testTasks_offeredBy :
    (c.offeredBy scripts typed).testTasks
      = c.testTasks.filter (TestTask.offeredBy scripts typed) := by
  have hcaching : (c.offeredBy scripts typed).options.caching = c.options.caching := rfl
  rw [testTasks, testTasks, hcaching, checkTasks_offeredBy, List.filter_append,
    List.filter_cons_of_pos (TestTask.offeredBy_install scripts typed)]
  cases c.options.caching <;> rfl

theorem checkTasks_eq_nil (h : ¬ c.TestsSomething) : c.checkTasks = [] := by
  simp only [TestsSomething, not_or, Decidable.not_not, Bool.not_eq_true] at h
  obtain ⟨htests, hjest, hrntl, hhooks⟩ := h
  simp [checkTasks, Suite.all, Suite.selected, htests, hjest, hrntl, hhooks]

/-- What an app can run, it offers of itself. -/
theorem offeredBy_configFor (m : PackageManager) :
    (App.configFor scripts m typed).offeredBy scripts typed = App.configFor scripts m typed := by
  have htests : (App.configFor scripts m typed).tests.filter (fun
      | .typescript => typed
      | .eslint => scripts.contains "lint"
      | .prettier => scripts.contains "format:check") = (App.configFor scripts m typed).tests := by
    refine List.filter_eq_self.2 fun k hk => ?_
    have hoffered := (List.mem_filter.1 hk).2
    cases k <;> exact hoffered
  rw [offeredBy, htests]
  simp [App.configFor, App.hasScriptOf, App.scriptOf]

end Config

namespace App

variable {scripts : List String} {typed : Bool}

/-- Of commands of tasks, those of the offered tasks are left. -/
theorem available_map_command (m : PackageManager) (tasks : List TestTask) :
    available scripts typed (tasks.map (TestTask.command m))
      = (tasks.filter (TestTask.offeredBy scripts typed)).map (TestTask.command m) := by
  rw [available, List.filter_map]
  congr 1
  refine List.filter_congr fun t _ => ?_
  simp only [Function.comp_apply, TestTask.command, Category.named?_name]
  rfl

/-- Leaving out the commands that an app cannot run is leaving their checks and suites out of the
configuration, but for the cache and the installation where nothing is left to test. From the
configuration that is made for the app nothing is left out. -/
theorem available_testCommands {c : Config} (hc : c.TestsSomething) (scripts : List String)
    (typed : Bool) :
    ((c.offeredBy scripts typed).TestsSomething →
      available scripts typed c.testCommands = (c.offeredBy scripts typed).testCommands) ∧
    (¬ (c.offeredBy scripts typed).TestsSomething →
      available scripts typed c.testCommands
        = (if c.options.caching then [TestTask.cacheLookup.command c.packageManager] else [])
          ++ [TestTask.install.command c.packageManager]) ∧
    ∀ m, available scripts typed (configFor scripts m typed).testCommands
      = (configFor scripts m typed).testCommands := by
  -- whatever is left to test, the commands left are those of the tasks left
  have hleft : ∀ {d : Config}, d.TestsSomething →
      available scripts typed d.testCommands
        = (d.offeredBy scripts typed).testTasks.map (TestTask.command d.packageManager) := by
    intro d hd
    rw [Config.testCommands_eq, if_pos ((Config.hasTestWork_iff d).2 hd), available_map_command,
      Config.testTasks_offeredBy]
  refine ⟨fun h => ?_, fun h => ?_, fun m => ?_⟩
  · rw [hleft hc, Config.testCommands_eq, if_pos ((Config.hasTestWork_iff _).2 h)]
    rfl
  · rw [hleft hc, Config.testTasks, Config.checkTasks_eq_nil h]
    show ((if c.options.caching then [TestTask.cacheLookup] else []) ++ [TestTask.install]).map
      (TestTask.command c.packageManager) = _
    cases c.options.caching <;> rfl
  · by_cases hm : (configFor scripts m typed).TestsSomething
    · rw [hleft hm, Config.offeredBy_configFor, Config.testCommands_eq,
        if_pos ((Config.hasTestWork_iff _).2 hm)]
    · rw [Config.testCommands_eq, if_neg fun h => hm ((Config.hasTestWork_iff _).1 h)]
      rfl

/-- An app without a script for the linter and without settings of the type checker. -/
theorem available_testCommands_rntl :
    ∃ c : Config, c.TestsSomething ∧ (c.offeredBy ["test:rntl", "start"] false).TestsSomething ∧
      (c.offeredBy ["test:rntl", "start"] false).tests = [] ∧
      available ["test:rntl", "start"] false c.testCommands
        = (c.offeredBy ["test:rntl", "start"] false).testCommands := by
  let c : Config := { tests := [.eslint, .typescript], options := { rntlTests := true } }
  have hc : c.TestsSomething := .inr (.inr (.inl rfl))
  have hleft : (c.offeredBy ["test:rntl", "start"] false).TestsSomething :=
    .inr (.inr (.inl (by decide)))
  exact ⟨c, hc, hleft, by decide,
    (available_testCommands hc ["test:rntl", "start"] false).1 hleft⟩

end App

end AppPipeline
