import AppPipeline.Proofs.Command.Local
import AppPipeline.Proofs.Workflow.Accepted

/-!
# Commands of a document

What a compiled document runs can be read off its jobs, or off their data
(`Command.ofJobData_toJson`): every step with a text to run is a command
(`Step.described?`), and none is passed over, since no such text is empty.

* `Config.commands_eq_filter`: the commands of a configuration are those of the test job
  and then those of the one build job of its document, in their order, without the ones
  that are not asked for (`Command.Asked`);
* `Config.testPhase`: what the test job runs, and in which category. All of it is always
  asked for, so nothing is left out of the test job.
-/

namespace AppPipeline

instance (text : String) : Decidable (HoldsExpression text) :=
  decidable_of_iff _ (holdsExpression_iff text)

/-! ## Commands in data -/

namespace Command

theorem ofStepData_toJson (s : Step) : ofStepData s.toJson = .ok s.command? := by
  have hrun := s.field?_run
  have hname := s.field?_name
  rw [Step.toJson, Json.field?] at hrun hname
  rw [Step.toJson, ofStepData, hrun, hname, Step.command?]
  cases s.run with
  | none => rfl
  | some text =>
    by_cases ht : text = ""
    · rw [ht]
      rfl
    · have hvoid : (Json.str text).isVoid = false := beq_false_of_ne ht
      simp only [Option.map_some, Option.getD_some, hvoid, if_neg ht]
      cases s.name <;> rfl

theorem ofStepsData_toJson (steps : List Step) :
    ofStepsData (steps.map Step.toJson) = .ok (steps.filterMap Step.command?) := by
  induction steps with
  | nil => rfl
  | cons s steps ih =>
    rw [List.map_cons, ofStepsData, ofStepData_toJson, ih]
    cases h : s.command? with
    | none => rw [List.filterMap_cons_none h]; rfl
    | some k => rw [List.filterMap_cons_some h]; rfl

theorem ofJobData_object {fields : List (String × Json)} (hne : fields ≠ []) :
    ofJobData (.object fields) = ofSequence ((fields.lookup "steps").getD (.list [])) := by
  have hvoid : (Json.object fields).isVoid = false := List.isEmpty_eq_false_iff.2 hne
  rw [ofJobData, hvoid]
  rfl

/-- The data of a job show its commands. -/
theorem ofJobData_toJson (j : Job) : ofJobData j.toJson = .ok j.commands := by
  have hsteps := j.field?_steps
  rw [Job.toJson, Json.field?] at hsteps
  rw [Job.toJson, ofJobData_object (List.append_ne_nil_of_right_ne_nil _ (List.cons_ne_nil _ _)),
    hsteps]
  exact ofStepsData_toJson j.steps

/-! ## Commands that are asked for -/

/-- A command is asked for unless it holds an expression, or is in the category of builds or in
no special one, and such commands are not wanted. -/
def Asked (expressions builds : Bool) (k : Command) : Prop :=
  (expressions = true ∨ ¬ HoldsExpression k.text) ∧
    (builds = true ∨ k.category ≠ Category.build.name ∧ k.category ≠ Category.other.name)

instance (expressions builds : Bool) (k : Command) : Decidable (k.Asked expressions builds) :=
  inferInstanceAs (Decidable (_ ∧ _))

end Command

/-- No task is in the categories of which commands are left out. -/
theorem TestTask.name_category_ne (t : TestTask) :
    t.category.name ≠ Category.build.name ∧ t.category.name ≠ Category.other.name := by
  cases t with
  | cacheLookup => decide
  | install => decide
  | check kind => cases kind <;> decide
  | suite suite => cases suite <;> decide

/-! ## Commands of documents -/

/-- The command of a step with a text to run. -/
def Step.described? (s : Step) : Option Command :=
  s.run.map fun text => Command.ofTexts (s.name.getD "") text

theorem Step.Proper.command?_eq {s : Step} (h : s.Proper) : s.command? = s.described? := by
  rw [command?, described?]
  rcases h with ⟨command, hrun, hink, _⟩ | ⟨_, _, _, hrun⟩
  · have hne : command ≠ "" := by
      rintro rfl
      exact absurd hink (by decide)
    rw [hrun, Option.map_some]
    exact if_neg hne
  · rw [hrun]
    rfl

namespace Document

/-- The commands of the jobs with such an id, in their order. -/
def commandsOf (d : Document) (p : String → Bool) : List Command :=
  ((d.jobs.filter fun j => p j.id).flatMap Job.steps).filterMap Step.described?

end Document

/-- Build jobs are known by the beginning of their ids. -/
def isBuildJobId (id : String) : Bool := "build-and-".toList.isPrefixOf id.toList

namespace Config

theorem isBuildJobId_buildJobId (c : Config) : isBuildJobId c.buildJobId = true := by
  rw [buildJobId]
  cases c.storage <;> decide

/-- Exactly one job of the document is a build job. -/
theorem filter_isBuildJobId (c : Config) :
    c.compile.jobs.filter (fun j => isBuildJobId j.id) = [c.buildJob] := by
  have hskip : isBuildJobId checkSkipJob.id = false := by decide
  have htest : c.testJob?.toList.filter (fun j => isBuildJobId j.id) = [] := by
    have hid : isBuildJobId testJobId = false := by decide
    rw [testJob?]
    split <;> simp [hid]
  have hbuild : isBuildJobId c.buildJob.id = true := c.isBuildJobId_buildJobId
  rw [compile, jobs, List.cons_append, List.filter_cons, hskip, if_neg Bool.false_ne_true,
    List.filter_append, htest, List.filter_singleton, hbuild]
  rfl

theorem filter_testJobId (c : Config) :
    c.compile.jobs.filter (fun j => j.id == testJobId) = c.testJob?.toList := by
  have hskip : (checkSkipJob.id == testJobId) = false := by decide
  have htest : c.testJob?.toList.filter (fun j => j.id == testJobId) = c.testJob?.toList := by
    rw [testJob?]
    split <;> simp
  have hbuild : (c.buildJob.id == testJobId) = false := beq_false_of_ne c.buildJobId_ne.2.symm
  rw [compile, jobs, List.cons_append, List.filter_cons, hskip, if_neg Bool.false_ne_true,
    List.filter_append, htest, List.filter_singleton, hbuild]
  exact List.append_nil _

theorem commands_eq_of_mem_jobs {c : Config} {j : Job} (hj : j ∈ c.jobs) :
    j.commands = j.steps.filterMap Step.described? :=
  List.filterMap_congr fun _ hs => ((proper_of_mem_jobs hj).steps _ hs).command?_eq

theorem commandsOf_testJobId (c : Config) :
    c.compile.commandsOf (· == testJobId) = c.testCommands := by
  have hjobs : ∀ j ∈ c.testJob?, j ∈ c.jobs := fun j hj =>
    List.mem_append_left _ (List.mem_cons_of_mem _ (Option.mem_toList.2 hj))
  rw [Document.commandsOf, filter_testJobId, testCommands]
  cases hc : c.testJob? with
  | none => rfl
  | some j =>
    rw [Option.toList_some, List.flatMap_singleton]
    exact (commands_eq_of_mem_jobs (hjobs j hc)).symm

theorem commandsOf_isBuildJobId (c : Config) :
    c.compile.commandsOf isBuildJobId = c.buildJob.commands := by
  have hjob : c.buildJob ∈ c.jobs := List.mem_append_right _ (List.mem_singleton.2 rfl)
  rw [Document.commandsOf, filter_isBuildJobId, List.flatMap_singleton]
  exact (commands_eq_of_mem_jobs hjob).symm

/-! ## The test phase -/

/-- What the test job runs, each text in its category. -/
def testPhase (c : Config) : List (String × String) :=
  let t := c.packageManager.tools
  (if c.options.caching then [("cache-dir", t.cacheDirScript)] else [])
    ++ ("install", t.install)
    :: (if .typescript ∈ c.tests then [("typecheck", t.typecheck)] else [])
    ++ (if .eslint ∈ c.tests then [("lint", t.lint)] else [])
    ++ (if .prettier ∈ c.tests then [("format", t.formatCheck)] else [])
    ++ (if c.options.jestTests then [("jest", t.test)] else [])
    ++ (if c.options.rntlTests then [("rntl", t.testRntl)] else [])
    ++ (if c.options.renderHookTests then [("hooks", t.testHooks)] else [])

theorem filter_three {α : Type} (p : α → Bool) (x y z : α) :
    [x, y, z].filter p
      = (if p x then [x] else []) ++ (if p y then [y] else []) ++ (if p z then [z] else []) := by
  cases hx : p x <;> cases hy : p y <;> cases hz : p z <;> simp [hx, hy, hz]

theorem map_ite_singleton {α β : Type} {p : Prop} [Decidable p] (f : α → β) (x : α) :
    (if p then [x] else []).map f = if p then [f x] else [] := by
  split <;> rfl

theorem testPhase_eq (c : Config) :
    (c.testTasks.map (TestTask.command c.packageManager)).map (fun k => (k.category, k.text))
      = c.testPhase := by
  have hkinds : (Choice.members : List TestKind) = [.typescript, .eslint, .prettier] := rfl
  have hsuites : Suite.all = [.jest, .rntl, .hooks] := rfl
  rw [testTasks, checkTasks, testPhase, hkinds, hsuites]
  simp only [filter_three, List.map_append, List.map_cons, map_ite_singleton,
    List.contains_iff_mem, List.cons_append, List.append_assoc]
  rfl

/-- No command of the test job is ever left out. -/
theorem asked_of_mem_testCommands {c : Config} {k : Command} (h : k ∈ c.testCommands)
    (expressions builds : Bool) : k.hosted = false ∧ k.Asked expressions builds := by
  rw [testCommands_eq] at h
  split at h
  · obtain ⟨t, _, rfl⟩ := List.mem_map.1 h
    have hexpression : ¬ HoldsExpression (t.text c.packageManager.tools) := by
      rw [← holdsExpression_iff, t.holdsExpression_text]
      exact Bool.false_ne_true
    exact ⟨rfl, .inr hexpression, .inr t.name_category_ne⟩
  · cases h

/-- Leaving out builds spares the test job, which has none, and so could be done for both jobs. -/
theorem commands_eq (c : Config) (expressions builds : Bool) :
    c.commands expressions builds
      = (c.testCommands ++ c.buildJob.commands).filter (fun k => k.Asked expressions builds) := by
  have htest : c.testCommands.filter (fun k => k.Asked expressions builds) = c.testCommands :=
    List.filter_eq_self.2 fun k hk => decide_eq_true (asked_of_mem_testCommands hk _ _).2
  have hkept : c.testCommands.filter (fun k => !k.hosted) = c.testCommands :=
    List.filter_eq_self.2 fun k hk => by
      rw [(asked_of_mem_testCommands hk expressions builds).1]
      rfl
  have hbuild : c.buildJob.commands.filter (fun k => k.Asked expressions builds)
      = c.buildJob.commands.filter
          (fun k => (expressions || !k.hosted) && (builds || !isBuildCategory k.category)) := by
    refine List.filter_congr fun k hk => ?_
    rw [Bool.eq_iff_iff, decide_eq_true_iff, Command.Asked, ← Job.hosted_iff hk]
    simp [isBuildCategory]
  rw [List.filter_append, htest, hbuild, commands, buildCommands]
  cases expressions <;> cases builds <;> simp [hkept, List.filter_filter]

/-- The commands of a configuration are those of its document that are asked for. -/
theorem commands_eq_filter (c : Config) (expressions builds : Bool) :
    c.compile.jobs.filter (fun j => isBuildJobId j.id) = [c.buildJob] ∧
    (∀ j ∈ c.compile.jobs,
      Command.ofJobData j.toJson = .ok (j.steps.filterMap Step.described?)) ∧
    c.commands expressions builds
      = (c.compile.commandsOf (· == testJobId) ++ c.compile.commandsOf isBuildJobId).filter
          (fun k => k.Asked expressions builds) ∧
    (c.TestsSomething → (c.compile.commandsOf (· == testJobId)).map
      (fun k => (k.category, k.text)) = c.testPhase) ∧
    (¬ c.TestsSomething → c.compile.commandsOf (· == testJobId) = []) ∧
    ∀ k ∈ c.compile.commandsOf (· == testJobId), k.hosted = false ∧ k.Asked expressions builds := by
  rw [commandsOf_testJobId, commandsOf_isBuildJobId]
  refine ⟨c.filter_isBuildJobId, fun j hj => ?_, c.commands_eq expressions builds, fun h => ?_,
    fun h => ?_, fun k hk => asked_of_mem_testCommands hk expressions builds⟩
  · rw [Command.ofJobData_toJson, commands_eq_of_mem_jobs hj]
  · rw [testCommands_eq, if_pos (c.hasTestWork_iff.2 h), testPhase_eq]
  · rw [testCommands_eq, if_neg (mt c.hasTestWork_iff.1 h)]

end Config

end AppPipeline
