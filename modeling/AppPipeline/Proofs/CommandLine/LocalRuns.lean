import AppPipeline.CommandLine.Session
import AppPipeline.Proofs.Command.Local
import AppPipeline.Proofs.CommandLine.Arguments
import AppPipeline.Proofs.Run.Runs

/-!
# Local runs do not publish

* `Run.calls_isPrefix`: however a run ends, its processes are those of the first
  commands that are not skipped;
* `exists_isStarted`: so each process of a session that runs a matrix entry is
  that of a command of the entry;
* `local_runs`: none of them resolves an expression, and none publishes or builds
  unless this is asked for.
-/

namespace AppPipeline

/-! ## Processes of runs -/

theorem Run.calls_isPrefix (s : Settings) (cs : List Command) (os : List Outcome) :
    (run s cs os).calls
      <+: (cs.filter fun c => !c.isSkipped s.skipBuild).map Call.ofCommand := by
  induction cs generalizing os with
  | nil => exact List.nil_prefix
  | cons c cs ih =>
    rw [run]
    cases hc : skipReason? s.skipBuild c with
    | some reason =>
      have hskipped : c.isSkipped s.skipBuild = true := (carries_skipped hc).skipped.symm
      simpa [Log.after, hskipped] using ih os
    | none =>
      have hstarted := skipReason?_eq_none_iff.1 hc
      rw [List.filter_cons_of_pos (by simp [hstarted]), List.map_cons]
      cases startedResult s.timeout c (os.headD {}) with
      | error stop => exact List.prefix_append [Call.ofCommand c] _
      | ok r =>
        refine List.cons_prefix_cons.2 ⟨rfl, ?_⟩
        show (if r.passed || s.continueOnError then run s cs os.tail else {} : Log).calls <+: _
        split
        · exact ih os.tail
        · exact List.nil_prefix

namespace CommandLine

open Files

/-! ## Processes of sessions -/

/-- The process is that of a command that is not skipped. -/
def IsStarted (skipBuild : Bool) (commands : List Command) (k : Run.Call) : Prop :=
  ∃ c ∈ commands, c.isSkipped skipBuild = false ∧ k.text = Text.strip c.text

theorem isStarted_of_mem_calls {s : Run.Settings} {commands : List Command}
    {outcomes : List Run.Outcome} {k : Run.Call} (h : k ∈ (Run.run s commands outcomes).calls) :
    IsStarted s.skipBuild commands k := by
  obtain ⟨c, hc, rfl⟩ := List.mem_map.1 ((Run.calls_isPrefix s commands outcomes).subset h)
  obtain ⟨hmem, hstarted⟩ := List.mem_filter.1 hc
  exact ⟨c, hmem, by simpa using hstarted, rfl⟩

theorem isStarted_of_mem_runCommands {t : FileTree} {debug : Bool} {calls : String}
    {folder : Path} {s : Run.Settings} {commands : List Command} {outcomes : List Run.Outcome}
    {start : Transcript} {k : Run.Call}
    (h : k ∈ (Session.runCommands t debug calls folder s commands outcomes start).calls) :
    IsStarted s.skipBuild commands k := by
  rw [Session.runCommands] at h
  split at h
  · cases h
  · split at h
    · cases h
    · next log hlog =>
      rw [Run.runIn] at hlog
      split at hlog
      · cases hlog
        dsimp only at h
        split at h
        · split at h <;> exact isStarted_of_mem_calls h
        · exact isStarted_of_mem_calls h
      · cases hlog

/-- What a session prints does not change its processes. -/
theorem calls_printed (s : Session) : s.printed.calls = s.calls := by
  rw [Session.printed]
  split <;> rfl

theorem calls_loadFailed (t : FileTree) (path : String) (f : Matrix.LoadFault) :
    (Session.loadFailed t path f).calls = [] := by
  cases f with
  | missing p => rfl
  | file f => rfl
  | unread f => cases f <;> rfl
  | refused f => cases f <;> rfl

/-- The processes of a run of a matrix entry are those of commands of the entry. -/
theorem exists_isStarted {t : FileTree} {outcomes : List Run.Outcome} {debug : Bool}
    {calls : String} {r : EntryRun} {k : Run.Call}
    (h : k ∈ (Session.perform t outcomes debug calls (.runEntry r)).calls) :
    ∃ e : Matrix.Entry, IsStarted r.settings.skipBuild (Session.entryCommands r e) k := by
  rw [Session.perform, calls_printed, Session.act, Session.runEntry] at h
  split at h
  · cases h
  · split at h
    · cases h
    · split at h
      · rw [calls_loadFailed] at h
        cases h
      · next e _ => exact ⟨e, isStarted_of_mem_runCommands h⟩

/-! ## Commands of entries -/

theorem cases_of_mem_entryCommands {r : EntryRun} {e : Matrix.Entry} {c : Command}
    (h : c ∈ Session.entryCommands r e) :
    c ∈ e.config.testCommands ∨ c ∈ e.config.buildJob.commands ∧
      (r.settings.skipBuild = true → Config.isBuildCategory c.category = false) := by
  rw [Session.entryCommands] at h
  split at h
  · rw [Config.commands, if_neg Bool.false_ne_true, List.mem_filter, List.mem_append] at h
    refine h.1.imp_right fun hbuild => ?_
    rw [Config.buildCommands] at hbuild
    cases hskip : r.settings.skipBuild with
    | true =>
      rw [hskip] at hbuild
      obtain ⟨hmem, hcategory⟩ := List.mem_filter.1 hbuild
      exact ⟨hmem, fun _ => by simpa using hcategory⟩
    | false =>
      rw [hskip] at hbuild
      exact ⟨hbuild, fun h => by cases h⟩
  · exact .inl h

theorem hosted_iff_of_mem_entryCommands {r : EntryRun} {e : Matrix.Entry} {c : Command}
    (h : c ∈ Session.entryCommands r e) : c.hosted = true ↔ HoldsExpression c.text := by
  rcases cases_of_mem_entryCommands h with h | ⟨h, -⟩
  · rw [Config.testCommands] at h
    cases hjob : e.config.testJob? with
    | none =>
      rw [hjob] at h
      cases h
    | some j =>
      rw [hjob] at h
      exact Job.hosted_iff h
  · exact Job.hosted_iff h

theorem not_publishes_of_mem_entryCommands {r : EntryRun} {e : Matrix.Entry} {c : Command}
    (h : c ∈ Session.entryCommands r e) (hskip : r.settings.skipBuild = true)
    (hexpression : ¬ HoldsExpression c.text) : ¬ Publishes c.text := by
  rcases cases_of_mem_entryCommands h with h | ⟨h, hcategory⟩
  · exact Config.not_publishes_of_mem_testCommands h
  · intro hpublishes
    rcases Config.confined_of_mem_buildJob h hpublishes with hbuild | hheld
    · rw [hcategory hskip] at hbuild
      cases hbuild
    · exact hexpression hheld

/-! ## Local runs -/

/-- Whatever the entry, the settings and the outcomes are, a run of a matrix entry starts no
process with an expression that only the hosted runner resolves. If builds are skipped it starts
none that builds or publishes; and they are skipped unless one argument says otherwise. -/
theorem local_runs :
    (∀ (t : FileTree) (outcomes : List Run.Outcome) (debug : Bool) (calls : String)
      (r : EntryRun), ∀ k ∈ (Session.perform t outcomes debug calls (.runEntry r)).calls,
        ¬ HoldsExpression k.text ∧ (r.settings.skipBuild = true → ¬ Publishes k.text)) ∧
    ∀ (env : Environment) (args : List String) (debug : Bool) (r : EntryRun),
      Request.ofArgs env args = .ok (.act debug (.runEntry r)) → "--no-skip-build" ∉ args →
        r.settings.skipBuild = true := by
  refine ⟨fun t outcomes debug calls r k hk => ?_, fun env args debug r => skipBuild_of_ofArgs⟩
  obtain ⟨e, c, hc, hstarted, htext⟩ := exists_isStarted hk
  rw [Command.isSkipped, Bool.or_eq_false_iff] at hstarted
  have hexpression : ¬ HoldsExpression c.text := by
    rw [← hosted_iff_of_mem_entryCommands hc, hstarted.2]
    exact Bool.false_ne_true
  rw [htext]
  exact ⟨fun h => hexpression h.of_strip, fun hskip h =>
    not_publishes_of_mem_entryCommands hc hskip hexpression h.of_strip⟩

/-- The build job is asked for, builds are not. -/
theorem local_runs_includeBuildJob :
    ∃ r : EntryRun,
      Request.ofArgs [] ["run-single", "--matrix-file", "matrix.json", "--config-index", "3",
        "--fixture-dir", "app", "--include-build-job"] = .ok (.act false (.runEntry r)) ∧
      r.includeBuildJob = true ∧
      ∀ (t : FileTree) (outcomes : List Run.Outcome) (calls : String),
        ∀ k ∈ (Session.perform t outcomes false calls (.runEntry r)).calls,
          ¬ HoldsExpression k.text ∧ ¬ Publishes k.text := by
  let r : EntryRun :=
    { matrixFile := "matrix.json", index := 3, fixture := "app", includeBuildJob := true
      settings := {} }
  have hargs : Request.ofArgs [] ["run-single", "--matrix-file", "matrix.json", "--config-index",
      "3", "--fixture-dir", "app", "--include-build-job"] = .ok (.act false (.runEntry r)) := by
    decide +kernel
  have hskip := local_runs.2 [] _ false r hargs (by decide)
  refine ⟨r, hargs, rfl, fun t outcomes calls k hk => ?_⟩
  obtain ⟨hexpression, hpublishes⟩ := local_runs.1 t outcomes false calls r k hk
  exact ⟨hexpression, hpublishes hskip⟩

end CommandLine

end AppPipeline
