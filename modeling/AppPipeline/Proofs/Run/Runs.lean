import Mathlib.Data.List.Basic
import AppPipeline.Run.Harness

/-!
# Runs step by step

`Runs` is the course of a run as a relation: a command is skipped, or it is
started and the run goes on or halts. Where every process is waited for, `run`
takes this course and nothing stops it (`run_runs`). What holds of a course is
shown once for each kind of step:

* results stand in the order of their commands (`Runs.carries`),
* the processes are those of the started commands (`Runs.calls_eq`), each of
  which takes the next outcome (`Runs.answers`),
* only a failure leaves commands without a result, and it is the last result
  then (`Runs.length_eq`, `Runs.last_failed`).

Together they say what a log reports (`run_reports`).
-/

namespace AppPipeline

/-- A local run passes over the command. -/
def Command.isSkipped (skipBuild : Bool) (c : Command) : Bool :=
  skipBuild && c.category == "build" || c.hosted

namespace Run

/-! ## Outcomes -/

/-- The exit code of a process that was waited for, 124 if its time ran out. -/
def Ending.exitCode? : Ending → Option Int
  | .finished code _ _ => some code
  | .timedOut _ _ => some 124
  | .raised _ => none
  | .interrupted => none

/-- The process was run and waited for, and the clock gave the time that it took. -/
structure Outcome.IsRegular (o : Outcome) : Prop where
  waited : o.ending.exitCode?.isSome = true
  measured : o.milliseconds.isOk = true

theorem isRegular_default : ({} : Outcome).IsRegular := ⟨rfl, rfl⟩

theorem isRegular_headD {os : List Outcome} (h : ∀ o ∈ os, o.IsRegular) :
    (os.headD {}).IsRegular := by
  cases os with
  | nil => exact isRegular_default
  | cons o os => exact h o List.mem_cons_self

/-! ## Single commands -/

theorem skipReason?_eq_none_iff {skipBuild : Bool} {c : Command} :
    skipReason? skipBuild c = none ↔ c.isSkipped skipBuild = false := by
  have hname : Category.build.name = "build" := rfl
  rw [skipReason?, Command.isSkipped, hname]
  cases skipBuild && c.category == "build" <;> cases c.hosted <;> simp

/-- What the result of a command takes over from it. -/
structure Carries (s : Settings) (c : Command) (r : Result) : Prop where
  stepName : r.stepName = c.stepName
  command : r.command = c.text
  category : r.category = c.category
  skipped : r.skipped = c.isSkipped s.skipBuild

theorem carries_skipped {s : Settings} {c : Command} {reason : SkipReason}
    (h : skipReason? s.skipBuild c = some reason) : Carries s c (skippedResult c reason) := by
  refine ⟨rfl, rfl, rfl, ?_⟩
  cases hs : c.isSkipped s.skipBuild with
  | true => rfl
  | false =>
    rw [skipReason?_eq_none_iff.2 hs] at h
    cases h

theorem status_skipped (c : Command) (reason : SkipReason) :
    (skippedResult c reason).status = .skip := rfl

/-- A regular outcome gives a result. -/
theorem exists_startedResult {timeout : Option Double} (ht : timeout.isSome = true) (c : Command)
    {o : Outcome} (ho : o.IsRegular) : ∃ r, startedResult timeout c o = .ok r := by
  obtain ⟨limit, rfl⟩ := Option.isSome_iff_exists.1 ht
  obtain ⟨hwaited, hmeasured⟩ := ho
  have hread : ∃ ended, o.ending.read (some limit) = .ok ended := by
    cases he : o.ending with
    | finished code stdout stderr => exact ⟨_, rfl⟩
    | timedOut stdout stderr => exact ⟨_, rfl⟩
    | raised message => simp [he, Ending.exitCode?] at hwaited
    | interrupted => simp [he, Ending.exitCode?] at hwaited
  obtain ⟨⟨code, stdout, stderr⟩, hread⟩ := hread
  cases hms : o.milliseconds with
  | ok ms => simp [startedResult, hread, hms]
  | error fault => simp [hms, Except.isOk, Except.toBool] at hmeasured

/-- The result of a command that was started. -/
theorem startedResult_eq {timeout : Option Double} {c : Command} {o : Outcome} {r : Result}
    (h : startedResult timeout c o = .ok r) :
    r.stepName = c.stepName ∧ r.command = c.text ∧ r.category = c.category ∧ r.skipped = false
      ∧ r.exitCode = o.ending.exitCode? := by
  have hcode : ∀ {code : Int} {stdout stderr : String},
      o.ending.read timeout = .ok (code, stdout, stderr) → o.ending.exitCode? = some code := by
    intro code stdout stderr hread
    cases he : o.ending with
    | finished code' stdout' stderr' =>
      rw [he] at hread
      cases hread
      rfl
    | timedOut stdout' stderr' =>
      rw [he] at hread
      cases timeout with
      | none => cases hread
      | some limit =>
        cases hread
        rfl
    | raised message => rw [he] at hread; cases hread
    | interrupted => rw [he] at hread; cases hread
  rw [startedResult] at h
  split at h
  · cases h
  · cases h
  · next code stdout stderr ms hread _ =>
    cases h
    exact ⟨rfl, rfl, rfl, rfl, (hcode hread).symm⟩

theorem carries_started {s : Settings} {c : Command} {o : Outcome} {r : Result}
    (hc : skipReason? s.skipBuild c = none) (hr : startedResult s.timeout c o = .ok r) :
    Carries s c r := by
  obtain ⟨hname, hcommand, hcategory, hskipped, _⟩ := startedResult_eq hr
  exact ⟨hname, hcommand, hcategory, hskipped.trans (skipReason?_eq_none_iff.1 hc).symm⟩

theorem status_started {timeout : Option Double} {c : Command} {o : Outcome} {r : Result}
    (h : startedResult timeout c o = .ok r) : r.status = .fail ↔ r.passed = false := by
  have hskipped := (startedResult_eq h).2.2.2.1
  by_cases he : r.exitCode = some 0 <;> simp [Result.status, Result.passed, hskipped, he]

/-! ## The course of a run -/

/-- The results and the processes of commands under a script of outcomes; where the script
ends, processes end well. -/
inductive Runs (s : Settings) :
    List Command → List Outcome → List Result → List Call → Prop where
  | done (os : List Outcome) : Runs s [] os [] []
  | skip {c cs os rs calls reason} (hc : skipReason? s.skipBuild c = some reason)
      (rest : Runs s cs os rs calls) : Runs s (c :: cs) os (skippedResult c reason :: rs) calls
  | halt {c cs os r} (hc : skipReason? s.skipBuild c = none)
      (hr : startedResult s.timeout c (os.headD {}) = .ok r) (failed : r.passed = false)
      (halting : s.continueOnError = false) : Runs s (c :: cs) os [r] [Call.ofCommand c]
  | next {c cs os rs calls r} (hc : skipReason? s.skipBuild c = none)
      (hr : startedResult s.timeout c (os.headD {}) = .ok r)
      (on : r.passed = true ∨ s.continueOnError = true) (rest : Runs s cs os.tail rs calls) :
      Runs s (c :: cs) os (r :: rs) (Call.ofCommand c :: calls)

/-- A run whose processes are all waited for is never stopped. -/
theorem run_runs {s : Settings} (hs : s.timeout.isSome = true) (cs : List Command)
    {os : List Outcome} (ho : ∀ o ∈ os, o.IsRegular) :
    (run s cs os).stop = none ∧ Runs s cs os (run s cs os).results (run s cs os).calls := by
  induction cs generalizing os with
  | nil => exact ⟨rfl, .done os⟩
  | cons c cs ih =>
    rw [run]
    cases hc : skipReason? s.skipBuild c with
    | some reason =>
      obtain ⟨hstop, hruns⟩ := ih ho
      exact ⟨hstop, .skip hc hruns⟩
    | none =>
      obtain ⟨r, hr⟩ := exists_startedResult hs c (isRegular_headD ho)
      simp only [hr]
      cases hon : r.passed || s.continueOnError with
      | true =>
        obtain ⟨hstop, hruns⟩ := ih fun o h => ho o (List.mem_of_mem_tail h)
        exact ⟨hstop, .next hc hr (Bool.or_eq_true _ _ ▸ hon) hruns⟩
      | false =>
        rw [Bool.or_eq_false_iff] at hon
        exact ⟨rfl, .halt hc hr hon.1 hon.2⟩

/-! ## What holds of every course -/

namespace Runs

variable {s : Settings} {cs : List Command} {os : List Outcome} {rs : List Result}
  {calls : List Call}

theorem carries (h : Runs s cs os rs calls) {i : Nat} {r : Result} (hi : rs[i]? = some r) :
    ∃ c, cs[i]? = some c ∧ Carries s c r := by
  induction h generalizing i with
  | done => cases hi
  | @skip c _ _ _ _ _ hc rest ih =>
    cases i with
    | zero => exact ⟨c, rfl, Option.some.inj hi ▸ carries_skipped hc⟩
    | succ i => exact ih hi
  | @halt c _ _ _ hc hr =>
    cases i with
    | zero => exact ⟨c, rfl, Option.some.inj hi ▸ carries_started hc hr⟩
    | succ i => cases hi
  | @next c _ _ _ _ _ hc hr on rest ih =>
    cases i with
    | zero => exact ⟨c, rfl, Option.some.inj hi ▸ carries_started hc hr⟩
    | succ i => exact ih hi

/-- The commands with a result that were not skipped. -/
def started (s : Settings) (cs : List Command) (rs : List Result) : List Command :=
  (cs.take rs.length).filter fun c => !c.isSkipped s.skipBuild

theorem started_skip {c : Command} {reason : SkipReason} {r : Result}
    (hc : skipReason? s.skipBuild c = some reason) :
    started s (c :: cs) (r :: rs) = started s cs rs := by
  have hskipped : c.isSkipped s.skipBuild = true := (carries_skipped hc).skipped.symm
  simp [started, hskipped]

theorem started_next {c : Command} {r : Result} (hc : skipReason? s.skipBuild c = none) :
    started s (c :: cs) (r :: rs) = c :: started s cs rs := by
  simp [started, skipReason?_eq_none_iff.1 hc]

theorem calls_eq (h : Runs s cs os rs calls) : calls = (started s cs rs).map Call.ofCommand := by
  induction h with
  | done => rfl
  | skip hc rest ih => rw [started_skip hc, ih]
  | halt hc => rw [started_next hc]; simp [started]
  | next hc hr on rest ih => rw [started_next hc, List.map_cons, ih]

/-- The results of started commands take the outcomes one after another. -/
theorem answers (h : Runs s cs os rs calls) {k : Nat} {r : Result}
    (hk : (rs.filter fun r => !r.skipped)[k]? = some r) :
    ∃ c, (started s cs rs)[k]? = some c ∧ startedResult s.timeout c (os.getD k {}) = .ok r := by
  have hfirst : ∀ os : List Outcome, os.headD {} = os.getD 0 {} := by
    intro os
    cases os <;> rfl
  induction h generalizing k with
  | done => cases hk
  | skip hc rest ih =>
    rw [started_skip hc]
    exact ih hk
  | @halt c _ os r' hc hr =>
    rw [List.filter_cons_of_pos (by simp [(startedResult_eq hr).2.2.2.1])] at hk
    rw [started_next hc]
    cases k with
    | zero => exact ⟨c, rfl, hfirst os ▸ Option.some.inj hk ▸ hr⟩
    | succ k => cases hk
  | @next c _ os _ _ r' hc hr on rest ih =>
    rw [List.filter_cons_of_pos (by simp [(startedResult_eq hr).2.2.2.1])] at hk
    rw [started_next hc]
    cases k with
    | zero => exact ⟨c, rfl, hfirst os ▸ Option.some.inj hk ▸ hr⟩
    | succ k =>
      have hnext : os.getD (k + 1) {} = os.tail.getD k {} := by cases os <;> rfl
      rw [hnext]
      exact ih hk

/-- Only a failure leaves commands without a result. -/
theorem length_eq (h : Runs s cs os rs calls)
    (hon : s.continueOnError = true ∨ ∀ r ∈ rs, r.status ≠ .fail) : rs.length = cs.length := by
  induction h with
  | done => rfl
  | skip hc rest ih =>
    exact congrArg (· + 1) (ih (hon.imp_right fun hr r hm => hr r (List.mem_cons_of_mem _ hm)))
  | halt hc hr failed halting =>
    rcases hon with hon | hon
    · rw [halting] at hon
      cases hon
    · exact absurd ((status_started hr).2 failed) (hon _ List.mem_cons_self)
  | next hc hr on rest ih =>
    exact congrArg (· + 1) (ih (hon.imp_right fun hr r hm => hr r (List.mem_cons_of_mem _ hm)))

/-- A failure that halts the run is its last result, and the only failure. -/
theorem last_failed (h : Runs s cs os rs calls) (halting : s.continueOnError = false)
    (hfail : ∃ r ∈ rs, r.status = .fail) :
    ∃ before last, rs = before ++ [last] ∧ last.status = .fail
      ∧ ∀ r ∈ before, r.status ≠ .fail := by
  -- a result in front that is no failure
  have hcons : ∀ {r : Result} {rs : List Result}, r.status ≠ .fail →
      (∃ before last, rs = before ++ [last] ∧ last.status = .fail
        ∧ ∀ r ∈ before, r.status ≠ .fail) →
      ∃ before last, r :: rs = before ++ [last] ∧ last.status = .fail
        ∧ ∀ r ∈ before, r.status ≠ .fail := by
    rintro r rs hr ⟨before, last, rfl, hlast, hbefore⟩
    exact ⟨r :: before, last, rfl, hlast, List.forall_mem_cons.2 ⟨hr, hbefore⟩⟩
  induction h with
  | done =>
    obtain ⟨r, hr, _⟩ := hfail
    cases hr
  | @skip c _ _ _ _ reason hc rest ih =>
    have hskip : (skippedResult c reason).status ≠ .fail := by
      rw [status_skipped]
      decide
    rw [List.exists_mem_cons_iff] at hfail
    exact hcons hskip (ih (hfail.resolve_left hskip))
  | @halt c _ _ r hc hr failed _ =>
    exact ⟨[], r, rfl, (status_started hr).2 failed, fun _ hm => absurd hm List.not_mem_nil⟩
  | @next c _ _ _ _ r hc hr on rest ih =>
    have hpassed : r.passed = true := by
      rcases on with hp | hon
      · exact hp
      · rw [halting] at hon
        cases hon
    have hstatus : r.status ≠ .fail := by
      rw [Ne, status_started hr, hpassed]
      decide
    rw [List.exists_mem_cons_iff] at hfail
    exact hcons hstatus (ih (hfail.resolve_left hstatus))

end Runs

/-! ## What a log reports -/

/-- The log tells of the commands what they are, which of them were started, in which order
and how each of these ended. -/
structure Log.Reports (s : Settings) (cs : List Command) (os : List Outcome) (l : Log) : Prop where
  unstopped : l.stop = none
  /-- The results follow the commands, and exactly the skipped ones are marked. -/
  carried : ∀ (i : Nat) (r : Result), l.results[i]? = some r →
    ∃ c : Command, cs[i]? = some c ∧ r.stepName = c.stepName
    ∧ r.command = c.text ∧ r.category = c.category
    ∧ (r.skipped = true ↔ (s.skipBuild = true ∧ c.category = "build") ∨ c.hosted = true)
  /-- Each started command is one process, in order. -/
  called : l.calls.map Call.text
    = (Runs.started s cs l.results).map fun c => Text.strip c.text
  /-- The started commands use the outcomes one after another. -/
  answered : ∀ (k : Nat) (r : Result), (l.results.filter fun r => !r.skipped)[k]? = some r →
    ∃ c : Command, (Runs.started s cs l.results)[k]? = some c
      ∧ startedResult s.timeout c (os.getD k {}) = .ok r
      ∧ r.exitCode = (os.getD k {}).ending.exitCode?
  /-- Every command has a result, unless a failure halts the run. -/
  whole : s.continueOnError = true ∨ (∀ r ∈ l.results, r.status ≠ .fail) →
    l.results.length = cs.length
  /-- A failure that halts the run comes last. -/
  halted : s.continueOnError = false → (∃ r ∈ l.results, r.status = .fail) →
    ∃ (before : List Result) (last : Result), l.results = before ++ [last] ∧ last.status = .fail
      ∧ ∀ r ∈ before, r.status ≠ .fail
  counted : (summary l.results).passed + (summary l.results).failed
    + (summary l.results).skipped = l.results.length

theorem run_reports {s : Settings} (hs : s.timeout.isSome = true) (cs : List Command)
    {os : List Outcome} (ho : ∀ o ∈ os, o.IsRegular) : (run s cs os).Reports s cs os := by
  obtain ⟨hstop, hruns⟩ := run_runs hs cs ho
  refine ⟨hstop, ?_, ?_, ?_, hruns.length_eq, hruns.last_failed, summary_total _⟩
  · intro i r hi
    obtain ⟨c, hc, hcarries⟩ := hruns.carries hi
    refine ⟨c, hc, hcarries.stepName, hcarries.command, hcarries.category, ?_⟩
    rw [hcarries.skipped, Command.isSkipped, Bool.or_eq_true, Bool.and_eq_true, beq_iff_eq]
  · rw [hruns.calls_eq, List.map_map]
    rfl
  · intro k r hk
    obtain ⟨c, hc, hr⟩ := hruns.answers hk
    exact ⟨c, hc, hr, (startedResult_eq hr).2.2.2.2⟩

/-- A skipped build takes no outcome, and a process without end halts the run. -/
theorem run_reports_timeout :
    let cs : List Command :=
      [⟨"Install", "yarn install\n", "install", false⟩, ⟨"Build", "eas build", "build", false⟩,
       ⟨"Lint", "yarn lint", "lint", false⟩, ⟨"Jest", "yarn jest", "jest", false⟩]
    let os : List Outcome := [{}, { ending := .timedOut .absent (.text "slow") }]
    (∀ o ∈ os, o.IsRegular) ∧ (run {} cs os).Reports {} cs os ∧
      (run {} cs os).results.length = 3 := by
  intro cs os
  have ho : ∀ o ∈ os, o.IsRegular := by
    intro o h
    rcases List.mem_pair.1 h with rfl | rfl
    · exact isRegular_default
    · exact ⟨rfl, rfl⟩
  exact ⟨ho, run_reports rfl cs ho, by decide⟩

end Run

end AppPipeline
