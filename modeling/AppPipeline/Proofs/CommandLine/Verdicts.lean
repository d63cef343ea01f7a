import AppPipeline.Proofs.CommandLine.LocalRuns
import AppPipeline.Proofs.Run.Printing

/-!
# Verdicts of sessions

A session that runs commands tells by its exit code how they ended: zero if every process was
started and ended well, 130 if the run reaches one that the user interrupts, one in all other
cases (`tells_runCommands`). If the processes leave whole texts only, all that it prints is the
report of its run (`IsReport`), at its end the results or what stopped it, in debug mode with the
calls that led there, and nothing escapes (`reports_runCommands`). If what comes before the
commands cannot be printed, it starts none of them (`breaks_runCommands`).
-/

namespace AppPipeline

open Files
open Text (Whole)

/-! ## Outcomes as they are seen -/

namespace CommandLine.Session

/-- Whole texts are shown as they are. -/
theorem shownOutcome_eq_self {s : Run.Settings} {o : Run.Outcome} (h : o.ending.IsWhole) :
    shownOutcome s o = o := by
  rw [shownOutcome]
  split
  · next code stdout stderr ms hread hms =>
    have hstdout : Whole (Text.stripEnd (Run.kept stdout)) :=
      (Run.whole_of_read h hread).1.kept.stripEnd
    rw [(Text.halfFault?_eq_none_iff _).2 hstdout]
  · rfl

theorem map_shownOutcome {s : Run.Settings} {os : List Run.Outcome}
    (h : ∀ o ∈ os, o.ending.IsWhole) : os.map (shownOutcome s) = os :=
  (List.map_congr_left fun o ho => shownOutcome_eq_self (h o ho)).trans (List.map_id os)

theorem isShown_shownOutcome {s : Run.Settings} (hv : s.verbose = true) (o : Run.Outcome) :
    (shownOutcome s o).IsShown s.timeout := by
  intro c r h
  rw [shownOutcome] at h
  split at h
  · next code stdout stderr ms hread hms =>
    split at h
    · rw [if_pos hv] at h
      cases h
    · next hfault =>
      rw [Run.startedResult, hread, hms] at h
      cases h
      exact (Text.halfFault?_eq_none_iff _).1 hfault
  · next hnot =>
    rw [Run.startedResult] at h
    split at h
    · cases h
    · cases h
    · next code stdout stderr ms hread hms => exact absurd hms (hnot code stdout stderr ms hread)

/-! ## What is printed -/

theorem printed_of_isPrintable {x : Session} (h : x.transcript.IsPrintable) :
    x.printed.exitCode = x.exitCode ∧ x.printed.escape = x.escape
      ∧ x.printed.transcript = x.transcript.map Printed.escaped := by
  rw [printed, Transcript.printable_eq h]
  exact ⟨rfl, rfl, rfl⟩

theorem printed_of_not_isPrintable {x : Session} (h : ¬ x.transcript.IsPrintable) :
    x.printed.exitCode = 1 ∧ x.printed.escape.isSome = true := by
  rw [← Transcript.printable_snd_eq_none_iff] at h
  rw [printed]
  split
  · exact ⟨rfl, rfl⟩
  · next before hbefore => exact absurd (by rw [hbefore]) h

theorem exitCode_printed_of_one {x : Session} (h : x.exitCode = 1) : x.printed.exitCode = 1 := by
  by_cases hp : x.transcript.IsPrintable
  · exact (printed_of_isPrintable hp).1.trans h
  · exact (printed_of_not_isPrintable hp).1

/-- The session ends with a structured error and starts no process. -/
structure Refuses (x : Session) : Prop where
  code : x.exitCode = 1
  calls : x.calls = []
  escape : x.escape = none
  printed : ∃ title message details suggestion,
    x.transcript = (Console.error title message details suggestion).map Printed.escaped

theorem refuses_printed_failed (t : FileTree) (title message : String) (details : List String)
    (suggestion : String) :
    (failed t (Console.error title message details suggestion)).printed.Refuses := by
  obtain ⟨hcode, hescape, hprinted⟩ := printed_of_isPrintable
    (x := failed t (Console.error title message details suggestion))
    (Console.isPrintable_error title message details suggestion)
  exact ⟨hcode, calls_printed _, hescape, title, message, details, suggestion, hprinted⟩

/-- The session ends with a fault that no message covers, before it starts a process. -/
structure Breaks (x : Session) : Prop where
  code : x.exitCode = 1
  calls : x.calls = []
  escape : x.escape.isSome = true

theorem breaks_printed_escaped (t : FileTree) (e : Escape) : (escaped t e).printed.Breaks :=
  ⟨rfl, rfl, rfl⟩

theorem breaks_runCommands {t : FileTree} {debug : Bool} {calls : String} {folder : Path}
    {s : Run.Settings} {commands : List Command} {outcomes : List Run.Outcome} {start : Transcript}
    (h : ¬ start.IsPrintable) :
    (runCommands t debug calls folder s commands outcomes start).printed.Breaks := by
  have hsome : start.printable.2.isSome = true := by
    rwa [Option.isSome_iff_ne_none, Ne, Transcript.printable_snd_eq_none_iff]
  rw [runCommands, if_pos hsome]
  obtain ⟨hcode, hescape⟩ := printed_of_not_isPrintable (x := failed t start) h
  exact ⟨hcode, calls_printed _, hescape⟩

/-! ## Exit codes -/

/-- The exit code tells how the run of the commands went under the outcomes. -/
structure Tells (s : Run.Settings) (commands : List Command) (os : List Run.Outcome)
    (x : Session) : Prop where
  /-- The processes are those of the commands that are not skipped, in order. -/
  called : x.calls <+: (Run.startable s commands).map Run.Call.ofCommand
  /-- Exactly the processes that the run reaches are started. -/
  reached : ∀ k, k < x.calls.length ↔ Run.Reaches s (Run.startable s commands).length os k
  /-- Zero: all of them were started and ended well. -/
  passed : x.exitCode = 0 ↔
    x.calls = (Run.startable s commands).map Run.Call.ofCommand
      ∧ ∀ k < (Run.startable s commands).length, (os.getD k {}).answer s.timeout = .ok 0
  /-- 130: the run reaches a process that the user interrupts. -/
  interrupted : x.exitCode = 130 ↔
    ∃ k, Run.Reaches s (Run.startable s commands).length os k
      ∧ (os.getD k {}).ending = .interrupted
  /-- One: the run reaches a process that stops it in another way. -/
  raised : (∃ k stop, Run.Reaches s (Run.startable s commands).length os k
      ∧ (os.getD k {}).answer s.timeout = .error stop ∧ stop ≠ .interrupted) → x.exitCode = 1
  ended : x.exitCode = 0 ∨ x.exitCode = 1 ∨ x.exitCode = 130

/-- The exit code of a run by its log. -/
def logExitCode (log : Run.Log) : Nat :=
  match log.stop with
  | some .interrupted => 130
  | some _ => 1
  | none => if Run.allPassed log.results then 0 else 1

theorem tells_of_log {s : Run.Settings} {commands : List Command} {os : List Run.Outcome}
    {x : Session} (hcalls : x.calls = (Run.run s commands os).calls)
    (hcode : x.exitCode = logExitCode (Run.run s commands os)) : x.Tells s commands os := by
  have hcalled := Run.calls_isPrefix s commands os
  have hreached := Run.lt_length_calls_iff s commands os
  have hpassed := Run.allPassed_run_iff s commands os
  have hstop := Run.run_stop_eq_some_iff s commands os
  rw [← hcalls] at hcalled hreached
  have hzero : x.exitCode = 0 ↔ (Run.run s commands os).stop = none
      ∧ Run.allPassed (Run.run s commands os).results = true := by
    rw [hcode, logExitCode]
    split <;> simp_all
  have hinterrupted : x.exitCode = 130 ↔ (Run.run s commands os).stop = some .interrupted := by
    rw [hcode, logExitCode]
    split <;> simp_all
    split <;> simp
  refine ⟨hcalled, hreached, ?_, ?_, ?_, ?_⟩
  · rw [hzero, hpassed]
    refine ⟨fun h => ⟨hcalled.eq_of_length_le ?_, h⟩, fun h => h.2⟩
    rw [List.length_map]
    by_contra hfew
    -- the run reaches the process after the last one, as all before it end well
    exact absurd ((hreached _).2 ⟨not_le.1 hfew, fun j hj =>
      ⟨0, h j (hj.trans (not_le.1 hfew)), .inl rfl⟩⟩) (Nat.lt_irrefl _)
  · rw [hinterrupted, hstop]
    simp only [Run.Outcome.answer_eq_interrupted_iff]
  · rintro ⟨k, stop, hk, hanswer, hne⟩
    rw [hcode, logExitCode, (hstop stop).2 ⟨k, hk, hanswer⟩]
    cases stop <;> first | rfl | exact absurd rfl hne
  · rw [hcode, logExitCode]
    split
    · exact .inr (.inr rfl)
    · exact .inr (.inl rfl)
    · split
      · exact .inl rfl
      · exact .inr (.inl rfl)

/-! ## Reports -/

/-- What a session that runs commands prints, and its exit code. What it starts with and the log of
the run are followed by the results, by the fault that stopped the run, or by a note that the user
did. -/
inductive IsReport (start : Transcript) (log : Run.Log) (debug : Bool) (calls : String) :
    Transcript → Nat → Prop
  | results (ended : log.stop = none) :
      IsReport start log debug calls (start ++ log.transcript ++ Console.results log.results)
        (if Run.allPassed log.results then 0 else 1)
  | failed (stop : Run.Stop) (fault : Raised) (stopped : log.stop = some stop)
      (raises : stop.raised? = some fault) :
      IsReport start log debug calls
        (start ++ log.transcript ++ Console.exception debug calls fault) 1
  | interrupted (stopped : log.stop = some .interrupted) :
      IsReport start log debug calls
        (start ++ log.transcript ++ Console.info "\nInterrupted by user") 130

/-- The session ends with a report, in which the error stream has an escape for every half. -/
def Reports (start : Transcript) (log : Run.Log) (debug : Bool) (calls : String) (x : Session) :
    Prop :=
  ∃ printed, IsReport start log debug calls printed x.exitCode
    ∧ x.transcript = printed.map Printed.escaped

variable {t : FileTree} {folder : Path} {debug : Bool} {calls : String} {start : Transcript}

theorem IsReport.code_eq {log : Run.Log} {printed : Transcript} {code : Nat}
    (h : IsReport start log debug calls printed code) : code = logExitCode log := by
  rw [logExitCode]
  cases h with
  | results ended => rw [ended]
  | failed stop fault stopped raises =>
    rw [stopped]
    cases stop <;> first | rfl | cases raises
  | interrupted stopped => rw [stopped]

/-- The report of a run that a fault stopped. -/
theorem IsReport.of_raised {log : Run.Log} {printed : Transcript} {code : Nat} {stop : Run.Stop}
    {fault : Raised} (h : IsReport start log debug calls printed code)
    (hstop : log.stop = some stop) (hfault : stop.raised? = some fault) :
    printed = start ++ log.transcript ++ Console.exception debug calls fault ∧ code = 1 := by
  cases h with
  | results ended => cases ended.symm.trans hstop
  | failed stop' fault' stopped raises =>
    obtain rfl := Option.some.inj (stopped.symm.trans hstop)
    obtain rfl := Option.some.inj (raises.symm.trans hfault)
    exact ⟨rfl, rfl⟩
  | interrupted stopped =>
    obtain rfl := Option.some.inj (stopped.symm.trans hstop)
    cases hfault

theorem isPrintable_note : Transcript.IsPrintable (Console.info "\nInterrupted by user") :=
  Console.isPrintable_line (by decide)

/-- Only results can hold what cannot be printed. -/
theorem IsReport.isPrintable {log : Run.Log} {printed : Transcript} {code : Nat}
    (h : IsReport start log debug calls printed code)
    (hbefore : (start ++ log.transcript).IsPrintable)
    (hresults : log.stop = none → (Console.results log.results).IsPrintable) :
    printed.IsPrintable := by
  cases h with
  | results ended => exact hbefore.append (hresults ended)
  | failed stop fault => exact hbefore.append (Console.isPrintable_exception debug calls fault)
  | interrupted => exact hbefore.append isPrintable_note

/-- In a folder that is there and after a start that can be printed, the commands are run. -/
theorem isReport_runCommands (debug : Bool) (calls : String) (s : Run.Settings)
    (commands : List Command) (outcomes : List Run.Outcome)
    (hfolder : t.isFolder folder.place = true) (hstart : start.IsPrintable) :
    let log := Run.run s commands (outcomes.map (shownOutcome s))
    let x := runCommands t debug calls folder s commands outcomes start
    x.calls = log.calls ∧ x.escape = none
      ∧ IsReport start log debug calls x.transcript x.exitCode := by
  intro log x
  have hx : x = runCommands t debug calls folder s commands outcomes start := rfl
  rw [runCommands, if_neg (by simp [Transcript.printable_eq hstart]), Run.runIn,
    if_pos hfolder] at hx
  dsimp only at hx
  split at hx
  · next stop hstop =>
    split at hx
    · next fault hfault =>
      rw [hx]
      exact ⟨rfl, rfl, .failed stop fault hstop hfault⟩
    · next hnone =>
      rw [hx]
      exact ⟨rfl, rfl, .interrupted (stop.raised?_eq_none_iff.1 hnone ▸ hstop)⟩
  · next hstop =>
    rw [hx]
    exact ⟨rfl, rfl, .results hstop⟩

section

variable (debug : Bool) (calls : String) (s : Run.Settings) {commands : List Command}
  (outcomes : List Run.Outcome)

theorem isPrintable_before (hstart : start.IsPrintable) (hcs : ∀ c ∈ commands, c.IsWhole) :
    (start ++ (Run.run s commands (outcomes.map (shownOutcome s))).transcript).IsPrintable :=
  hstart.append (Run.isPrintable_run hcs fun hv =>
    List.forall_mem_map.2 fun o _ => isShown_shownOutcome hv o)

/-- In a folder that is there, whole commands are run after a start that can be printed, and the
exit code tells how. -/
theorem tells_runCommands (hfolder : t.isFolder folder.place = true) (hstart : start.IsPrintable)
    (hcs : ∀ c ∈ commands, c.IsWhole) :
    (runCommands t debug calls folder s commands outcomes start).printed.Tells s commands
      (outcomes.map (shownOutcome s)) := by
  have hbefore := isPrintable_before s outcomes hstart hcs
  obtain ⟨hcalls, -, hreport⟩ := isReport_runCommands debug calls s commands outcomes hfolder
    hstart
  refine tells_of_log ((calls_printed _).trans hcalls) ?_
  rw [← hreport.code_eq]
  by_cases hone : (runCommands t debug calls folder s commands outcomes start).exitCode = 1
  · rw [exitCode_printed_of_one hone, hone]
  · refine (printed_of_isPrintable (hreport.isPrintable hbefore fun hended => ?_)).1
    rw [hreport.code_eq, logExitCode, hended] at hone
    have hpassed : Run.allPassed (Run.run s commands (outcomes.map (shownOutcome s))).results
        = true := by
      by_contra hnot
      exact hone (if_neg hnot)
    exact Run.isPrintable_results (Run.isWhole_of_mem_results _ _ hcs)
      fun r hr hfail => absurd hfail ((Run.allPassed_eq_true_iff _).1 hpassed r hr)

end

/-- If the processes leave whole texts, their outcomes are told as they are and nothing escapes. -/
theorem reports_runCommands {s : Run.Settings} {commands : List Command}
    {outcomes : List Run.Outcome} (hfolder : t.isFolder folder.place = true)
    (hstart : start.IsPrintable) (hcs : ∀ c ∈ commands, c.IsWhole)
    (hos : ∀ o ∈ outcomes, o.ending.IsWhole) :
    let x := (runCommands t debug calls folder s commands outcomes start).printed
    x.Tells s commands outcomes ∧ x.escape = none
      ∧ x.Reports start (Run.run s commands outcomes) debug calls := by
  have htells := tells_runCommands debug calls s outcomes hfolder hstart hcs
  have hbefore := isPrintable_before s outcomes hstart hcs
  obtain ⟨-, hescape, hreport⟩ := isReport_runCommands debug calls s commands outcomes hfolder
    hstart
  rw [map_shownOutcome hos] at htells hbefore hreport
  obtain ⟨hcode, hnone, hprinted⟩ := printed_of_isPrintable (hreport.isPrintable hbefore fun _ =>
    Run.isPrintable_results (Run.isWhole_of_mem_results s outcomes hcs)
      fun r hr _ => Run.whole_stderr_of_mem_results hos r hr)
  exact ⟨htells, hnone.trans hescape, _, hcode ▸ hreport, hprinted⟩

/-- Whole commands in a folder that is there are run, if what comes before them can be printed. -/
theorem ends_runCommands {s : Run.Settings} {commands : List Command} {outcomes : List Run.Outcome}
    (hfolder : t.isFolder folder.place = true) (hcs : ∀ c ∈ commands, c.IsWhole) :
    let x := (runCommands t debug calls folder s commands outcomes start).printed
    (¬ start.IsPrintable → x.Breaks) ∧
    (start.IsPrintable →
      x.Tells s commands (outcomes.map (shownOutcome s)) ∧
      ((∀ o ∈ outcomes, o.ending.IsWhole) →
        x.Tells s commands outcomes ∧ x.escape = none
          ∧ x.Reports start (Run.run s commands outcomes) debug calls)) :=
  ⟨breaks_runCommands, fun hstart => ⟨tells_runCommands debug calls s outcomes hfolder hstart hcs,
    reports_runCommands hfolder hstart hcs⟩⟩

end CommandLine.Session

end AppPipeline
