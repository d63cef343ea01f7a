import AppPipeline.Number.Decimal
import AppPipeline.Proofs.Command.Printing
import AppPipeline.Proofs.Run.Verdict

/-!
# Runs can be printed

What a run prints on its way are names and texts of its commands and, if it is verbose, what
the processes printed (`isPrintable_run`). Its results are printed to their end if the error
texts of the failures among them are whole (`isPrintable_results`), which they are if the texts
that the processes leave are (`whole_stderr_of_mem_results`).
-/

namespace AppPipeline

open Text (Whole)

/-! ## Processes -/

theorem Text.Whole.kept {s : String} (h : Whole s) : Whole (Run.kept s) :=
  whole_ofCodes fun n hn => (forall_codes_iff _).2 h n (List.mem_of_mem_drop hn)

namespace Run

/-- The texts that the process leaves are whole, as all that bytes are read as are
(`Text.whole_ofCodes_decodeLossy`). -/
def Ending.IsWhole : Ending → Prop
  | .finished _ stdout stderr => Whole stdout ∧ Whole stderr
  | .timedOut stdout stderr => Whole stdout.toText ∧ Whole stderr.toText
  | .raised _ => True
  | .interrupted => True

theorem whole_of_read {timeout : Option Double} {e : Ending} (h : e.IsWhole) {code : Int}
    {stdout stderr : String} (hread : e.read timeout = .ok (code, stdout, stderr)) :
    Whole stdout ∧ Whole stderr := by
  cases e with
  | finished code' stdout' stderr' =>
    cases hread
    exact h
  | timedOut stdout' stderr' =>
    cases timeout with
    | none => cases hread
    | some limit =>
      cases hread
      exact ⟨h.1, h.2.append
        (.append (.append (by decide) (Text.whole_generalText limit)) (by decide))⟩
  | raised message => cases hread
  | interrupted => cases hread

/-- What the process printed can be shown. -/
def Outcome.IsShown (timeout : Option Double) (o : Outcome) : Prop :=
  ∀ {c : Command} {r : Result}, startedResult timeout c o = .ok r → Whole (Text.stripEnd r.stdout)

theorem isShown_default (timeout : Option Double) : ({} : Outcome).IsShown timeout := by
  intro c r h
  cases h
  show Whole (Text.stripEnd (kept ""))
  decide

theorem isShown_headD {timeout : Option Double} {os : List Outcome}
    (h : ∀ o ∈ os, o.IsShown timeout) : (os.headD {}).IsShown timeout := by
  cases os with
  | nil => exact isShown_default timeout
  | cons o os => exact h o List.mem_cons_self

/-! ## What is printed on the way -/

theorem SkipReason.whole_text (reason : SkipReason) : Whole reason.text := by
  cases reason <;> decide

theorem isPrintable_stepLine {name : String} (h : Whole name) :
    (Console.stepLine name).IsPrintable :=
  Console.isPrintable_out (.append (by decide) h)

theorem isPrintable_commandSkipped {name reason : String} (hname : Whole name)
    (hreason : Whole reason) : (Console.commandSkipped name reason).IsPrintable :=
  List.forall_mem_cons.2 ⟨isPrintable_stepLine hname, Console.isPrintable_line
    (.append (.append (by decide) hreason) (by decide))⟩

theorem isPrintable_commandStart {name text : String} (hname : Whole name) (htext : Whole text)
    (verbose : Bool) : (Console.commandStart name text verbose).IsPrintable := by
  refine List.forall_mem_cons.2 ⟨isPrintable_stepLine hname, ?_⟩
  cases verbose
  · exact List.forall_mem_nil _
  · exact List.forall_mem_map.2 fun l hl => Console.isPrintable_out
      (.append (by decide) (htext.strip.of_mem_lines hl))

theorem isPrintable_commandOutput {stdout : String} (h : Whole (Text.stripEnd stdout))
    (stderr : String) : (Console.commandOutput stdout stderr).IsPrintable := by
  refine Transcript.IsPrintable.append ?_ ?_
  · split
    · exact Console.isPrintable_line h
    · exact List.forall_mem_nil _
  · split
    · exact List.forall_mem_singleton.2 (Console.isPrintable_err _)
    · exact List.forall_mem_nil _

theorem isPrintable_run {s : Settings} {cs : List Command} {os : List Outcome}
    (hcs : ∀ c ∈ cs, c.IsWhole) (hos : s.verbose = true → ∀ o ∈ os, o.IsShown s.timeout) :
    (run s cs os).transcript.IsPrintable := by
  induction cs generalizing os with
  | nil => exact List.forall_mem_nil _
  | cons c cs ih =>
    obtain ⟨⟨hname, htext, -⟩, hrest⟩ := List.forall_mem_cons.1 hcs
    cases hc : skipReason? s.skipBuild c with
    | some reason =>
      rw [run_cons_of_some hc]
      exact (isPrintable_commandSkipped hname reason.whole_text).append (ih hrest hos)
    | none =>
      have hstart := isPrintable_commandStart hname htext s.verbose
      cases hr : startedResult s.timeout c (os.headD {}) with
      | error stop =>
        rw [run_cons_of_error hc hr]
        exact hstart
      | ok r =>
        obtain ⟨rest, printed, hrun, hprinted, hcases⟩ := run_cons_of_ok cs hc hr
        have houtput : Transcript.IsPrintable printed := by
          rw [hprinted]
          split
          · next hv => exact isPrintable_commandOutput (isShown_headD (hos hv) hr) r.stderr
          · exact List.forall_mem_nil _
        rw [hrun]
        refine (hstart.append houtput).append ?_
        rcases hcases with ⟨-, rfl⟩ | ⟨-, -, rfl⟩
        · exact ih hrest fun hv o ho => hos hv o (List.mem_of_mem_tail ho)
        · exact List.forall_mem_nil _

/-! ## Results -/

/-- All that is printed of the result is whole, if it is no failure. -/
structure Result.IsWhole (r : Result) : Prop where
  stepName : Whole r.stepName
  category : Whole r.category
  skipReason : ∀ t ∈ r.skipReason, Whole t

/-- Every result of a run is that of a skipped command or of a process with its outcome. -/
theorem forall_mem_results {P : Result → Prop} {s : Settings} {cs : List Command}
    {os : List Outcome} (hskipped : ∀ c ∈ cs, ∀ reason, P (skippedResult c reason))
    (hstarted : ∀ c ∈ cs, ∀ o ∈ {} :: os, ∀ r, startedResult s.timeout c o = .ok r → P r) :
    ∀ r ∈ (run s cs os).results, P r := by
  induction cs generalizing os with
  | nil => exact List.forall_mem_nil _
  | cons c cs ih =>
    obtain ⟨hskip, hskips⟩ := List.forall_mem_cons.1 hskipped
    obtain ⟨hstart, hstarts⟩ := List.forall_mem_cons.1 hstarted
    cases hc : skipReason? s.skipBuild c with
    | some reason =>
      rw [run_cons_of_some hc]
      exact List.forall_mem_cons.2 ⟨hskip reason, ih hskips hstarts⟩
    | none =>
      cases hr : startedResult s.timeout c (os.headD {}) with
      | error stop =>
        rw [run_cons_of_error hc hr]
        exact List.forall_mem_nil _
      | ok r =>
        obtain ⟨rest, printed, hrun, -, hcases⟩ := run_cons_of_ok cs hc hr
        have hhead : os.headD {} ∈ {} :: os := by
          cases os with
          | nil => exact List.mem_singleton_self _
          | cons o os => exact List.mem_cons_of_mem _ List.mem_cons_self
        have htail : {} :: os.tail ⊆ {} :: os := List.cons_subset_cons _ (List.tail_subset os)
        rw [hrun]
        refine List.forall_mem_cons.2 ⟨hstart _ hhead r hr, ?_⟩
        rcases hcases with ⟨-, rfl⟩ | ⟨-, -, rfl⟩
        · exact ih hskips fun c hc o ho => hstarts c hc o (htail ho)
        · exact List.forall_mem_nil _

theorem isWhole_of_mem_results (s : Settings) {cs : List Command} (os : List Outcome)
    (hcs : ∀ c ∈ cs, c.IsWhole) : ∀ r ∈ (run s cs os).results, r.IsWhole := by
  refine forall_mem_results (fun c hc reason => ?_) fun c hc o _ r hr => ?_
  · refine ⟨(hcs c hc).stepName, (hcs c hc).category, ?_⟩
    rintro t ⟨⟩
    exact reason.whole_text
  · rw [startedResult] at hr
    split at hr
    · cases hr
    · cases hr
    · cases hr
      exact ⟨(hcs c hc).stepName, (hcs c hc).category, by simp⟩

/-- Processes with whole texts leave results with whole error texts. -/
theorem whole_stderr_of_mem_results {s : Settings} {cs : List Command} {os : List Outcome}
    (hos : ∀ o ∈ os, o.ending.IsWhole) : ∀ r ∈ (run s cs os).results, Whole r.stderr := by
  have hall : ∀ o ∈ {} :: os, o.ending.IsWhole :=
    List.forall_mem_cons.2 ⟨⟨by decide, by decide⟩, hos⟩
  refine forall_mem_results (fun c _ reason => (by decide : Whole "")) fun c _ o ho r hr => ?_
  rw [startedResult] at hr
  split at hr
  · cases hr
  · cases hr
  · next hread _ =>
    cases hr
    exact (whole_of_read (hall o ho) hread).2.kept

theorem isPrintable_resultDetails {r : Result} (h : r.IsWhole)
    (hfail : r.status = .fail → Whole r.stderr) : (Console.resultDetails r).IsPrintable := by
  have hdetail {t : String} (ht : Whole t) : (Console.detail t).IsPrintable :=
    Console.isPrintable_out (.append (by decide) ht)
  rw [Console.resultDetails]
  split
  · split
    · exact List.forall_mem_nil _
    · refine List.forall_mem_singleton.2 (hdetail ?_)
      cases hreason : r.skipReason with
      | none => decide
      | some reason => exact h.skipReason reason hreason
  · next hstatus =>
    refine List.forall_mem_cons.2 ⟨hdetail ?_, List.forall_mem_map.2 fun l hl => hdetail
      ((hfail hstatus).strip.of_mem_lines (List.mem_of_mem_take hl))⟩
    refine Whole.append (by decide) ?_
    cases r.exitCode with
    | none => decide
    | some n => exact Text.whole_toString_int n
  · exact List.forall_mem_nil _

theorem whole_resultLine {r : Result} (h : r.IsWhole) : Whole (Console.resultLine r) := by
  have hstatus : Whole r.status.name := by
    cases r.status <;> decide
  refine .append (.append (.append (.append (.append (.append (by decide) hstatus) (by decide))
    h.category) (by decide)) h.stepName) ?_
  split
  · decide
  · exact .append (.append (by decide) (Text.whole_toString_int _)) (by decide)

theorem whole_summaryLine (s : Summary) : Whole (Console.summaryLine s) :=
  have hcount (n : Nat) : Whole (toString n) := Text.whole_toString_nat n
  .append (.append (.append (.append (.append (.append (by decide) (hcount _)) (by decide))
    (hcount _)) (by decide)) (hcount _)) (by decide)

theorem isPrintable_results {rs : List Result} (h : ∀ r ∈ rs, r.IsWhole)
    (hfail : ∀ r ∈ rs, r.status = .fail → Whole r.stderr) : (Console.results rs).IsPrintable := by
  have hrule {c : Char} (hc : Text.isHalf c = false) :
      (Console.out (Console.rule c 40)).IsPrintable :=
    Console.isPrintable_out (Console.whole_rule hc 40)
  refine Transcript.IsPrintable.append (.append ?_ ?_) ?_
  · exact List.forall_mem_cons.2 ⟨Console.isPrintable_out
      (.append (by decide) (Console.whole_rule (by decide) 40)),
      List.forall_mem_cons.2 ⟨Console.isPrintable_out (by decide),
        List.forall_mem_singleton.2 (hrule (by decide))⟩⟩
  · refine List.forall_mem_flatMap.2 fun r hr => List.forall_mem_cons.2
      ⟨Console.isPrintable_out (whole_resultLine (h r hr)),
        isPrintable_resultDetails (h r hr) (hfail r hr)⟩
  · exact List.forall_mem_cons.2 ⟨hrule (by decide),
      Console.isPrintable_line (whole_summaryLine _)⟩

end Run

end AppPipeline
