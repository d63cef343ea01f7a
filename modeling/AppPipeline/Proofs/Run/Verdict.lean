import AppPipeline.Proofs.Run.Halting

/-!
# Which processes a run reaches

A run reaches a process if all before it were waited for and passed, or failures are passed
over (`Reaches`). Exactly the processes that it reaches are started (`lt_length_calls_iff`).
What stops a run is the answer of a process that it reaches (`run_stop_eq_some_iff`), and the
verdict is good exactly when every process ends well (`allPassed_run_iff`).
-/

namespace AppPipeline.Run

/-! ## Answers of processes -/

/-- The exit code that a process left, or what stops the run at it. -/
def Outcome.answer (timeout : Option Double) (o : Outcome) : Except Stop Int :=
  match o.ending.read timeout, o.milliseconds with
  | .error stop, _ => .error stop
  | .ok _, .error fault => .error (.unmeasured fault)
  | .ok (code, _, _), .ok _ => .ok code

theorem Outcome.answer_eq_interrupted_iff (timeout : Option Double) (o : Outcome) :
    o.answer timeout = .error .interrupted ↔ o.ending = .interrupted := by
  rw [answer]
  cases he : o.ending with
  | finished code stdout stderr => cases o.milliseconds <;> simp [Ending.read]
  | timedOut stdout stderr => cases timeout <;> cases o.milliseconds <;> simp [Ending.read]
  | raised message => simp [Ending.read]
  | interrupted => simp [Ending.read]

theorem answer_of_error {timeout : Option Double} {c : Command} {o : Outcome} {stop : Stop}
    (h : startedResult timeout c o = .error stop) : o.answer timeout = .error stop := by
  rw [startedResult] at h
  split at h
  · next hread => rw [Outcome.answer, hread, Except.error.inj h]
  · next hread hms =>
    cases h
    rw [Outcome.answer, hread, hms]
  · cases h

theorem answer_of_ok {timeout : Option Double} {c : Command} {o : Outcome} {r : Result}
    (h : startedResult timeout c o = .ok r) :
    ∃ code, o.answer timeout = .ok code ∧ r.exitCode = some code
      ∧ (r.passed = true ↔ code = 0) := by
  rw [startedResult] at h
  split at h
  · cases h
  · cases h
  · next code stdout stderr ms hread hms =>
    cases h
    rw [Outcome.answer, hread, hms]
    exact ⟨code, rfl, rfl, by simp [Result.passed]⟩

/-! ## Processes that a run reaches -/

variable {s : Settings} {c : Command} {cs : List Command} {os : List Outcome}

/-- The run goes on after the process. -/
def GoesOn (s : Settings) (o : Outcome) : Prop :=
  ∃ code, o.answer s.timeout = .ok code ∧ (code = 0 ∨ s.continueOnError = true)

theorem goesOn_iff {o : Outcome} {code : Int} (h : o.answer s.timeout = .ok code) :
    GoesOn s o ↔ code = 0 ∨ s.continueOnError = true := by
  rw [GoesOn, h]
  exact ⟨fun ⟨_, he, hon⟩ => Except.ok.inj he ▸ hon, fun hon => ⟨code, rfl, hon⟩⟩

theorem not_goesOn_of_error {o : Outcome} {stop : Stop} (h : o.answer s.timeout = .error stop) :
    ¬ GoesOn s o := by
  rintro ⟨code, hcode, _⟩
  cases h.symm.trans hcode

/-- Of `n` processes the run reaches that with the number `k`. -/
def Reaches (s : Settings) (n : Nat) (os : List Outcome) (k : Nat) : Prop :=
  k < n ∧ ∀ j < k, GoesOn s (os.getD j {})

theorem getD_zero_eq_headD : os.getD 0 {} = os.headD {} := by cases os <;> rfl

theorem getD_succ_eq_tail (k : Nat) : os.getD (k + 1) {} = os.tail.getD k {} := by
  cases os <;> rfl

theorem not_reaches_zero (k : Nat) : ¬ Reaches s 0 os k := fun h => absurd h.1 k.not_lt_zero

theorem reaches_first (n : Nat) : Reaches s (n + 1) os 0 := ⟨n.succ_pos, nofun⟩

theorem reaches_succ_iff (n k : Nat) :
    Reaches s (n + 1) os (k + 1) ↔ GoesOn s (os.headD {}) ∧ Reaches s n os.tail k := by
  rw [Reaches, Reaches, Nat.forall_lt_succ_left, getD_zero_eq_headD, Nat.add_lt_add_iff_right]
  simp only [getD_succ_eq_tail]
  exact and_left_comm

/-- The first process is reached, a later one if the run goes on after the first. -/
theorem exists_reaches_succ_iff (n : Nat) (P : Outcome → Prop) :
    (∃ k, Reaches s (n + 1) os k ∧ P (os.getD k {}))
      ↔ P (os.headD {}) ∨ GoesOn s (os.headD {})
        ∧ ∃ k, Reaches s n os.tail k ∧ P (os.tail.getD k {}) := by
  rw [← Nat.or_exists_add_one]
  simp only [getD_zero_eq_headD, getD_succ_eq_tail, reaches_succ_iff, and_assoc, exists_and_left,
    and_iff_right (reaches_first n)]

/-- The commands that are not skipped. -/
def startable (s : Settings) (cs : List Command) : List Command :=
  cs.filter fun c => !c.isSkipped s.skipBuild

theorem startable_cons_of_some {reason : SkipReason}
    (h : skipReason? s.skipBuild c = some reason) : startable s (c :: cs) = startable s cs := by
  have hskipped : c.isSkipped s.skipBuild = true := (carries_skipped h).skipped.symm
  rw [startable, List.filter_cons_of_neg (by simp [hskipped]), startable]

theorem startable_cons_of_none (h : skipReason? s.skipBuild c = none) :
    startable s (c :: cs) = c :: startable s cs := by
  rw [startable, List.filter_cons_of_pos (by simp [skipReason?_eq_none_iff.1 h]), startable]

/-! ## Steps of a run -/

theorem run_cons_of_some {reason : SkipReason} (h : skipReason? s.skipBuild c = some reason) :
    run s (c :: cs) os = (run s cs os).after (skippedResult c reason) []
      (Console.commandSkipped c.stepName reason.text) := by
  rw [run, h]

theorem run_cons_of_error {stop : Stop} (hc : skipReason? s.skipBuild c = none)
    (h : startedResult s.timeout c (os.headD {}) = .error stop) :
    run s (c :: cs) os = { calls := [Call.ofCommand c]
                           transcript := Console.commandStart c.stepName c.text s.verbose
                           stop := some stop } := by
  rw [run, hc]
  simp only [h]

/-- After a process that was waited for, the run goes on or ends. -/
theorem run_cons_of_ok (cs : List Command) {r : Result} (hc : skipReason? s.skipBuild c = none)
    (h : startedResult s.timeout c (os.headD {}) = .ok r) :
    ∃ rest printed,
      run s (c :: cs) os = rest.after r [Call.ofCommand c]
        (Console.commandStart c.stepName c.text s.verbose ++ printed) ∧
      printed = (if s.verbose then Console.commandOutput r.stdout r.stderr else []) ∧
      ((GoesOn s (os.headD {}) ∧ rest = run s cs os.tail)
        ∨ (¬ GoesOn s (os.headD {}) ∧ r.passed = false ∧ rest = {})) := by
  obtain ⟨code, hanswer, _, hpassed⟩ := answer_of_ok h
  have hon : GoesOn s (os.headD {}) ↔ (r.passed || s.continueOnError) = true := by
    rw [goesOn_iff hanswer, Bool.or_eq_true, hpassed]
  refine ⟨_, _, by rw [run, hc]; simp only [h]; rfl, rfl, ?_⟩
  cases hgo : r.passed || s.continueOnError with
  | true => exact .inl ⟨hon.2 hgo, if_pos rfl⟩
  | false =>
    refine .inr ⟨fun h => ?_, (Bool.or_eq_false_iff.1 hgo).1, if_neg Bool.false_ne_true⟩
    rw [hon, hgo] at h
    cases h

/-! ## Whole runs -/

/-- Exactly the processes that a run reaches are started. -/
theorem lt_length_calls_iff (s : Settings) (cs : List Command) (os : List Outcome) (k : Nat) :
    k < (run s cs os).calls.length ↔ Reaches s (startable s cs).length os k := by
  induction cs generalizing os k with
  | nil => exact iff_of_false k.not_lt_zero (not_reaches_zero k)
  | cons c cs ih =>
    cases hc : skipReason? s.skipBuild c with
    | some reason =>
      rw [run_cons_of_some hc, startable_cons_of_some hc]
      exact ih os k
    | none =>
      rw [startable_cons_of_none hc, List.length_cons]
      cases k with
      | zero =>
        refine iff_of_true ?_ (reaches_first _)
        cases hr : startedResult s.timeout c (os.headD {}) with
        | error stop =>
          rw [run_cons_of_error hc hr]
          exact Nat.zero_lt_one
        | ok r =>
          obtain ⟨rest, printed, hrun, -, -⟩ := run_cons_of_ok cs hc hr
          rw [hrun]
          exact Nat.succ_pos _
      | succ k =>
        rw [reaches_succ_iff, ← ih]
        cases hr : startedResult s.timeout c (os.headD {}) with
        | error stop =>
          rw [run_cons_of_error hc hr]
          refine iff_of_false (by simp) fun h => ?_
          obtain ⟨code, hcode, _⟩ := h.1
          cases (answer_of_error hr).symm.trans hcode
        | ok r =>
          obtain ⟨rest, printed, hrun, -, hrest⟩ := run_cons_of_ok cs hc hr
          rw [hrun]
          show k + 1 < rest.calls.length + 1 ↔ _
          rw [Nat.add_lt_add_iff_right]
          rcases hrest with ⟨hon, rfl⟩ | ⟨hon, -, rfl⟩
          · exact (and_iff_right hon).symm
          · exact iff_of_false k.not_lt_zero fun h => hon h.1

/-- What stops a run is the answer of a process that it reaches. -/
theorem run_stop_eq_some_iff (s : Settings) (cs : List Command) (os : List Outcome) (stop : Stop) :
    (run s cs os).stop = some stop ↔
      ∃ k, Reaches s (startable s cs).length os k
        ∧ (os.getD k {}).answer s.timeout = .error stop := by
  induction cs generalizing os with
  | nil => exact iff_of_false nofun fun ⟨k, hk, _⟩ => not_reaches_zero k hk
  | cons c cs ih =>
    cases hc : skipReason? s.skipBuild c with
    | some reason =>
      rw [run_cons_of_some hc, startable_cons_of_some hc]
      exact ih os
    | none =>
      rw [startable_cons_of_none hc, List.length_cons]
      rw [exists_reaches_succ_iff _ fun o => o.answer s.timeout = .error stop, ← ih]
      cases hr : startedResult s.timeout c (os.headD {}) with
      | error first =>
        have hanswer := answer_of_error hr
        rw [run_cons_of_error hc hr, hanswer]
        show some first = some stop ↔ _
        rw [or_iff_left fun h => not_goesOn_of_error hanswer h.1, Option.some.injEq,
          Except.error.injEq]
      | ok r =>
        obtain ⟨code, hanswer, -⟩ := answer_of_ok hr
        obtain ⟨rest, printed, hrun, -, hrest⟩ := run_cons_of_ok cs hc hr
        rw [hrun, hanswer]
        show rest.stop = some stop ↔ _
        rcases hrest with ⟨hon, rfl⟩ | ⟨hon, -, rfl⟩
        · rw [and_iff_right hon, or_iff_right nofun]
        · exact iff_of_false nofun fun h => hon (h.resolve_left nofun).1

/-- Nothing stops the run and nothing fails exactly when every process ends well. -/
theorem allPassed_run_iff (s : Settings) (cs : List Command) (os : List Outcome) :
    ((run s cs os).stop = none ∧ allPassed (run s cs os).results = true) ↔
      ∀ k < (startable s cs).length, (os.getD k {}).answer s.timeout = .ok 0 := by
  induction cs generalizing os with
  | nil => exact iff_of_true ⟨rfl, rfl⟩ nofun
  | cons c cs ih =>
    cases hc : skipReason? s.skipBuild c with
    | some reason =>
      rw [run_cons_of_some hc, startable_cons_of_some hc]
      exact ih os
    | none =>
      rw [startable_cons_of_none hc, List.length_cons, Nat.forall_lt_succ_left,
        getD_zero_eq_headD]
      simp only [getD_succ_eq_tail]
      rw [← ih]
      cases hr : startedResult s.timeout c (os.headD {}) with
      | error stop =>
        rw [run_cons_of_error hc hr, answer_of_error hr]
        exact iff_of_false nofun nofun
      | ok r =>
        obtain ⟨code, hanswer, -, hpassed⟩ := answer_of_ok hr
        obtain ⟨rest, printed, hrun, -, hrest⟩ := run_cons_of_ok cs hc hr
        have hskipped : r.skipped = false := (startedResult_eq hr).2.2.2.1
        rw [hrun, hanswer]
        show rest.stop = none ∧ ((r.skipped || r.passed) && allPassed rest.results) = true ↔ _
        rw [hskipped, Bool.false_or, Bool.and_eq_true, hpassed, Except.ok.injEq, and_left_comm]
        refine and_congr_right fun hcode => ?_
        rcases hrest with ⟨-, rfl⟩ | ⟨hon, -⟩
        · rfl
        · exact absurd ((goesOn_iff hanswer).2 (.inl hcode)) hon

end AppPipeline.Run
