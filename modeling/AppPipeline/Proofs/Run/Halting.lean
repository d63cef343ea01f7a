import Mathlib.Data.List.Infix
import AppPipeline.Proofs.Run.Runs

/-!
# Runs that halt and runs that go on

A run that halts and a run that goes on after failures have the same course up
to the first failure, where the first one ends (`Runs.halting_eq`). So the
results of the first are those of the second through the first failure
(`throughFailure`), and the verdict of both is the same (`halting_results`).
-/

namespace AppPipeline.Run

/-! ## Through the first failure -/

/-- The results up to a failure, which is the last of them. -/
def throughFailure : List Result → List Result
  | [] => []
  | r :: rs => if r.status = .fail then [r] else r :: throughFailure rs

theorem throughFailure_isPrefix (rs : List Result) : throughFailure rs <+: rs := by
  induction rs with
  | nil => exact List.prefix_refl []
  | cons r rs ih =>
    rw [throughFailure]
    split
    · exact List.prefix_append [r] rs
    · exact (List.prefix_cons_inj r).2 ih

theorem throughFailure_eq_self {rs : List Result} (h : ∀ r ∈ rs, r.status ≠ .fail) :
    throughFailure rs = rs := by
  induction rs with
  | nil => rfl
  | cons r rs ih =>
    obtain ⟨hr, hrs⟩ := List.forall_mem_cons.1 h
    rw [throughFailure, if_neg hr, ih hrs]

/-- A failure is the last of the results up to it. -/
theorem exists_throughFailure_eq {rs : List Result} (h : ∃ r ∈ rs, r.status = .fail) :
    ∃ before last, throughFailure rs = before ++ [last] ∧ last.status = .fail := by
  induction rs with
  | nil =>
    obtain ⟨r, hr, _⟩ := h
    cases hr
  | cons r rs ih =>
    rw [throughFailure]
    split
    · next hr => exact ⟨[], r, rfl, hr⟩
    · next hr =>
      rw [List.exists_mem_cons_iff] at h
      obtain ⟨before, last, he, hlast⟩ := ih (h.resolve_left hr)
      exact ⟨r :: before, last, by rw [he, List.cons_append], hlast⟩

/-- No shorter part from the front holds a failure. -/
theorem throughFailure_isPrefix_of_isPrefix {rs part : List Result} (hpart : part <+: rs)
    (h : ∃ r ∈ part, r.status = .fail) : throughFailure rs <+: part := by
  induction rs generalizing part with
  | nil =>
    rw [throughFailure]
    exact List.nil_prefix
  | cons r rs ih =>
    cases part with
    | nil =>
      obtain ⟨r', hr', _⟩ := h
      cases hr'
    | cons q part =>
      obtain ⟨rfl, htail⟩ := List.cons_prefix_cons.1 hpart
      rw [throughFailure]
      split
      · exact List.prefix_append [q] part
      · next hr =>
        rw [List.exists_mem_cons_iff] at h
        exact (List.prefix_cons_inj q).2 (ih htail (h.resolve_left hr))

theorem count_fail_throughFailure_le (rs : List Result) :
    count .fail (throughFailure rs) ≤ 1 := by
  induction rs with
  | nil => exact Nat.zero_le 1
  | cons r rs ih =>
    rw [throughFailure]
    split
    · next hr => simp [count, hr]
    · next hr =>
      rw [count, List.filter_cons_of_neg (by simpa using hr)]
      exact ih

theorem allPassed_eq_true_iff (rs : List Result) :
    allPassed rs = true ↔ ∀ r ∈ rs, r.status ≠ .fail := by
  have hone : ∀ r : Result, (r.skipped || r.passed) = true ↔ r.status ≠ .fail := by
    intro r
    cases hs : r.skipped <;> by_cases he : r.exitCode = some 0 <;>
      simp [Result.passed, Result.status, hs, he]
  rw [allPassed, List.all_eq_true]
  exact forall₂_congr fun r _ => hone r

theorem allPassed_throughFailure (rs : List Result) :
    allPassed (throughFailure rs) = allPassed rs := by
  rw [Bool.eq_iff_iff, allPassed_eq_true_iff, allPassed_eq_true_iff]
  constructor
  · intro h
    by_contra hfail
    push Not at hfail
    obtain ⟨before, last, he, hlast⟩ := exists_throughFailure_eq hfail
    rw [he] at h
    exact h last (List.mem_append_right _ List.mem_cons_self) hlast
  · exact fun h r hr => h r ((throughFailure_isPrefix rs).subset hr)

/-! ## Two courses -/

/-- Both courses take the same steps up to a failure, at which the first one halts. -/
theorem Runs.halting_eq {s : Settings} {cs : List Command} {os : List Outcome}
    {halting full : List Result} {calls calls' : List Call}
    (h : Runs { s with continueOnError := false } cs os halting calls)
    (hfull : Runs { s with continueOnError := true } cs os full calls') :
    halting = throughFailure full := by
  induction hfull generalizing halting calls with
  | done =>
    cases h
    rfl
  | skip hc rest ih =>
    cases h with
    | skip hc' rest' =>
      cases hc.symm.trans hc'
      rw [throughFailure, status_skipped, if_neg (by decide), ih rest']
    | halt hc' => cases hc.symm.trans hc'
    | next hc' => cases hc.symm.trans hc'
  | halt hc hr failed on => cases on
  | @next c _ _ _ _ r hc hr on rest ih =>
    cases h with
    | skip hc' => cases hc.symm.trans hc'
    | halt hc' hr' failed =>
      cases hr.symm.trans hr'
      rw [throughFailure, if_pos ((status_started hr).2 failed)]
    | next hc' hr' passed rest' =>
      cases hr.symm.trans hr'
      have hpassed := passed.resolve_right Bool.false_ne_true
      have hstatus : r.status ≠ .fail := by
        rw [Ne, status_started hr, hpassed]
        decide
      rw [throughFailure, if_neg hstatus, ih rest']

/-- The run that halts reports what the other one reports through its first failure. -/
theorem halting_results {s : Settings} (hs : s.timeout.isSome = true) (cs : List Command)
    {os : List Outcome} (ho : ∀ o ∈ os, o.IsRegular) :
    let halting := (run { s with continueOnError := false } cs os).results
    let full := (run { s with continueOnError := true } cs os).results
    halting <+: full
      ∧ ((∀ r ∈ full, r.status ≠ .fail) → halting = full)
      ∧ ((∃ r ∈ full, r.status = .fail) →
          (∃ before last, halting = before ++ [last] ∧ last.status = .fail)
          ∧ ∀ part, part <+: full → (∃ r ∈ part, r.status = .fail) → halting <+: part)
      ∧ allPassed halting = allPassed full
      ∧ count .fail halting ≤ 1 := by
  intro halting full
  have he : halting = throughFailure full :=
    (run_runs (s := { s with continueOnError := false }) hs cs ho).2.halting_eq
      (run_runs (s := { s with continueOnError := true }) hs cs ho).2
  rw [he]
  exact ⟨throughFailure_isPrefix full, throughFailure_eq_self,
    fun hfail => ⟨exists_throughFailure_eq hfail,
      fun _ hpart hp => throughFailure_isPrefix_of_isPrefix hpart hp⟩,
    allPassed_throughFailure full, count_fail_throughFailure_le full⟩

/-- Two failures with a skipped command between them. -/
theorem halting_results_skip :
    let cs : List Command :=
      [⟨"Lint", "yarn lint", "lint", false⟩, ⟨"Build", "eas build", "build", false⟩,
       ⟨"Jest", "yarn jest", "jest", false⟩]
    let os : List Outcome :=
      [{ ending := .finished 1 "" "" }, { ending := .timedOut .absent .absent }]
    let halting := (run { continueOnError := false } cs os).results
    let full := (run { continueOnError := true } cs os).results
    (∀ o ∈ os, o.IsRegular) ∧ halting <+: full ∧ halting.length = 1 ∧ full.length = 3
      ∧ allPassed halting = allPassed full ∧ count .fail halting ≤ 1 := by
  intro cs os halting full
  have ho : ∀ o ∈ os, o.IsRegular := by
    intro o h
    rcases List.mem_pair.1 h with rfl | rfl <;> exact ⟨rfl, rfl⟩
  obtain ⟨hpre, _, _, hverdict, hcount⟩ := halting_results (s := {}) rfl cs ho
  exact ⟨ho, hpre, by decide, by decide, hverdict, hcount⟩

end AppPipeline.Run
