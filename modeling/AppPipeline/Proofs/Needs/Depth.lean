import Mathlib.Order.Bounds.Basic
import AppPipeline.Proofs.Needs.Cycles

/-!
# Levels by depth

`Chain relation a n` says that needs can be followed `n` times from the job `a`; the
depth of a job is the length of its longest chain.

* `within_iff_chain_lt`: a job stands within `n` levels if its chains are shorter than `n`;
* `exists_level_of_within`: every job that can become free is in a level;
* `levelsOf_by_depth`: a closed relation between texts has levels exactly if it has no
  cycle; then every job stands in the level of its depth, and otherwise the jobs from
  which a cycle can be reached are reported in order.
-/

namespace AppPipeline.Needs

open Relation

variable {α : Type}

/-! ## Chains -/

/-- From the job, needs can be followed so many times. -/
inductive Chain (relation : List (α × List α)) : α → Nat → Prop
  | start (a : α) : Chain relation a 0
  | need {a b : α} {n : Nat} (hab : Needing relation a b) (hb : Chain relation b n) :
    Chain relation a (n + 1)

/-- Every job is in one level, whose place is the length of its longest chain; so what it needs
is in levels before, and no job of a level depends on another of it. -/
structure IsLeveling (relation : List (α × List α)) (levels : List (List α)) : Prop where
  perm : levels.flatten.Perm (relation.map Prod.fst)
  depth : ∀ {i : Nat} {level : List α}, levels[i]? = some level → ∀ a ∈ level,
    IsGreatest {n | Chain relation a n} i
  earlier : ∀ {i : Nat} {level : List α}, levels[i]? = some level →
    ∀ a ∈ level, ∀ b, Needing relation a b →
    ∃ j < i, ∃ before, levels[j]? = some before ∧ b ∈ before
  independent : ∀ level ∈ levels, ∀ a ∈ level, ∀ b ∈ level, ¬ TransGen (Needing relation) a b

/-- A cycle of needs can be reached from the job. -/
def ReachesCycle (relation : List (α × List α)) (a : α) : Prop :=
  ∃ b, ReflTransGen (Needing relation) a b ∧ TransGen (Needing relation) b b

theorem mem_jobs_of_transGen {relation : List (α × List α)} {a b : α}
    (h : TransGen (Needing relation) a b) : a ∈ relation.map Prod.fst := by
  obtain ⟨c, ⟨needs, hmem, _⟩, _⟩ := TransGen.head'_iff.1 h
  exact List.mem_map_of_mem (f := Prod.fst) hmem

theorem ReachesCycle.mem_jobs {relation : List (α × List α)} {a : α}
    (h : ReachesCycle relation a) : a ∈ relation.map Prod.fst := by
  obtain ⟨b, hab, hcycle⟩ := h
  exact mem_jobs_of_transGen (hcycle.trans_right hab)

namespace Graph

variable [DecidableEq α] {g : Graph α} {relation : List (α × List α)}

theorem within_iff_chain_lt (h : g.Coherent)
    (hneeds : ∀ j d, j ∈ g.childrenOf d ↔ Needing relation j d) (n : Nat) (a : α) :
    g.within n a = true ↔ ∀ k, Chain relation a k → k < n := by
  induction n generalizing a with
  | zero =>
    constructor
    · intro hzero
      cases hzero
    · intro hall
      exact absurd (hall 0 (.start a)) (Nat.lt_irrefl 0)
  | succ n ih =>
    rw [within_succ_iff h]
    constructor
    · intro hall k hk
      cases hk with
      | start => exact Nat.succ_pos n
      | need hab hb =>
        have hlt := (ih _).1 (hall _ ((hneeds _ _).2 hab)) _ hb
        omega
    · intro hall b hb
      refine (ih b).2 fun k hk => ?_
      have hlt := hall (k + 1) (.need ((hneeds _ _).1 hb) hk)
      omega

/-- The place of the level is the depth of its jobs. -/
theorem IsLevel.isGreatest (h : g.Coherent)
    (hneeds : ∀ j d, j ∈ g.childrenOf d ↔ Needing relation j d) {i : Nat} {level : List α}
    (hlevel : g.IsLevel i level) {a : α} (ha : a ∈ level) :
    IsGreatest {n | Chain relation a n} i := by
  obtain ⟨_, hnext, hnow⟩ := (hlevel.mem a).1 ha
  have hbound := (within_iff_chain_lt h hneeds (i + 1) a).1 hnext
  rw [← Bool.not_eq_true, within_iff_chain_lt h hneeds] at hnow
  push Not at hnow
  obtain ⟨k, hk, hik⟩ := hnow
  have hki := hbound k hk
  obtain rfl : k = i := by omega
  exact ⟨hk, fun m hm => Nat.lt_succ_iff.1 (hbound m hm)⟩

/-! ## No level is missing -/

/-- A job that a later level must hold is found in it. -/
theorem exists_levelsFrom_of_within (h : g.Coherent) (le : α → α → Bool) (left : Nat) {n : Nat}
    {level : List α} {pending : List (α × Nat)} (hr : g.Reached n level pending)
    (hleft : g.jobs.length ≤ left + g.jobs.countP (g.within n)) {k : Nat} {a : α}
    (ha : a ∈ g.jobs) (hnext : g.within (n + k + 1) a = true) (hnow : g.within (n + k) a = false) :
    ∃ l : List α, (g.levelsFrom le left level pending).1[k]? = some l ∧ a ∈ l := by
  have hnot : ¬ g.Stable n := by
    intro hstable
    have hlate := within_mono h (Nat.le_add_right n k) (hstable _ a ha hnext)
    rw [hnow] at hlate
    cases hlate
  induction left generalizing n k level pending with
  | zero => exact absurd (stable_of_countP (by omega)) hnot
  | succ left ih =>
    rw [levelsFrom]
    cases level with
    | nil => exact absurd (stable_of_empty h hr.level) hnot
    | cons b level =>
      cases k with
      | zero => exact ⟨b :: level, rfl, (hr.level.mem a).2 ⟨ha, hnext, hnow⟩⟩
      | succ k =>
        have hcount := hr.level.countP_within h
        rw [List.length_cons] at hcount
        rw [← Nat.add_assoc, Nat.add_right_comm n k 1] at hnext hnow
        refine ih (hr.after h le) (by omega) hnext hnow fun hstable => ?_
        have hlate := within_mono h (Nat.le_add_right (n + 1) k) (hstable _ a ha hnext)
        rw [hnow] at hlate
        cases hlate

theorem exists_level_of_within (h : g.Coherent) (le : α → α → Bool) {a : α} (ha : a ∈ g.jobs)
    {n : Nat} (hn : g.within n a = true) :
    ∃ i : Nat, ∃ l : List α, (g.leveling le).levels[i]? = some l ∧ a ∈ l := by
  induction n with
  | zero => cases hn
  | succ n ih =>
    cases hnow : g.within n a
    · refine ⟨n, exists_levelsFrom_of_within h le g.indegree.length (reached_roots h le)
        (by simp [jobs]) ha ?_ ?_⟩
      · rwa [Nat.zero_add]
      · rwa [Nat.zero_add]
    · exact ih hnow

/-! ## The levels of a graph -/

theorem eq_of_mem_levels (h : g.Coherent) {i j : Nat} {l m : List α} (hi : g.IsLevel i l)
    (hj : g.IsLevel j m) {a : α} (hl : a ∈ l) (hm : a ∈ m) : i = j := by
  have hle : ∀ {i j : Nat} {l m : List α}, g.IsLevel i l → g.IsLevel j m → a ∈ l → a ∈ m →
      i ≤ j := by
    intro i j l m hi hj hl hm
    by_contra hlt
    have hearly := within_mono h (show j + 1 ≤ i by omega) ((hj.mem a).1 hm).2.1
    rw [((hi.mem a).1 hl).2.2] at hearly
    cases hearly
  exact Nat.le_antisymm (hle hi hj hl hm) (hle hj hi hm hl)

theorem nodup_flatten_levels (h : g.Coherent) (le : α → α → Bool) :
    (g.leveling le).levels.flatten.Nodup := by
  rw [List.nodup_flatten]
  constructor
  · intro l hl
    obtain ⟨i, hi⟩ := List.mem_iff_getElem?.1 hl
    exact (isLevel_of_leveling h le hi).nodup
  · rw [List.pairwise_iff_getElem]
    intro i j hi hj hij a hal ham
    have hl := isLevel_of_leveling h le (List.getElem?_eq_getElem hi)
    have hm := isLevel_of_leveling h le (List.getElem?_eq_getElem hj)
    have heq := eq_of_mem_levels h hl hm hal ham
    omega

theorem isLeveling_of_stuck_eq_nil (h : g.Coherent) (hjobs : g.jobs = relation.map Prod.fst)
    (hneeds : ∀ j d, j ∈ g.childrenOf d ↔ Needing relation j d) (le : α → α → Bool)
    (hstuck : (g.leveling le).stuck = []) : IsLeveling relation (g.leveling le).levels := by
  have hcover : ∀ {a}, a ∈ g.jobs →
      ∃ i : Nat, ∃ l : List α, (g.leveling le).levels[i]? = some l ∧ a ∈ l := by
    intro a ha
    have hfree : ¬ ∀ n, g.within n a = false := by
      intro hnever
      have hin := (mem_stuck_iff h le a).2 ⟨ha, hnever⟩
      rw [hstuck] at hin
      cases hin
    push Not at hfree
    obtain ⟨n, hn⟩ := hfree
    exact exists_level_of_within h le ha (Bool.eq_true_of_not_eq_false hn)
  refine ⟨?_, fun hi a ha => ?_, fun hi a ha b hab => ?_, fun level hlevel a ha b hb hab => ?_⟩
  · rw [← hjobs, List.perm_ext_iff_of_nodup (nodup_flatten_levels h le) h.jobs_nodup]
    intro a
    rw [List.mem_flatten]
    constructor
    · rintro ⟨l, hl, ha⟩
      obtain ⟨i, hi⟩ := List.mem_iff_getElem?.1 hl
      exact ((isLevel_of_leveling h le hi).mem a).1 ha |>.1
    · intro ha
      obtain ⟨i, l, hi, hal⟩ := hcover ha
      exact ⟨l, List.mem_of_getElem? hi, hal⟩
  · exact (isLevel_of_leveling h le hi).isGreatest h hneeds ha
  · have hchild := (hneeds a b).2 hab
    obtain ⟨j, before, hj, hb⟩ := hcover (h.parent_mem hchild)
    have hdepth := (isLevel_of_leveling h le hi).isGreatest h hneeds ha
    have hdepthb := (isLevel_of_leveling h le hj).isGreatest h hneeds hb
    -- a chain of the need is one longer from the job itself
    exact ⟨j, hdepth.2 (.need hab hdepthb.1), before, hj, hb⟩
  · obtain ⟨i, hi⟩ := List.mem_iff_getElem?.1 hlevel
    have hl := isLevel_of_leveling h le hi
    have hdepends : g.DependsOn = Needing relation := funext₂ fun j d => propext (hneeds j d)
    rw [← hdepends] at hab
    obtain ⟨m, hm, hwithin⟩ := within_of_transGen h hab ((hl.mem a).1 ha).2.1
    have hearly := within_mono h (Nat.lt_succ_iff.1 hm) hwithin
    rw [((hl.mem b).1 hb).2.2] at hearly
    cases hearly

theorem nodup_stuck (h : g.Coherent) (le : α → α → Bool) : (g.leveling le).stuck.Nodup := by
  obtain ⟨_, hkeys, _⟩ :=
    levelsFrom_spec h le g.indegree.length (reached_roots h le) (by simp [jobs])
  rw [leveling, (List.mergeSort_perm _ le).nodup_iff]
  exact (hkeys ▸ h.jobs_nodup).sublist (List.filter_sublist.map Prod.fst)

theorem mem_stuck_iff_reachesCycle (h : g.Coherent) (hjobs : g.jobs = relation.map Prod.fst)
    (hneeds : ∀ j d, j ∈ g.childrenOf d ↔ Needing relation j d) (le : α → α → Bool) (a : α) :
    a ∈ (g.leveling le).stuck ↔ ReachesCycle relation a := by
  have hdepends : g.DependsOn = Needing relation := funext₂ fun j d => propext (hneeds j d)
  have hground : ¬ g.Grounded a ↔ ReachesCycle relation a := by
    rw [Grounded, hdepends, ReachesCycle]
    push Not
    rfl
  rw [mem_stuck_iff_not_grounded h, hground, and_iff_right_iff_imp, hjobs]
  exact ReachesCycle.mem_jobs

end Graph

/-! ## Levels of texts -/

/-- The levels of a closed relation. They exist exactly if no job needs itself through others;
if they do not, the jobs that are stuck are those that reach a cycle, in order. -/
theorem levelsOf_by_depth (relation : List (String × List String))
    (hjobs : (relation.map Prod.fst).Nodup)
    (hclosed : ∀ p ∈ relation, ∀ d ∈ p.2, d ∈ relation.map Prod.fst) :
    ((∃ levels, levelsOf relation = .ok levels) ↔ ∀ a, ¬ TransGen (Needing relation) a a) ∧
    (∀ levels, levelsOf relation = .ok levels → IsLeveling relation levels) ∧
    ∀ fault, levelsOf relation = .error fault →
      ∃ stuck, fault = .cycle stuck ∧ stuck.Pairwise (fun s t => Text.le s t = true) ∧
        stuck.Nodup ∧ ∀ a, a ∈ stuck ↔ ReachesCycle relation a := by
  obtain ⟨g, hbuild, hg, hkeys, hneeds⟩ := Graph.build_of_closed hjobs hclosed
  have hdepends : g.DependsOn = Needing relation := funext₂ fun j d => propext (hneeds j d)
  have hlevels : levelsOf relation = if (g.leveling Text.le).stuck = []
      then .ok (g.leveling Text.le).levels else .error (.cycle (g.leveling Text.le).stuck) := by
    rw [levelsOf, hbuild]
    simp only [Graph.levels, List.isEmpty_iff]
  rw [hlevels, ← hdepends, ← Graph.stuck_eq_nil_iff hg Text.le]
  split
  · next hnil =>
    refine ⟨by simp [hnil], fun levels hok => ?_, fun fault herror => (by cases herror)⟩
    obtain rfl := Except.ok.inj hok
    exact Graph.isLeveling_of_stuck_eq_nil hg hkeys hneeds Text.le hnil
  · next hne =>
    refine ⟨by simp [hne], fun levels hok => (by cases hok), fun fault herror => ?_⟩
    refine ⟨_, (Except.error.inj herror).symm, ?_, ?_, ?_⟩
    · exact List.pairwise_mergeSort Text.le_trans Text.le_total _
    · exact Graph.nodup_stuck hg Text.le
    · exact Graph.mem_stuck_iff_reachesCycle hg hkeys hneeds Text.le

/-- Two jobs in a chain, of which the second one needs the first one twice. -/
def chained : List (String × List String) := [("build", ["test", "test"]), ("test", [])]

theorem levels_chained :
    (chained.map Prod.fst).Nodup ∧ (∀ p ∈ chained, ∀ d ∈ p.2, d ∈ chained.map Prod.fst) ∧
      levelsOf chained = .ok [["test"], ["build"]] ∧
      IsLeveling chained [["test"], ["build"]] :=
  have hjobs : (chained.map Prod.fst).Nodup := by decide
  have hclosed : ∀ p ∈ chained, ∀ d ∈ p.2, d ∈ chained.map Prod.fst := by decide
  have hlevels : levelsOf chained = .ok [["test"], ["build"]] := by decide +kernel
  ⟨hjobs, hclosed, hlevels, (levelsOf_by_depth chained hjobs hclosed).2.1 _ hlevels⟩

end AppPipeline.Needs
