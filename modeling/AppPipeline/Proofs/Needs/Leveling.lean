import AppPipeline.Needs.Levels
import AppPipeline.Proofs.Needs.Building

/-!
# What leveling finds

`g.within n a` says that `a` stands in one of the first `n` levels: whatever it
needs stands in one of the `n - 1` before. When `n` levels are found, the next one
holds the jobs within `n + 1` levels but not within `n`, and every job has as many
open needs as it needs jobs not within `n` levels (`Reached`).

* `Front.meets_foldl`: what visits to jobs make of their open needs;
* `Reached.after`: one level keeps this;
* `levelsFrom_spec`: the levels end when no job is left that can become free;
* `mem_stuck_iff`: the jobs within no number of levels are stuck, and no others.
-/

namespace AppPipeline.Needs

variable {α : Type} [DecidableEq α]

/-! ## Meeting needs -/

namespace Front

/-- The open needs of a job. -/
def openOf (f : Front α) (job : α) : Nat := (f.pending.lookup job).getD 0

theorem openOf_meet {f : Front α} {job : α} (hjob : job ∈ f.pending.map Prod.fst) (a : α) :
    (f.meet job).openOf a = if a = job then f.openOf job - 1 else f.openOf a := by
  rw [openOf, meet, lookup_adjust]
  by_cases ha : a = job
  · obtain ⟨n, hn⟩ := Option.isSome_iff_exists.1 (isSome_lookup.2 hjob)
    rw [if_pos ha, if_pos ha, ha, openOf, hn]
    rfl
  · rw [if_neg ha, if_neg ha, openOf]

theorem free_meet {f : Front α} {job : α} (hpos : 0 < f.openOf job) :
    (f.meet job).free = if f.openOf job = 1 then f.free ++ [job] else f.free := by
  rw [openOf] at hpos
  rw [meet, openOf]
  by_cases hlast : (f.pending.lookup job).getD 0 = 1
  · rw [if_pos hlast, hlast]
    rfl
  · rw [if_neg hlast]
    dsimp only
    rw [if_neg (by omega)]

theorem keys_meet (f : Front α) (job : α) :
    (f.meet job).pending.map Prod.fst = f.pending.map Prod.fst := keys_adjust ..

/-- The second front is what visits make of the first one: every visit meets a need, and the jobs
whose last need is met become free, each of them once. -/
structure Meets (f : Front α) (visits : List α) (f' : Front α) : Prop where
  keys : f'.pending.map Prod.fst = f.pending.map Prod.fst
  openOf : ∀ a, f'.openOf a = f.openOf a - visits.count a
  freed : ∃ freed, f'.free = f.free ++ freed ∧ freed.Nodup ∧
    ∀ a, a ∈ freed ↔ a ∈ visits ∧ visits.count a = f.openOf a

theorem Meets.nil (f : Front α) : f.Meets [] f where
  keys := rfl
  openOf _ := rfl
  freed := ⟨[], (List.append_nil _).symm, List.nodup_nil, by simp⟩

/-- The first of the visits meets the last need of its job, which is visited no more. -/
theorem Meets.cons_last {f f' : Front α} {v : α} {visits : List α}
    (hv : v ∈ f.pending.map Prod.fst) (hlast : f.openOf v = 1) (hvisits : v ∉ visits)
    (h : (f.meet v).Meets visits f') :
    ∃ freed, f'.free = f.free ++ freed ∧ freed.Nodup ∧
      ∀ a, a ∈ freed ↔ a ∈ v :: visits ∧ (v :: visits).count a = f.openOf a := by
  obtain ⟨freed, hfree, hnodup, hmem⟩ := h.freed
  refine ⟨v :: freed, ?_, ?_, fun a => ?_⟩
  · rw [hfree, free_meet (by omega), if_pos hlast, List.append_assoc]
    rfl
  · exact List.nodup_cons.2 ⟨fun hin => hvisits ((hmem v).1 hin).1, hnodup⟩
  · rw [List.mem_cons, List.mem_cons, hmem, openOf_meet hv]
    by_cases ha : a = v
    · subst ha
      rw [List.count_cons_self, List.count_eq_zero.2 hvisits]
      simp [hlast]
    · rw [if_neg ha, List.count_cons_of_ne (Ne.symm ha)]
      simp [ha]

/-- The first of the visits leaves needs of its job open. -/
theorem Meets.cons_open {f f' : Front α} {v : α} {visits : List α}
    (hv : v ∈ f.pending.map Prod.fst) (hopen : 1 < f.openOf v)
    (h : (f.meet v).Meets visits f') :
    ∃ freed, f'.free = f.free ++ freed ∧ freed.Nodup ∧
      ∀ a, a ∈ freed ↔ a ∈ v :: visits ∧ (v :: visits).count a = f.openOf a := by
  obtain ⟨freed, hfree, hnodup, hmem⟩ := h.freed
  refine ⟨freed, ?_, hnodup, fun a => ?_⟩
  · rw [hfree, free_meet (by omega), if_neg (by omega)]
  · rw [List.mem_cons, hmem, openOf_meet hv]
    by_cases ha : a = v
    · subst ha
      rw [List.count_cons_self, if_pos rfl]
      constructor
      · rintro ⟨_, hcount⟩
        exact ⟨.inl rfl, by omega⟩
      · rintro ⟨_, hcount⟩
        exact ⟨List.count_pos_iff.1 (by omega), by omega⟩
    · rw [if_neg ha, List.count_cons_of_ne (Ne.symm ha)]
      simp [ha]

theorem Meets.cons {f f' : Front α} {v : α} {visits : List α}
    (hv : v ∈ f.pending.map Prod.fst) (hopen : visits.count v < f.openOf v)
    (h : (f.meet v).Meets visits f') : f.Meets (v :: visits) f' where
  keys := h.keys.trans (keys_meet f v)
  openOf a := by
    rw [h.openOf, openOf_meet hv]
    by_cases ha : a = v
    · subst ha
      rw [if_pos rfl, List.count_cons_self]
      omega
    · rw [if_neg ha, List.count_cons_of_ne (Ne.symm ha)]
  freed := by
    by_cases hlast : f.openOf v = 1
    · exact h.cons_last hv hlast (List.count_eq_zero.1 (by omega))
    · exact h.cons_open hv (by omega)

/-- Visits to a job take down its open needs one by one, where there are enough of them. -/
theorem meets_foldl (visits : List α) (f : Front α)
    (hkeys : ∀ a ∈ visits, a ∈ f.pending.map Prod.fst)
    (hopen : ∀ a, visits.count a ≤ f.openOf a) : f.Meets visits (visits.foldl meet f) := by
  induction visits generalizing f with
  | nil => exact .nil f
  | cons v visits ih =>
    have hv : v ∈ f.pending.map Prod.fst := hkeys v List.mem_cons_self
    have hfirst : visits.count v < f.openOf v := by
      have hcount := hopen v
      rwa [List.count_cons_self] at hcount
    have hrest : ∀ a, visits.count a ≤ (f.meet v).openOf a := by
      intro a
      rw [openOf_meet hv]
      by_cases ha : a = v
      · subst ha
        rw [if_pos rfl]
        omega
      · have hcount := hopen a
        rwa [if_neg ha, ← List.count_cons_of_ne (Ne.symm ha)]
    refine .cons hv hfirst (ih (f.meet v) (fun a ha => ?_) hrest)
    rw [keys_meet]
    exact hkeys a (List.mem_cons_of_mem _ ha)

end Front

/-! ## Jobs within a number of levels -/

namespace Graph

variable {g : Graph α}

/-- The job stands in one of the first levels: what it needs stands in one before. -/
def within (g : Graph α) : Nat → α → Bool
  | 0, _ => false
  | n + 1, a => g.jobs.all fun b => !decide (a ∈ g.childrenOf b) || g.within n b

theorem within_succ_iff (h : g.Coherent) (n : Nat) (a : α) :
    g.within (n + 1) a = true ↔ ∀ b, a ∈ g.childrenOf b → g.within n b = true := by
  rw [within, List.all_eq_true]
  constructor
  · intro hall b hb
    simpa [hb] using hall b (h.parent_mem hb)
  · intro hall b _
    by_cases hb : a ∈ g.childrenOf b
    · simp [hb, hall b hb]
    · simp [hb]

theorem within_succ (h : g.Coherent) {n : Nat} {a : α} (ha : g.within n a = true) :
    g.within (n + 1) a = true := by
  induction n generalizing a with
  | zero => cases ha
  | succ n ih =>
    rw [within_succ_iff h] at ha ⊢
    exact fun b hb => ih (ha b hb)

theorem within_mono (h : g.Coherent) {m n : Nat} (hmn : m ≤ n) {a : α}
    (ha : g.within m a = true) : g.within n a = true := by
  induction hmn with
  | refl => exact ha
  | step _ ih => exact within_succ h ih

/-- How many of the needs of a job stand in none of the first levels. -/
def openNeeds (g : Graph α) (n : Nat) (a : α) : Nat :=
  g.jobs.countP fun b => decide (a ∈ g.childrenOf b) && !g.within n b

theorem openNeeds_zero (h : g.Coherent) (a : α) : g.openNeeds 0 a = g.indegreeOf a := by
  rw [h.indegree, openNeeds]
  simp only [within, Bool.not_false, Bool.and_true]

theorem openNeeds_eq_zero_iff (n : Nat) (a : α) :
    g.openNeeds n a = 0 ↔ g.within (n + 1) a = true := by
  rw [openNeeds, List.countP_eq_zero, within, List.all_eq_true]
  refine forall₂_congr fun b _ => ?_
  cases decide (a ∈ g.childrenOf b) <;> cases g.within n b <;> simp

/-- The jobs of one level. -/
structure IsLevel (g : Graph α) (n : Nat) (level : List α) : Prop where
  nodup : level.Nodup
  mem : ∀ a, a ∈ level ↔ a ∈ g.jobs ∧ g.within (n + 1) a = true ∧ g.within n a = false

theorem IsLevel.perm (h : g.Coherent) {n : Nat} {level : List α} (hlevel : g.IsLevel n level) :
    level.Perm (g.jobs.filter fun b => g.within (n + 1) b && !g.within n b) := by
  rw [List.perm_ext_iff_of_nodup hlevel.nodup (h.jobs_nodup.filter _)]
  intro b
  rw [hlevel.mem, List.mem_filter]
  simp

/-- The needs of a job in one level stand between its open needs before and after. -/
theorem IsLevel.openNeeds_eq (h : g.Coherent) {n : Nat} {level : List α}
    (hlevel : g.IsLevel n level) (a : α) :
    g.openNeeds n a
      = g.openNeeds (n + 1) a + level.countP fun b => decide (a ∈ g.childrenOf b) := by
  rw [(hlevel.perm h).countP_eq, List.countP_filter, openNeeds, openNeeds]
  refine countP_split (fun b _ => ?_) fun b _ hb => ?_
  · cases hn : g.within n b
    · cases decide (a ∈ g.childrenOf b) <;> cases g.within (n + 1) b <;> rfl
    · rw [within_succ h hn]
      simp
  · cases hn : g.within (n + 1) b
    · simp
    · rw [hn] at hb
      simp at hb

theorem IsLevel.countP_within (h : g.Coherent) {n : Nat} {level : List α}
    (hlevel : g.IsLevel n level) :
    g.jobs.countP (g.within (n + 1)) = g.jobs.countP (g.within n) + level.length := by
  rw [(hlevel.perm h).length_eq, ← List.countP_eq_length_filter]
  refine countP_split (fun b _ => ?_) fun b _ hb => ?_
  · cases hn : g.within n b
    · simp
    · rw [within_succ h hn]
      rfl
  · rw [hb]
    simp

/-! ## One level -/

/-- After so many levels, these are the jobs of the next one and the open needs. -/
structure Reached (g : Graph α) (n : Nat) (level : List α) (pending : List (α × Nat)) : Prop where
  level : g.IsLevel n level
  keys : pending.map Prod.fst = g.jobs
  pending : ∀ a, (pending.lookup a).getD 0 = g.openNeeds n a

/-- The visits of a level to the jobs that need its jobs. -/
def visits (le : α → α → Bool) (g : Graph α) (level : List α) : List α :=
  level.flatMap fun job => (g.childrenOf job).mergeSort le

theorem after_eq_foldl (le : α → α → Bool) (g : Graph α) (level : List α)
    (pending : List (α × Nat)) :
    g.after le level pending = (g.visits le level).foldl Front.meet ⟨[], pending⟩ := by
  rw [after, visits, List.foldl_flatMap]

theorem count_visits (h : g.Coherent) (le : α → α → Bool) (level : List α) (a : α) :
    (g.visits le level).count a = level.countP fun b => decide (a ∈ g.childrenOf b) := by
  induction level with
  | nil => rfl
  | cons b level ih =>
    have hb : ((g.childrenOf b).mergeSort le).count a = if a ∈ g.childrenOf b then 1 else 0 := by
      rw [(List.mergeSort_perm (g.childrenOf b) le).count_eq, (h.children_nodup b).count]
    rw [visits, List.flatMap_cons, List.count_append, hb, List.countP_cons, ← ih, visits]
    by_cases ha : a ∈ g.childrenOf b
    · simp [ha, Nat.add_comm]
    · simp [ha]

theorem Reached.after (h : g.Coherent) (le : α → α → Bool) {n : Nat} {level : List α}
    {pending : List (α × Nat)} (hr : g.Reached n level pending) :
    g.Reached (n + 1) (g.after le level pending).free (g.after le level pending).pending := by
  have hsplit := hr.level.openNeeds_eq h
  have hmem : ∀ a ∈ g.visits le level, a ∈ pending.map Prod.fst := by
    intro a ha
    obtain ⟨b, _, ha⟩ := List.mem_flatMap.1 ha
    rw [hr.keys]
    exact h.children_mem (List.mem_mergeSort.1 ha)
  obtain ⟨hkeys, hopen, freed, hfree, hnodup, hfreed⟩ :=
    Front.meets_foldl (g.visits le level) ⟨[], pending⟩ hmem fun a => by
      rw [Front.openOf, hr.pending, count_visits h, hsplit]
      exact Nat.le_add_left _ _
  rw [← after_eq_foldl] at hkeys hopen hfree
  refine ⟨⟨?_, fun a => ?_⟩, hkeys.trans hr.keys, fun a => ?_⟩
  · rw [hfree]
    exact hnodup
  · rw [hfree, List.nil_append, hfreed, Front.openOf, hr.pending, count_visits h, hsplit,
      ← openNeeds_eq_zero_iff, ← Bool.not_eq_true, ← openNeeds_eq_zero_iff, hsplit]
    constructor
    · rintro ⟨ha, heq⟩
      refine ⟨hr.keys ▸ hmem a ha, by omega, ?_⟩
      have hpos := List.count_pos_iff.2 ha
      rw [count_visits h] at hpos
      omega
    · rintro ⟨_, hzero, hpos⟩
      refine ⟨List.count_pos_iff.1 ?_, by omega⟩
      rw [count_visits h]
      omega
  · rw [← Front.openOf, hopen, Front.openOf, hr.pending, count_visits h, hsplit]
    omega

/-! ## All levels -/

/-- No further level holds a job that is not within these. -/
def Stable (g : Graph α) (n : Nat) : Prop :=
  ∀ k, ∀ a ∈ g.jobs, g.within k a = true → g.within n a = true

theorem stable_of_empty (h : g.Coherent) {n : Nat} (hlevel : g.IsLevel n []) : g.Stable n := by
  intro k
  induction k with
  | zero => intro a _ ha; cases ha
  | succ k ih =>
    intro a hjob ha
    have hnext : g.within (n + 1) a = true := by
      rw [within_succ_iff h] at ha ⊢
      exact fun b hb => ih b (h.parent_mem hb) (ha b hb)
    cases hn : g.within n a
    · exact absurd ((hlevel.mem a).2 ⟨hjob, hnext, hn⟩) List.not_mem_nil
    · rfl

theorem stable_of_countP {n : Nat} (hall : g.jobs.length ≤ g.jobs.countP (g.within n)) :
    g.Stable n := by
  have heq := Nat.le_antisymm List.countP_le_length hall
  exact fun _ a ha _ => List.countP_eq_length.1 heq a ha

/-- The levels found are those from the given one on, and no further job can become free. -/
theorem levelsFrom_spec (h : g.Coherent) (le : α → α → Bool) (left : Nat) {n : Nat}
    {level : List α} {pending : List (α × Nat)} (hr : g.Reached n level pending)
    (hleft : g.jobs.length ≤ left + g.jobs.countP (g.within n)) :
    (∀ i l, (g.levelsFrom le left level pending).1[i]? = some l → g.IsLevel (n + i) l) ∧
    (g.levelsFrom le left level pending).2.map Prod.fst = g.jobs ∧
    ∃ last, g.Stable last ∧
      ∀ a, ((g.levelsFrom le left level pending).2.lookup a).getD 0 = g.openNeeds last a := by
  induction left generalizing n level pending with
  | zero =>
    rw [levelsFrom]
    refine ⟨fun i l hl => ?_, hr.keys, n, stable_of_countP (by omega), hr.pending⟩
    simp at hl
  | succ left ih =>
    rw [levelsFrom]
    cases level with
    | nil =>
      refine ⟨fun i l hl => ?_, hr.keys, n, stable_of_empty h hr.level, hr.pending⟩
      simp at hl
    | cons b level =>
      have hcount := hr.level.countP_within h
      rw [List.length_cons] at hcount
      obtain ⟨hlevels, hkeys, last, hlast, hopen⟩ := ih (hr.after h le) (by omega)
      refine ⟨fun i l hl => ?_, hkeys, last, hlast, hopen⟩
      cases i with
      | zero =>
        obtain rfl := Option.some.inj hl
        exact hr.level
      | succ i =>
        have hnext := hlevels i l hl
        rwa [Nat.add_right_comm] at hnext

theorem reached_roots (h : g.Coherent) (le : α → α → Bool) :
    g.Reached 0 (g.roots le) g.indegree := by
  refine ⟨⟨?_, fun a => ?_⟩, rfl, fun a => ?_⟩
  · rw [roots, (List.mergeSort_perm _ le).nodup_iff]
    exact h.jobs_nodup.sublist (List.filter_sublist.map Prod.fst)
  · rw [roots, List.mem_mergeSort, mem_keys_filter (q := fun n => n == 0) h.jobs_nodup, ← openNeeds_eq_zero_iff,
      openNeeds_zero h, indegreeOf]
    constructor
    · rintro ⟨n, hn, hzero⟩
      refine ⟨isSome_lookup.1 (by rw [hn]; rfl), ?_, rfl⟩
      rw [hn]
      exact eq_of_beq hzero
    · rintro ⟨ha, hzero, _⟩
      obtain ⟨n, hn⟩ := Option.isSome_iff_exists.1 (isSome_lookup.2 ha)
      rw [hn] at hzero
      exact ⟨n, hn, beq_iff_eq.2 hzero⟩
  · rw [openNeeds_zero h, indegreeOf]

/-- The levels are those of the graph, each in its place. -/
theorem isLevel_of_leveling (h : g.Coherent) (le : α → α → Bool) {i : Nat} {l : List α}
    (hl : (g.leveling le).levels[i]? = some l) : g.IsLevel i l := by
  have hlevel := (levelsFrom_spec h le g.indegree.length (reached_roots h le) (by simp [jobs])).1
    i l hl
  rwa [Nat.zero_add] at hlevel

/-- The stuck jobs are those that stand within no number of levels. -/
theorem mem_stuck_iff (h : g.Coherent) (le : α → α → Bool) (a : α) :
    a ∈ (g.leveling le).stuck ↔ a ∈ g.jobs ∧ ∀ n, g.within n a = false := by
  obtain ⟨_, hkeys, last, hlast, hopen⟩ :=
    levelsFrom_spec h le g.indegree.length (reached_roots h le) (by simp [jobs])
  rw [leveling, List.mem_mergeSort, mem_keys_filter (q := fun n => n != 0) (hkeys ▸ h.jobs_nodup)]
  have hstuck : g.openNeeds last a ≠ 0 ↔ g.within (last + 1) a = false := by
    rw [ne_eq, openNeeds_eq_zero_iff, Bool.not_eq_true]
  constructor
  · rintro ⟨n, hn, hne⟩
    have ha : a ∈ g.jobs := by
      rw [← hkeys, ← isSome_lookup, hn]
      rfl
    refine ⟨ha, fun k => ?_⟩
    have hlate : g.within (last + 1) a = false := by
      rw [← hstuck, ← hopen, hn]
      simpa using hne
    cases hk : g.within k a
    · rfl
    · rw [within_succ h (hlast k a ha hk)] at hlate
      cases hlate
  · rintro ⟨ha, hnever⟩
    obtain ⟨n, hn⟩ := Option.isSome_iff_exists.1 (isSome_lookup.2 (hkeys.symm ▸ ha))
    refine ⟨n, hn, ?_⟩
    have hne := hstuck.2 (hnever (last + 1))
    rw [← hopen, hn] at hne
    simpa using hne

end Graph

end AppPipeline.Needs
