import Mathlib.Data.Fintype.Card
import Mathlib.Data.Set.Finite.List
import Mathlib.Logic.Relation
import AppPipeline.Proofs.Needs.Leveling

/-!
# Cycles of needs

A job is `Grounded` if no chain of needs that starts at it comes into a cycle.
Exactly the grounded jobs stand within some number of levels
(`exists_within_iff`), so that exactly the others are stuck
(`mem_stuck_iff_not_grounded`) and none is if the needs have no cycle
(`stuck_eq_nil_iff`).
-/

namespace AppPipeline.Needs.Graph

open Relation

variable {α : Type} [DecidableEq α] {g : Graph α}

/-- The first job needs the second one. -/
def DependsOn (g : Graph α) (job need : α) : Prop := job ∈ g.childrenOf need

def Grounded (g : Graph α) (a : α) : Prop :=
  ∀ b, ReflTransGen g.DependsOn a b → ¬ TransGen g.DependsOn b b

theorem Grounded.of_dependsOn {a b : α} (ha : g.Grounded a) (hab : g.DependsOn a b) : g.Grounded b :=
  fun c hc => ha c (.head hab hc)

/-! ## Chains of needs go down -/

theorem within_of_transGen (h : g.Coherent) {a b : α} (hab : TransGen g.DependsOn a b) {n : Nat}
    (ha : g.within n a = true) : ∃ m < n, g.within m b = true := by
  have hstep : ∀ {a b : α} {n : Nat}, g.DependsOn a b → g.within n a = true →
      ∃ m < n, g.within m b = true := by
    intro a b n hab ha
    cases n with
    | zero => cases ha
    | succ n => exact ⟨n, n.lt_succ_self, (within_succ_iff h n a).1 ha b hab⟩
  induction hab with
  | single hab => exact hstep hab ha
  | tail _ hbc ih =>
    obtain ⟨m, hm, hb⟩ := ih
    obtain ⟨k, hk, hc⟩ := hstep hbc hb
    exact ⟨k, hk.trans hm, hc⟩

theorem not_transGen_self_of_within (h : g.Coherent) {n : Nat} {a : α}
    (ha : g.within n a = true) : ¬ TransGen g.DependsOn a a := by
  induction n using Nat.strong_induction_on with
  | _ n ih =>
    intro hcycle
    obtain ⟨m, hm, hlow⟩ := within_of_transGen h hcycle ha
    exact ih m hm hlow hcycle

theorem grounded_of_within (h : g.Coherent) {n : Nat} {a : α} (ha : g.within n a = true) :
    g.Grounded a := by
  intro b hab
  rcases reflTransGen_iff_eq_or_transGen.1 hab with rfl | hab
  · exact not_transGen_self_of_within h ha
  · obtain ⟨m, _, hb⟩ := within_of_transGen h hab ha
    exact not_transGen_self_of_within h hb

/-! ## Grounded jobs are reached -/

/-- Finitely many jobs stand within one number of levels together. -/
theorem exists_common_within (h : g.Coherent) (p : α → Prop) (jobs : List α)
    (hall : ∀ b ∈ jobs, p b → ∃ n, g.within n b = true) :
    ∃ n, ∀ b ∈ jobs, p b → g.within n b = true := by
  induction jobs with
  | nil => exact ⟨0, fun b hb => absurd hb List.not_mem_nil⟩
  | cons a jobs ih =>
    obtain ⟨n, hn⟩ := ih fun b hb => hall b (List.mem_cons_of_mem _ hb)
    by_cases ha : p a
    · obtain ⟨m, hm⟩ := hall a List.mem_cons_self ha
      refine ⟨max m n, fun b hb hpb => ?_⟩
      rcases List.mem_cons.1 hb with rfl | hb
      · exact within_mono h (Nat.le_max_left m n) hm
      · exact within_mono h (Nat.le_max_right m n) (hn b hb hpb)
    · refine ⟨n, fun b hb hpb => ?_⟩
      rcases List.mem_cons.1 hb with rfl | hb
      · exact absurd hpb ha
      · exact hn b hb hpb

/-- Among grounded jobs, chains of needs cannot go on for ever. -/
theorem wellFounded_grounded (g : Graph α) :
    WellFounded fun x y : {a // a ∈ g.jobs ∧ g.Grounded a} => TransGen g.DependsOn y.1 x.1 := by
  have hfinite : Finite {a // a ∈ g.jobs ∧ g.Grounded a} :=
    ((List.finite_toSet g.jobs).subset fun _ ha => ha.1).to_subtype
  have htrans : IsTrans {a // a ∈ g.jobs ∧ g.Grounded a} fun x y => TransGen g.DependsOn y.1 x.1 :=
    ⟨fun _ _ _ hxy hyz => hyz.trans hxy⟩
  have hirrefl : Std.Irrefl fun x y : {a // a ∈ g.jobs ∧ g.Grounded a} =>
      TransGen g.DependsOn y.1 x.1 := ⟨fun x => x.2.2 x.1 .refl⟩
  exact Finite.wellFounded_of_trans_of_irrefl _

theorem exists_within_of_grounded (h : g.Coherent) (x : {a // a ∈ g.jobs ∧ g.Grounded a}) :
    ∃ n, g.within n x.1 = true := by
  induction x using (wellFounded_grounded g).induction with
  | _ x ih =>
    obtain ⟨n, hn⟩ := exists_common_within h (g.DependsOn x.1) g.jobs
      fun b hb hxb => ih ⟨b, hb, x.2.2.of_dependsOn hxb⟩ (.single hxb)
    exact ⟨n + 1, (within_succ_iff h n x.1).2 fun b hb => hn b (h.parent_mem hb) hb⟩

theorem exists_within_iff (h : g.Coherent) {a : α} (ha : a ∈ g.jobs) :
    (∃ n, g.within n a = true) ↔ g.Grounded a :=
  ⟨fun ⟨_, hn⟩ => grounded_of_within h hn, fun hg => exists_within_of_grounded h ⟨a, ha, hg⟩⟩

/-! ## Stuck jobs -/

theorem mem_stuck_iff_not_grounded (h : g.Coherent) (le : α → α → Bool) (a : α) :
    a ∈ (g.leveling le).stuck ↔ a ∈ g.jobs ∧ ¬ g.Grounded a := by
  rw [mem_stuck_iff h]
  refine and_congr_right fun ha => ?_
  rw [← exists_within_iff h ha, not_exists]
  exact forall_congr' fun n => Bool.not_eq_true _ |>.symm.to_iff

/-- No job is stuck exactly when no job needs itself through others. -/
theorem stuck_eq_nil_iff (h : g.Coherent) (le : α → α → Bool) :
    (g.leveling le).stuck = [] ↔ ∀ a, ¬ TransGen g.DependsOn a a := by
  rw [List.eq_nil_iff_forall_not_mem]
  constructor
  · intro hnone a hcycle
    obtain ⟨b, hab, _⟩ := TransGen.head'_iff.1 hcycle
    refine hnone a ((mem_stuck_iff_not_grounded h le a).2 ⟨h.children_mem hab, fun hg => ?_⟩)
    exact hg a .refl hcycle
  · intro hacyclic a ha
    exact ((mem_stuck_iff_not_grounded h le a).1 ha).2 fun b _ => hacyclic b

end AppPipeline.Needs.Graph
