import AppPipeline.Config.Choice
import AppPipeline.Proofs.Matrix.Points

/-!
# Sublists by their numbers

The sublists of a list are numbered from zero, and the bits that are set in the number of a
sublist are the places of its items, where the lowest bit stands for the first place.

* `getElem?_subsets`: the sublist with a number;
* `le_of_atBits_subset`: if no item occurs twice, a sublist with all items of another one has no
  lower number;
* `subsets_by_number`: how many sublists there are and which one has which number; and that the
  sublists of distinct items differ, each after those that it includes.
-/

namespace AppPipeline.Matrix

variable {α : Type}

/-! ## Items at bits -/

/-- The items at the places of the bits that are set. -/
def atBits (m : Nat) (xs : List α) : List α :=
  (xs.zipIdx.filter fun p => m.testBit p.2).map Prod.fst

/-- The lowest bit decides on the first item, and half of the number has the bits of the others. -/
theorem atBits_cons (m : Nat) (x : α) (xs : List α) :
    atBits m (x :: xs) = if m.testBit 0 then x :: atBits (m / 2) xs else atBits (m / 2) xs := by
  have hrest : ((xs.zipIdx 1).filter fun p => m.testBit p.2).map Prod.fst = atBits (m / 2) xs := by
    rw [List.zipIdx_succ, List.filter_map, List.map_map, atBits]
    simp only [Function.comp_def, Nat.testBit_succ]
  rw [atBits, List.zipIdx_cons, List.filter_cons, ← hrest]
  split
  · rfl
  · rfl

theorem mem_atBits {m : Nat} {xs : List α} {a : α} :
    a ∈ atBits m xs ↔ ∃ i : Nat, xs[i]? = some a ∧ m.testBit i = true := by
  rw [atBits, List.mem_map]
  constructor
  · rintro ⟨⟨_, i⟩, hp, rfl⟩
    obtain ⟨hp, hi⟩ := List.mem_filter.1 hp
    exact ⟨i, List.mem_zipIdx_iff_getElem?.1 hp, hi⟩
  · rintro ⟨i, ha, hi⟩
    exact ⟨(a, i), List.mem_filter.2 ⟨List.mem_zipIdx_iff_getElem?.2 ha, hi⟩, rfl⟩

theorem atBits_zero (xs : List α) : atBits 0 xs = [] := by
  rw [List.eq_nil_iff_forall_not_mem]
  intro a ha
  obtain ⟨i, _, hi⟩ := mem_atBits.1 ha
  rw [Nat.zero_testBit] at hi
  cases hi

/-- With all bits set, all items are taken. -/
theorem atBits_two_pow_sub_one (xs : List α) : atBits (2 ^ xs.length - 1) xs = xs := by
  have hall : (xs.zipIdx.filter fun p => (2 ^ xs.length - 1).testBit p.2) = xs.zipIdx := by
    rw [List.filter_eq_self]
    intro p hp
    have hlt := (List.getElem?_eq_some_iff.1 (List.mem_zipIdx_iff_getElem?.1 hp)).1
    rw [Nat.testBit_two_pow_sub_one, decide_eq_true hlt]
  rw [atBits, hall, List.zipIdx_map_fst]

/-! ## Numbers of sublists -/

/-- Sublists without the first item alternate with those that have it. -/
theorem eq_atBits_of_getElem? {xs : List α} {m : Nat} {s : List α}
    (h : (subsets xs)[m]? = some s) : s = atBits m xs := by
  induction xs generalizing m s with
  | nil => exact List.mem_singleton.1 (List.mem_of_getElem? h)
  | cons x xs ih =>
    rw [subsets] at h
    obtain ⟨t, ht, hs⟩ := getElem?_flatMap_const (m := 2) (fun _ => rfl) h
    rw [atBits_cons, Nat.testBit_zero, ← ih ht]
    rcases Nat.mod_two_eq_zero_or_one m with hm | hm
    · rw [hm] at hs ⊢
      exact (Option.some.inj hs).symm
    · rw [hm] at hs ⊢
      exact (Option.some.inj hs).symm

theorem getElem?_subsets {xs : List α} {m : Nat} (hm : m < 2 ^ xs.length) :
    (subsets xs)[m]? = some (atBits m xs) := by
  have hlt : m < (subsets xs).length := hm.trans_eq (length_subsets xs).symm
  have hfound := List.getElem?_eq_getElem hlt
  rw [hfound, eq_atBits_of_getElem? hfound]

theorem lt_of_getElem?_subsets {xs : List α} {m : Nat} {s : List α}
    (h : (subsets xs)[m]? = some s) : m < 2 ^ xs.length :=
  (List.getElem?_eq_some_iff.1 h).1.trans_eq (length_subsets xs)

/-! ## Distinct items -/

/-- The number of a sublist with more items has more bits, so it is not lower. -/
theorem le_of_atBits_subset {xs : List α} (hxs : xs.Nodup) {m k : Nat} (hm : m < 2 ^ xs.length)
    (h : atBits m xs ⊆ atBits k xs) : m ≤ k := by
  refine Nat.le_of_testBit fun i hi => ?_
  have hlt : i < xs.length := by
    by_contra hge
    have hpow := Nat.pow_le_pow_right (n := 2) (by decide) (Nat.not_lt.1 hge)
    rw [Nat.testBit_lt_two_pow (Nat.lt_of_lt_of_le hm hpow)] at hi
    cases hi
  -- the item at the place `i` stands at no other place, so it is the bit `i` that takes it
  obtain ⟨j, hj, hbit⟩ := mem_atBits.1 (h (mem_atBits.2 ⟨i, List.getElem?_eq_getElem hlt, hi⟩))
  rw [← List.getElem?_eq_getElem hlt] at hj
  rwa [(List.getElem?_inj hlt hxs).1 hj.symm]

theorem eq_of_atBits_eq {xs : List α} (hxs : xs.Nodup) {m k : Nat} (hm : m < 2 ^ xs.length)
    (hk : k < 2 ^ xs.length) (h : atBits m xs = atBits k xs) : m = k :=
  Nat.le_antisymm (le_of_atBits_subset hxs hm (h ▸ List.Subset.refl _))
    (le_of_atBits_subset hxs hk (h ▸ List.Subset.refl _))

/-- There is a sublist for every number with no more bits than there are items, and its items
are those at the bits that are set: the first one is empty and the last one the whole list. If no
item occurs twice, every sublist has one number, which is higher than those of all sublists with
only some of its items. -/
theorem subsets_by_number (xs : List α) :
    (subsets xs).length = 2 ^ xs.length ∧
    (∀ m < 2 ^ xs.length, (subsets xs)[m]? = some (atBits m xs)) ∧
    (subsets xs).head? = some [] ∧ (subsets xs).getLast? = some xs ∧
    (xs.Nodup →
      (∀ s : List α, s.Sublist xs → ∃! m : Nat, (subsets xs)[m]? = some s) ∧
      ∀ (m k : Nat) (s t : List α), (subsets xs)[m]? = some s → (subsets xs)[k]? = some t →
        s ⊆ t → s ≠ t → m < k) := by
  have hpos : 0 < 2 ^ xs.length := Nat.two_pow_pos _
  refine ⟨length_subsets xs, fun m hm => getElem?_subsets hm, ?_, ?_, fun hxs => ⟨?_, ?_⟩⟩
  · rw [List.head?_eq_getElem?, getElem?_subsets hpos, atBits_zero]
  · have hlast : (subsets xs).length - 1 = 2 ^ xs.length - 1 :=
      congrArg (· - 1) (length_subsets xs)
    rw [List.getLast?_eq_getElem?, hlast, getElem?_subsets (Nat.sub_lt hpos Nat.one_pos),
      atBits_two_pow_sub_one]
  · intro s hs
    obtain ⟨m, hm⟩ := List.getElem?_of_mem (mem_subsets.2 hs)
    refine ⟨m, hm, fun k hk => ?_⟩
    refine eq_of_atBits_eq hxs (lt_of_getElem?_subsets hk) (lt_of_getElem?_subsets hm) ?_
    rw [← eq_atBits_of_getElem? hk, eq_atBits_of_getElem? hm]
  · intro m k s t hm hk hst hne
    obtain rfl := eq_atBits_of_getElem? hm
    obtain rfl := eq_atBits_of_getElem? hk
    have hle := le_of_atBits_subset hxs (lt_of_getElem?_subsets hm) hst
    exact Nat.lt_of_le_of_ne hle fun he => hne (he ▸ rfl)

/-- The static checks, of which a number selects some. -/
theorem subsets_by_number_tests :
    (Choice.members : List TestKind).Nodup ∧ 5 < 2 ^ (Choice.members : List TestKind).length ∧
      (subsets (Choice.members : List TestKind))[5]? = some [.typescript, .prettier] ∧
      (∃! m : Nat, (subsets (Choice.members : List TestKind))[m]? = some [.eslint]) ∧
      [TestKind.prettier] ⊆ [.typescript, .prettier] ∧ 4 < 5 :=
  have hdistinct : (Choice.members : List TestKind).Nodup := by decide
  have hfive : 5 < 2 ^ (Choice.members : List TestKind).length := by decide
  have hnumbers := subsets_by_number (Choice.members : List TestKind)
  have hpart : [TestKind.prettier] ⊆ [.typescript, .prettier] := by decide
  ⟨hdistinct, hfive, hnumbers.2.1 5 hfive,
    (hnumbers.2.2.2.2 hdistinct).1 [.eslint] (mem_subsets.1 (by decide)), hpart,
    (hnumbers.2.2.2.2 hdistinct).2 4 5 _ _ rfl rfl hpart (by decide)⟩

end AppPipeline.Matrix
