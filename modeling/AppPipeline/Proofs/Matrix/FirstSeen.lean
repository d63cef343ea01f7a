import Mathlib.Data.List.Induction
import AppPipeline.Matrix.Enumeration

/-!
# First occurrences

What `firstSeen` keeps: a sublist (`firstSeen_sublist`) with distinct keys
(`nodup_map_firstSeen`) and all keys (`mem_map_firstSeen`), each item at the
first place of its key (`getElem?_placeOf_firstSeen`) and the items in the order
of these places (`pairwise_placeOf_firstSeen`).

What a second list adds to a first one are the items that are kept of it alone and
whose keys are new (`firstSeen_append`). So, from the end of a list on, an item is kept
exactly where no earlier one has its key (`firstSeen_eq_filter_zipIdx`); all of this
together is `firstSeen_keeps_first`.
-/

namespace AppPipeline.Matrix

variable {α κ : Type} [DecidableEq κ] (key : α → κ)

theorem firstSeenFrom_sublist (seen : List κ) (xs : List α) :
    (firstSeenFrom key seen xs).Sublist xs := by
  induction xs generalizing seen with
  | nil => exact List.Sublist.refl _
  | cons x xs ih =>
    rw [firstSeenFrom]
    split
    · exact List.Sublist.cons x (ih seen)
    · exact List.Sublist.cons_cons x (ih (key x :: seen))

theorem firstSeen_sublist (xs : List α) : (firstSeen key xs).Sublist xs :=
  firstSeenFrom_sublist key [] xs

/-- No kept item has a key that was seen before. -/
theorem not_mem_seen_of_mem {seen : List κ} {xs : List α} {y : α}
    (h : y ∈ firstSeenFrom key seen xs) : key y ∉ seen := by
  induction xs generalizing seen with
  | nil => cases h
  | cons x xs ih =>
    rw [firstSeenFrom] at h
    split at h
    · exact ih h
    · next hx =>
      rcases List.mem_cons.1 h with rfl | h
      · exact hx
      · exact fun hy => ih h (List.mem_cons_of_mem _ hy)

theorem nodup_map_firstSeenFrom (seen : List κ) (xs : List α) :
    ((firstSeenFrom key seen xs).map key).Nodup := by
  induction xs generalizing seen with
  | nil => exact List.Pairwise.nil
  | cons x xs ih =>
    rw [firstSeenFrom]
    split
    · exact ih seen
    · rw [List.map_cons, List.nodup_cons]
      refine ⟨fun hx => ?_, ih (key x :: seen)⟩
      obtain ⟨y, hy, he⟩ := List.mem_map.1 hx
      exact not_mem_seen_of_mem key hy (he ▸ List.mem_cons_self)

theorem nodup_map_firstSeen (xs : List α) : ((firstSeen key xs).map key).Nodup :=
  nodup_map_firstSeenFrom key [] xs

theorem mem_map_firstSeenFrom {seen : List κ} {xs : List α} {k : κ} (hk : k ∈ xs.map key)
    (hs : k ∉ seen) : k ∈ (firstSeenFrom key seen xs).map key := by
  induction xs generalizing seen with
  | nil => cases hk
  | cons x xs ih =>
    rw [firstSeenFrom]
    rw [List.map_cons, List.mem_cons] at hk
    split
    · next hx =>
      rcases hk with rfl | hk
      · exact absurd hx hs
      · exact ih hk hs
    · by_cases hx : k = key x
      · rw [hx, List.map_cons]
        exact List.mem_cons_self
      · have hn : k ∉ key x :: seen := by
          rw [List.mem_cons]
          exact not_or.2 ⟨hx, hs⟩
        exact List.mem_cons_of_mem _ (ih (hk.resolve_left hx) hn)

/-- Every key that occurs is kept. -/
theorem mem_map_firstSeen (xs : List α) (k : κ) :
    k ∈ (firstSeen key xs).map key ↔ k ∈ xs.map key :=
  ⟨fun h => ((firstSeen_sublist key xs).map key).subset h,
    fun h => mem_map_firstSeenFrom key h List.not_mem_nil⟩

/-- A key is kept exactly once. -/
theorem countP_firstSeen {xs : List α} {k : κ} (h : k ∈ xs.map key) :
    (firstSeen key xs).countP (fun x => key x = k) = 1 := by
  have hc : ((firstSeen key xs).map key).count k = 1 := by
    rw [(nodup_map_firstSeen key xs).count, if_pos ((mem_map_firstSeen key xs k).2 h)]
  rw [List.count, List.countP_map] at hc
  exact hc

/-- Keeping first occurrences goes through a map. -/
theorem firstSeenFrom_map {β : Type} (f : β → α) (seen : List κ) (xs : List β) :
    firstSeenFrom key seen (xs.map f) = (firstSeenFrom (fun x => key (f x)) seen xs).map f := by
  induction xs generalizing seen with
  | nil => rfl
  | cons x xs ih =>
    rw [List.map_cons, firstSeenFrom, firstSeenFrom, ih, ih]
    split
    · rfl
    · rw [List.map_cons]

theorem firstSeen_map {β : Type} (f : β → α) (xs : List β) :
    firstSeen key (xs.map f) = (firstSeen (fun x => key (f x)) xs).map f :=
  firstSeenFrom_map key f [] xs

/-! ## Places -/

/-- The first place of a key. -/
def placeOf (xs : List α) (k : κ) : Nat := xs.findIdx fun x => key x = k

theorem placeOf_cons_self (x : α) (xs : List α) : placeOf key (x :: xs) (key x) = 0 := by
  simp [placeOf, List.findIdx_cons]

theorem placeOf_cons_of_ne {x : α} {k : κ} (xs : List α) (h : key x ≠ k) :
    placeOf key (x :: xs) k = placeOf key xs k + 1 := by
  simp [placeOf, List.findIdx_cons, h]

theorem getElem?_placeOf {seen : List κ} {xs : List α} {y : α}
    (h : y ∈ firstSeenFrom key seen xs) : xs[placeOf key xs (key y)]? = some y := by
  induction xs generalizing seen with
  | nil => cases h
  | cons x xs ih =>
    rw [firstSeenFrom] at h
    split at h
    · next hx =>
      have hn : key x ≠ key y := fun e => not_mem_seen_of_mem key h (e ▸ hx)
      rw [placeOf_cons_of_ne key xs hn, List.getElem?_cons_succ]
      exact ih h
    · rcases List.mem_cons.1 h with rfl | h
      · rw [placeOf_cons_self, List.getElem?_cons_zero]
      · have hn : key x ≠ key y := fun e =>
          not_mem_seen_of_mem key h (e ▸ List.mem_cons_self)
        rw [placeOf_cons_of_ne key xs hn, List.getElem?_cons_succ]
        exact ih h

/-- Every kept item is the first one with its key. -/
theorem getElem?_placeOf_firstSeen {xs : List α} {y : α} (h : y ∈ firstSeen key xs) :
    xs[placeOf key xs (key y)]? = some y :=
  getElem?_placeOf key h

theorem pairwise_placeOf_firstSeenFrom (seen : List κ) (xs : List α) :
    (firstSeenFrom key seen xs).Pairwise fun a b =>
      placeOf key xs (key a) < placeOf key xs (key b) := by
  induction xs generalizing seen with
  | nil => exact List.Pairwise.nil
  | cons x xs ih =>
    -- an item after `x` has another key than `x`, so its place is one further than in `xs`
    have shift : ∀ {s : List κ}, key x ∈ s → (firstSeenFrom key s xs).Pairwise fun a b =>
        placeOf key (x :: xs) (key a) < placeOf key (x :: xs) (key b) := by
      intro s hx
      refine (ih s).imp_of_mem fun ha hb hab => ?_
      have hna : key x ≠ key _ := fun e => not_mem_seen_of_mem key ha (e ▸ hx)
      have hnb : key x ≠ key _ := fun e => not_mem_seen_of_mem key hb (e ▸ hx)
      rw [placeOf_cons_of_ne key xs hna, placeOf_cons_of_ne key xs hnb]
      omega
    rw [firstSeenFrom]
    split
    · next hx => exact shift hx
    · rw [List.pairwise_cons]
      refine ⟨fun y hy => ?_, shift List.mem_cons_self⟩
      have hn : key x ≠ key y := fun e => not_mem_seen_of_mem key hy (e ▸ List.mem_cons_self)
      rw [placeOf_cons_self, placeOf_cons_of_ne key xs hn]
      omega

/-- The items come in the order of the first places of their keys. -/
theorem pairwise_placeOf_firstSeen (xs : List α) :
    (firstSeen key xs).Pairwise fun a b => placeOf key xs (key a) < placeOf key xs (key b) :=
  pairwise_placeOf_firstSeenFrom key [] xs

/-! ## Lists one after another -/

/-- Further keys that were seen take away the items that have them, and nothing else. -/
theorem firstSeenFrom_eq_filter {extra seen both : List κ}
    (hboth : ∀ k, k ∈ both ↔ k ∈ extra ∨ k ∈ seen) (xs : List α) :
    firstSeenFrom key both xs = (firstSeenFrom key seen xs).filter fun x => key x ∉ extra := by
  induction xs generalizing seen both with
  | nil => rfl
  | cons x xs ih =>
    rw [firstSeenFrom, firstSeenFrom]
    by_cases hs : key x ∈ seen
    · rw [if_pos ((hboth _).2 (.inr hs)), if_pos hs]
      exact ih hboth
    · rw [if_neg hs]
      by_cases he : key x ∈ extra
      · rw [if_pos ((hboth _).2 (.inl he)), List.filter_cons_of_neg (by simpa using he)]
        refine ih fun k => ?_
        rw [hboth, List.mem_cons]
        constructor
        · exact Or.imp_right .inr
        · rintro (hk | rfl | hk)
          · exact .inl hk
          · exact .inl he
          · exact .inr hk
      · have hx : key x ∉ both := fun h => ((hboth _).1 h).elim he hs
        rw [if_neg hx, List.filter_cons_of_pos (by simpa using he)]
        refine congrArg (x :: ·) (ih fun k => ?_)
        rw [List.mem_cons, List.mem_cons, hboth, or_left_comm]

theorem firstSeenFrom_append (seen : List κ) (xs ys : List α) :
    firstSeenFrom key seen (xs ++ ys) = firstSeenFrom key seen xs
      ++ (firstSeenFrom key seen ys).filter fun y => key y ∉ xs.map key := by
  induction xs generalizing seen with
  | nil => simp [firstSeenFrom, List.filter_eq_self.2]
  | cons x xs ih =>
    rw [List.cons_append, firstSeenFrom, firstSeenFrom, ih, ih]
    split
    · next hx =>
      refine congrArg (_ ++ ·) (List.filter_congr fun y hy => ?_)
      -- what is kept of `ys` has no key that was seen, so not that of `x` either
      have hne : key y ≠ key x := fun he => not_mem_seen_of_mem key hy (he ▸ hx)
      simp [hne]
    · have hnew : firstSeenFrom key (key x :: seen) ys
          = (firstSeenFrom key seen ys).filter fun y => key y ∉ [key x] :=
        firstSeenFrom_eq_filter key (fun k => by simp) ys
      rw [hnew, List.filter_filter, List.cons_append]
      refine congrArg (x :: _ ++ ·) (List.filter_congr fun y _ => ?_)
      rw [List.map_cons]
      simp [Bool.and_comm]

/-- What is kept of the second list are the items that are kept of it alone, less those whose
key the first list has. -/
theorem firstSeen_append (xs ys : List α) :
    firstSeen key (xs ++ ys)
      = firstSeen key xs ++ (firstSeen key ys).filter fun y => key y ∉ xs.map key :=
  firstSeenFrom_append key [] xs ys

/-- An item is kept at those places before which no item has its key. -/
theorem firstSeen_eq_filter_zipIdx (xs : List α) :
    firstSeen key xs
      = (xs.zipIdx.filter fun p => key p.1 ∉ (xs.take p.2).map key).map Prod.fst := by
  induction xs using List.reverseRecOn with
  | nil => rfl
  | append_singleton xs x ih =>
    have hxs : (xs.zipIdx.filter fun p => key p.1 ∉ ((xs ++ [x]).take p.2).map key)
        = xs.zipIdx.filter fun p => key p.1 ∉ (xs.take p.2).map key := by
      refine List.filter_congr fun p hp => ?_
      have hlt := (List.getElem?_eq_some_iff.1 (List.mem_zipIdx_iff_getElem?.1 hp)).1
      rw [List.take_append_of_le_length (Nat.le_of_lt hlt)]
    have hx : firstSeen key [x] = [x] := rfl
    rw [firstSeen_append, hx, List.zipIdx_append, List.filter_append, List.map_append, hxs, ← ih]
    refine congrArg (firstSeen key xs ++ ·) ?_
    by_cases h : key x ∈ xs.map key
    · simp [h, -List.mem_map]
    · simp [h, -List.mem_map]

/-- Where the keys are distinct, all items are kept. -/
theorem firstSeen_eq_self {xs : List α} (h : (xs.map key).Nodup) : firstSeen key xs = xs := by
  have hkeys : ((firstSeen key xs).map key).Perm (xs.map key) :=
    (List.perm_ext_iff_of_nodup (nodup_map_firstSeen key xs) h).2 (mem_map_firstSeen key xs)
  refine (firstSeen_sublist key xs).eq_of_length ?_
  rw [← List.length_map key, hkeys.length_eq, List.length_map]

/-- What is kept is a sublist with the same keys, each of them once: an item is kept exactly where
no earlier one has its key. So keeping first occurrences again changes nothing, and what a further
list adds are the items with new keys among those that are kept of it alone. -/
theorem firstSeen_keeps_first (xs : List α) :
    (firstSeen key xs).Sublist xs ∧ ((firstSeen key xs).map key).Nodup ∧
    (∀ k, k ∈ (firstSeen key xs).map key ↔ k ∈ xs.map key) ∧
    firstSeen key xs
      = (xs.zipIdx.filter fun p => key p.1 ∉ (xs.take p.2).map key).map Prod.fst ∧
    firstSeen key (firstSeen key xs) = firstSeen key xs ∧
    ∀ ys, firstSeen key (xs ++ ys)
      = firstSeen key xs ++ (firstSeen key ys).filter fun y => key y ∉ xs.map key :=
  ⟨firstSeen_sublist key xs, nodup_map_firstSeen key xs, mem_map_firstSeen key xs,
    firstSeen_eq_filter_zipIdx key xs, firstSeen_eq_self key (nodup_map_firstSeen key xs),
    firstSeen_append key xs⟩

end AppPipeline.Matrix
