import AppPipeline.Json.Basic
import AppPipeline.Proofs.Pairs

/-!
# Fields that are put

Fields are put one after another into others: a new key comes last and a known one keeps its
place, so keys stay distinct (`nodup_keys_collect`) and of several values for a key the last
one is found (`lookup_collect`). Fields whose keys are distinct are collected as they are
(`collect_eq_self`).
-/

namespace AppPipeline.Json

variable {α : Type} {key : String} {value : α} {fields : List (String × α)}

/-! ## One field -/

theorem put_of_not_mem (h : key ∉ fields.map Prod.fst) :
    put key value fields = fields ++ [(key, value)] := by
  induction fields with
  | nil => rfl
  | cons f rest ih =>
    rw [List.map_cons, List.mem_cons, not_or] at h
    rw [put, if_neg fun he => h.1 he.symm, ih h.2, List.cons_append]

theorem keys_put (h : key ∈ fields.map Prod.fst) :
    (put key value fields).map Prod.fst = fields.map Prod.fst := by
  induction fields with
  | nil => cases h
  | cons f rest ih =>
    rw [put]
    split
    · next he => rw [List.map_cons, List.map_cons, he]
    · next hne =>
      have hrest := (List.mem_cons.1 h).resolve_left fun he => hne he.symm
      rw [List.map_cons, List.map_cons, ih hrest]

theorem nodup_keys_put (h : (fields.map Prod.fst).Nodup) (key : String) (value : α) :
    ((put key value fields).map Prod.fst).Nodup := by
  by_cases hmem : key ∈ fields.map Prod.fst
  · rw [keys_put hmem]
    exact h
  · rw [put_of_not_mem hmem, List.map_append, List.map_singleton, List.nodup_append]
    refine ⟨h, List.pairwise_singleton _ _, fun a ha b hb he => ?_⟩
    obtain rfl : a = key := he.trans (List.mem_singleton.1 hb)
    exact hmem ha

/-! ## Many fields -/

/-- The last of the values that are put for a key replaces the one that is there. -/
theorem lookup_puts (changes fields : List (String × α)) (key : String) :
    (changes.foldl (fun acc f => put f.1 f.2 acc) fields).lookup key
      = (changes.reverse.lookup key).or (fields.lookup key) := by
  induction changes generalizing fields with
  | nil => rfl
  | cons f rest ih =>
    obtain ⟨k, v⟩ := f
    rw [List.foldl_cons, ih, List.reverse_cons, List.lookup_append, Option.or_assoc,
      List.lookup_cons, List.lookup_nil]
    by_cases hk : key = k
    · subst hk
      rw [lookup_put_self, beq_self_eq_true, Option.some_or]
    · rw [lookup_put_of_ne _ _ _ _ hk, beq_false_of_ne hk, Option.none_or]

theorem lookup_collect (fields : List (String × α)) (key : String) :
    (collect fields).lookup key = fields.reverse.lookup key := by
  rw [collect, lookup_puts, List.lookup_nil, Option.or_none]

theorem nodup_keys_collect (fields : List (String × α)) :
    ((collect fields).map Prod.fst).Nodup := by
  have hfold : ∀ acc : List (String × α), (acc.map Prod.fst).Nodup →
      ((fields.foldl (fun acc f => put f.1 f.2 acc) acc).map Prod.fst).Nodup := by
    induction fields with
    | nil => exact fun acc h => h
    | cons f rest ih => exact fun acc h => ih _ (nodup_keys_put h f.1 f.2)
  exact hfold [] List.nodup_nil

theorem mem_keys_collect (fields : List (String × α)) (key : String) :
    key ∈ (collect fields).map Prod.fst ↔ key ∈ fields.map Prod.fst := by
  rw [← isSome_lookup, lookup_collect, isSome_lookup, List.map_reverse, List.mem_reverse]

theorem collect_eq_self (h : (fields.map Prod.fst).Nodup) : collect fields = fields := by
  have hfold : ∀ acc : List (String × α), ((acc ++ fields).map Prod.fst).Nodup →
      fields.foldl (fun acc f => put f.1 f.2 acc) acc = acc ++ fields := by
    clear h
    induction fields with
    | nil => exact fun acc _ => (List.append_nil acc).symm
    | cons f rest ih =>
      intro acc h
      have hnot : f.1 ∉ acc.map Prod.fst := by
        rw [List.map_append, List.map_cons] at h
        exact fun hm => (List.nodup_append.1 h).2.2 _ hm _ List.mem_cons_self rfl
      rw [List.foldl_cons, put_of_not_mem hnot, ih _ (by rwa [List.append_assoc]),
        List.append_assoc]
      rfl
  exact hfold [] h

end AppPipeline.Json
