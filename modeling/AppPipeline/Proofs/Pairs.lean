/-!
# Maps as lists of pairs

A list of pairs maps a key to the value of the first pair with it. Where the
keys are distinct, every pair is found (`lookup_of_mem`), in whatever order the pairs
stand (`lookup_perm`).
-/

namespace AppPipeline

variable {α β : Type} [BEq α] [LawfulBEq α]

theorem isSome_lookup {m : List (α × β)} {k : α} :
    (m.lookup k).isSome = true ↔ k ∈ m.map Prod.fst := by
  rw [List.lookup_isSome_iff, List.mem_map]
  constructor
  · rintro ⟨p, hp, hk⟩
    exact ⟨p, hp, (eq_of_beq hk).symm⟩
  · rintro ⟨p, hp, rfl⟩
    exact ⟨p, hp, beq_self_eq_true _⟩

theorem lookup_eq_none {m : List (α × β)} {k : α} (h : k ∉ m.map Prod.fst) :
    m.lookup k = none := by
  rw [← Option.not_isSome_iff_eq_none, isSome_lookup]
  exact h

theorem mem_of_lookup {m : List (α × β)} {k : α} {v : β} (h : m.lookup k = some v) :
    (k, v) ∈ m := by
  obtain ⟨before, after, hm, _⟩ := List.lookup_eq_some_iff.1 h
  rw [hm]
  exact List.mem_append_right _ List.mem_cons_self

theorem lookup_of_mem {m : List (α × β)} (hm : (m.map Prod.fst).Nodup) {k : α} {v : β}
    (h : (k, v) ∈ m) : m.lookup k = some v := by
  induction m with
  | nil => cases h
  | cons p m ih =>
    rw [List.map_cons, List.nodup_cons] at hm
    rw [List.lookup_cons]
    rcases List.mem_cons.1 h with rfl | h
    · rw [beq_self_eq_true]
    · have hne : k ≠ p.1 := fun he => hm.1 (he ▸ List.mem_map_of_mem (f := Prod.fst) h)
      rw [beq_false_of_ne hne]
      exact ih hm.2 h

theorem lookup_perm {m n : List (α × β)} (h : m.Perm n) (hm : (m.map Prod.fst).Nodup) (k : α) :
    m.lookup k = n.lookup k := by
  have hn : (n.map Prod.fst).Nodup := (h.map Prod.fst).nodup hm
  refine Option.ext fun v => ?_
  constructor
  · exact fun hv => lookup_of_mem hn (h.mem_iff.1 (mem_of_lookup hv))
  · exact fun hv => lookup_of_mem hm (h.mem_iff.2 (mem_of_lookup hv))

/-- The keys whose values pass a test. -/
theorem mem_keys_filter {m : List (α × β)} (hm : (m.map Prod.fst).Nodup) {q : β → Bool} {k : α} :
    k ∈ (m.filter fun p => q p.2).map Prod.fst ↔ ∃ v, m.lookup k = some v ∧ q v = true := by
  rw [List.mem_map]
  constructor
  · rintro ⟨⟨_, v⟩, hp, rfl⟩
    obtain ⟨hp, hv⟩ := List.mem_filter.1 hp
    exact ⟨v, lookup_of_mem hm hp, hv⟩
  · rintro ⟨v, hk, hv⟩
    exact ⟨(k, v), List.mem_filter.2 ⟨mem_of_lookup hk, hv⟩, rfl⟩

end AppPipeline
