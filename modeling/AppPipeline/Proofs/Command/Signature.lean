import AppPipeline.Command.Signature
import AppPipeline.Proofs.Text.Separated

/-!
# What a signature tells apart

A signature holds the pairs of category and stripped text of its commands and
nothing else: `signatureOf_eq_iff_keys` and `Command.key_eq_iff`, for commands of the listed categories
whose texts do not hold the separator.
-/

namespace AppPipeline

namespace Category

/-- The mark between a category and a text stands in no name of a category. -/
theorem colon_not_mem_name (k : Category) : ':' ∉ k.name.toList := by
  cases k <;> simp [name]

theorem bar_not_mem_name (k : Category) : '|' ∉ k.name.toList := by
  cases k <;> simp [name]

theorem name_injective {k l : Category} (h : k.name = l.name) : k = l := by
  have := congrArg named? h
  rwa [named?_name, named?_name, Option.some.injEq] at this

end Category

namespace Command

/-- What a signature shows of a command. -/
def pair (c : Command) : String × String := (c.category, Text.strip c.text)

/-- The category is a listed one and the text does not hold the separator of a signature. -/
structure Separable (c : Command) : Prop where
  category : ∃ k : Category, c.category = k.name
  text : '|' ∉ c.text.toList

theorem toList_key (c : Command) :
    c.key.toList = c.category.toList ++ ':' :: (Text.strip c.text).toList := by
  simp [key]

theorem key_ne_empty (c : Command) : c.key ≠ "" := by
  intro h
  have := congrArg String.toList h
  simp [toList_key] at this

theorem bar_not_mem_key {c : Command} (h : c.Separable) : '|' ∉ c.key.toList := by
  obtain ⟨k, hk⟩ := h.category
  rw [toList_key, hk, List.mem_append, List.mem_cons]
  rintro (hm | hm | hm)
  · exact k.bar_not_mem_name hm
  · exact absurd hm (by decide)
  · exact h.text (Text.mem_toList_strip hm)

theorem key_eq_iff {c d : Command} (hc : c.Separable) (hd : d.Separable) :
    c.key = d.key ↔ c.pair = d.pair := by
  constructor
  · intro h
    have hl := congrArg String.toList h
    rw [toList_key, toList_key] at hl
    obtain ⟨k, hk⟩ := hc.category
    obtain ⟨l, hl'⟩ := hd.category
    have hs := Text.append_separator_inj (hk ▸ k.colon_not_mem_name) (hl' ▸ l.colon_not_mem_name) hl
    exact Prod.ext (String.toList_inj.1 hs.1) (String.toList_inj.1 hs.2)
  · intro h
    have h₁ : c.category = d.category := congrArg Prod.fst h
    have h₂ : Text.strip c.text = Text.strip d.text := congrArg Prod.snd h
    rw [key, key, h₁, h₂]

end Command

theorem signatureOf_eq_empty_iff (xs : List Command) : signatureOf xs = "" ↔ xs = [] := by
  rw [signatureOf, Text.intercalate_eq_empty_iff]
  · constructor
    · intro h
      have hl := congrArg List.length h
      rw [List.length_mergeSort, List.length_map] at hl
      exact List.eq_nil_of_length_eq_zero hl
    · rintro rfl
      simp
  · intro p hp
    obtain ⟨c, _, rfl⟩ := List.mem_map.1 (List.mem_mergeSort.1 hp)
    exact c.key_ne_empty

/-- Signatures agree exactly when the keys do, as often as they occur. -/
theorem signatureOf_eq_iff_keys {xs ys : List Command} (hx : ∀ c ∈ xs, c.Separable)
    (hy : ∀ c ∈ ys, c.Separable) :
    signatureOf xs = signatureOf ys ↔ (xs.map Command.key).Perm (ys.map Command.key) := by
  have hbar : ∀ {zs : List Command}, (∀ c ∈ zs, c.Separable) →
      ∀ p ∈ (zs.map Command.key).mergeSort Text.le, '|' ∉ p.toList := by
    intro zs hz p hp
    obtain ⟨c, hc, rfl⟩ := List.mem_map.1 (List.mem_mergeSort.1 hp)
    exact Command.bar_not_mem_key (hz c hc)
  rw [← Text.mergeSort_le_inj]
  constructor
  · intro h
    by_cases hn : xs = []
    · have hm : ys = [] := by
        rw [← signatureOf_eq_empty_iff, ← h, signatureOf_eq_empty_iff, hn]
      rw [hn, hm]
    · have hm : ys ≠ [] := by
        rwa [Ne, ← signatureOf_eq_empty_iff, ← h, signatureOf_eq_empty_iff]
      have hne : ∀ {zs : List Command}, zs ≠ [] → (zs.map Command.key).mergeSort Text.le ≠ [] := by
        intro zs hz h0
        have hl := congrArg List.length h0
        rw [List.length_mergeSort, List.length_map] at hl
        exact hz (List.eq_nil_of_length_eq_zero hl)
      exact Text.intercalate_inj (c := '|') (by decide) (hne hn) (hne hm) (hbar hx) (hbar hy) h
  · intro h
    rw [signatureOf, signatureOf, h]

end AppPipeline
