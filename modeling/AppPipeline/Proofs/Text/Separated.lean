import AppPipeline.Text.Blank
import AppPipeline.Text.Code

/-!
# Separated texts

* `append_separator_inj`: what stands before the first separator, and what
  stands after it, can be read back;
* `intercalate_inj`: so can pieces that do not hold the separator between them;
* `mergeSort_le_inj`: texts put in order agree exactly when they are the same
  texts up to their order;
* `mem_toList_strip`: stripping a text brings no new character.
-/

namespace AppPipeline.Text

/-! ## Separators -/

theorem append_separator_inj {c : Char} {a b s t : List Char} (ha : c ∉ a) (hb : c ∉ b)
    (h : a ++ c :: s = b ++ c :: t) : a = b ∧ s = t := by
  have hs := congrArg (List.splitOn c) h
  rw [List.splitOn_append_cons_self_of_not_mem ha,
    List.splitOn_append_cons_self_of_not_mem hb, List.cons.injEq] at hs
  obtain ⟨hab, hst⟩ := hs
  have hj := congrArg (List.intercalate [c]) hst
  rw [List.intercalate_splitOn, List.intercalate_splitOn] at hj
  exact ⟨hab, hj⟩

/-- The pieces of a joined text are found again by cutting it at the separator. -/
theorem splitOn_intercalate {c : Char} {sep : String} (hc : sep.toList = [c]) {ps : List String}
    (hn : ps ≠ []) (hp : ∀ p ∈ ps, c ∉ p.toList) :
    (String.intercalate sep ps).toList.splitOn c = ps.map String.toList := by
  rw [String.toList_intercalate, hc]
  apply List.splitOn_intercalate
  · intro l hl
    obtain ⟨p, hm, rfl⟩ := List.mem_map.1 hl
    exact hp p hm
  · simpa using hn

theorem intercalate_inj {c : Char} {sep : String} (hc : sep.toList = [c]) {ps qs : List String}
    (hps : ps ≠ []) (hqs : qs ≠ []) (hp : ∀ p ∈ ps, c ∉ p.toList) (hq : ∀ q ∈ qs, c ∉ q.toList)
    (h : String.intercalate sep ps = String.intercalate sep qs) : ps = qs := by
  have hs : ps.map String.toList = qs.map String.toList := by
    rw [← splitOn_intercalate hc hps hp, ← splitOn_intercalate hc hqs hq, h]
  exact (List.map_inj_right fun _ _ => String.toList_inj.1).1 hs

/-- Pieces that are not empty join to the empty text only if there are none. -/
theorem intercalate_eq_empty_iff (sep : String) {ps : List String} (hp : ∀ p ∈ ps, p ≠ "") :
    String.intercalate sep ps = "" ↔ ps = [] := by
  constructor
  · intro h
    cases ps with
    | nil => rfl
    | cons p rest =>
      have hpe : p = "" := by
        cases rest with
        | nil => simpa using h
        | cons q rest =>
          rw [String.intercalate_cons_cons, String.append_assoc] at h
          exact (String.append_eq_empty_iff.1 h).1
      exact absurd hpe (hp p List.mem_cons_self)
  · rintro rfl
    rfl

/-! ## Order -/

theorem mergeSort_le_inj {xs ys : List String} :
    xs.mergeSort le = ys.mergeSort le ↔ xs.Perm ys := by
  constructor
  · intro h
    exact (List.mergeSort_perm xs le).symm.trans (h ▸ List.mergeSort_perm ys le)
  · intro h
    have hx := List.pairwise_mergeSort le_trans le_total xs
    have hy := List.pairwise_mergeSort le_trans le_total ys
    have hp := (List.mergeSort_perm xs le).trans (h.trans (List.mergeSort_perm ys le).symm)
    exact List.Perm.eq_of_pairwise (fun s t _ _ hst hts => le_antisymm s t hst hts) hx hy hp

/-! ## Stripping -/

theorem mem_toList_strip {s : String} {c : Char} (h : c ∈ (strip s).toList) : c ∈ s.toList := by
  rw [strip, String.toList_ofList, trim, trimEnd, List.mem_reverse] at h
  have h₁ := (List.dropWhile_sublist isBlank).subset h
  rw [List.mem_reverse, trimStart] at h₁
  exact (List.dropWhile_sublist isBlank).subset h₁

end AppPipeline.Text
