import AppPipeline.Proofs.Command.TestPhase

/-!
# Signatures are multisets

For commands of the listed categories whose texts do not hold the separator, the signature tells
the pairs of category and stripped text, each as often as it occurs, and nothing else
(`signatureOf_eq_iff_pairs`). So neither the order of the commands nor what a pair leaves out
changes it, and a pair that is one time more, or another one, always does.
-/

namespace AppPipeline

/-- Elements with the same image under one map have the same image under another one, so where
the images are the same up to their order, the other images are too. -/
theorem perm_map_of_perm_map {α β γ : Type} {f : α → β} {g : α → γ} {xs ys : List α}
    (h : ∀ a ∈ xs, ∀ b ∈ ys, f a = f b → g a = g b) (hperm : (xs.map f).Perm (ys.map f)) :
    (xs.map g).Perm (ys.map g) := by
  induction xs generalizing ys with
  | nil =>
    have hnil : ys = [] := List.map_eq_nil_iff.1 hperm.nil_eq.symm
    rw [hnil]
  | cons a xs ih =>
    obtain ⟨b, hb, hab⟩ := List.mem_map.1 (hperm.subset List.mem_cons_self)
    have hg : g a = g b := h a List.mem_cons_self b hb hab.symm
    obtain ⟨before, after, rfl⟩ := List.append_of_mem hb
    have hfront : (before ++ b :: after).Perm (b :: (before ++ after)) := List.perm_middle
    have hrest : (xs.map f).Perm ((before ++ after).map f) := by
      have hcons := hperm.trans (hfront.map f)
      rw [List.map_cons, List.map_cons, hab] at hcons
      exact hcons.cons_inv
    have hmem : ∀ c ∈ before ++ after, c ∈ before ++ b :: after := fun c hc =>
      hfront.mem_iff.2 (List.mem_cons_of_mem b hc)
    have hothers := ih (fun c hc d hd => h c (List.mem_cons_of_mem a hc) d (hmem d hd)) hrest
    rw [List.map_cons, hg]
    exact (hothers.cons (g b)).trans (hfront.map g).symm

/-- Keys agree as often as pairs do. -/
theorem perm_keys_iff {xs ys : List Command} (hx : ∀ c ∈ xs, c.Separable)
    (hy : ∀ c ∈ ys, c.Separable) :
    (xs.map Command.key).Perm (ys.map Command.key) ↔
      (xs.map Command.pair).Perm (ys.map Command.pair) :=
  ⟨perm_map_of_perm_map fun a ha b hb => (Command.key_eq_iff (hx a ha) (hy b hb)).1,
    perm_map_of_perm_map fun a ha b hb => (Command.key_eq_iff (hx a ha) (hy b hb)).2⟩

/-- Signatures of separable commands agree exactly if the commands have the same pairs, each as
often; only without commands is the signature empty; and the commands of the test phase of every
configuration are separable. -/
theorem signatureOf_eq_iff_pairs :
    (∀ xs ys : List Command, (∀ c ∈ xs, c.Separable) → (∀ c ∈ ys, c.Separable) →
      (signatureOf xs = signatureOf ys ↔ (xs.map Command.pair).Perm (ys.map Command.pair))) ∧
    (∀ xs : List Command, signatureOf xs = "" ↔ xs = []) ∧
    ∀ c : Config, ∀ k ∈ c.testCommands, k.Separable := by
  refine ⟨fun xs ys hx hy => ?_, signatureOf_eq_empty_iff,
    fun _ _ => Config.separable_of_mem_testCommands⟩
  rw [signatureOf_eq_iff_keys hx hy, perm_keys_iff hx hy]

/-- A text of two lines that looks like a key of another category. -/
def misleading : Command := ⟨"Check", "jest:a\nlint:b", "lint", false⟩

/-- The same, with another name and flag and with space around the text. -/
def spacedOut : Command := ⟨"Lint", "  jest:a\nlint:b ", "lint", true⟩

theorem signatureOf_misleading :
    (∀ c ∈ [misleading, spacedOut], c.Separable) ∧
      signatureOf [misleading] = signatureOf [spacedOut] ∧
      signatureOf [misleading, spacedOut] ≠ signatureOf [misleading] := by
  have hmisleading : misleading.Separable := ⟨⟨.lint, rfl⟩, by decide⟩
  have hspaced : spacedOut.Separable := ⟨⟨.lint, rfl⟩, by decide⟩
  have hone : ∀ c ∈ [misleading], c.Separable := List.forall_mem_singleton.2 hmisleading
  have hother : ∀ c ∈ [spacedOut], c.Separable := List.forall_mem_singleton.2 hspaced
  have hboth : ∀ c ∈ [misleading, spacedOut], c.Separable :=
    List.forall_mem_cons.2 ⟨hmisleading, hother⟩
  refine ⟨hboth, ?_, fun h => ?_⟩
  · exact (signatureOf_eq_iff_pairs.1 _ _ hone hother).2 (by decide)
  · exact absurd ((signatureOf_eq_iff_pairs.1 _ _ hboth hone).1 h) (by decide)

end AppPipeline
