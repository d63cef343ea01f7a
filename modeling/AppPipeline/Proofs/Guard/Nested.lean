import AppPipeline.Proofs.Guard.Formula

/-!
# Nested conditions

A condition is put together from atoms by `allOf` and `anyOf`, one inside the other to
any depth (`Nested`); `text?` writes it and `holds` says when it holds. If every
`allOf` and `anyOf` has a part (`Nested.IsBuilt`), the text is read back as what it was
built from (`Nested.IsBuilt.evaluate_text`): by induction on how it is built, the text of
each part has the meaning of the part, and brackets stand around it where a conjunction
needs them (`Means`).
-/

namespace AppPipeline.Guard

/-- A condition as it is put together; some parts of a conjunction may be left out. -/
inductive Nested where
  | atom (text : String)
  | all (parts : List (Option Nested))
  | any (parts : List Nested)

namespace Nested

mutual

/-- The text of a condition, unless nothing is left of it. -/
def text? : Nested → Option String
  | .atom text => some text
  | .all parts => allOf (partTexts parts)
  | .any parts => (texts? parts).map anyOf
termination_by structural f => f

def partTexts : List (Option Nested) → List (Option String)
  | [] => []
  | none :: parts => none :: partTexts parts
  | some f :: parts => text? f :: partTexts parts
termination_by structural parts => parts

/-- The texts of all parts; each must have one. -/
def texts? : List Nested → Option (List String)
  | [] => some []
  | f :: parts => (text? f).bind fun text => (texts? parts).map (text :: ·)
termination_by structural parts => parts

end

mutual

/-- The condition holds where atoms have these values. -/
def holds (v : String → Bool) : Nested → Bool
  | .atom text => v text
  | .all parts => allPartsHold v parts
  | .any parts => somePartHolds v parts
termination_by structural f => f

def allPartsHold (v : String → Bool) : List (Option Nested) → Bool
  | [] => true
  | none :: parts => allPartsHold v parts
  | some f :: parts => holds v f && allPartsHold v parts
termination_by structural parts => parts

def somePartHolds (v : String → Bool) : List Nested → Bool
  | [] => false
  | f :: parts => holds v f || somePartHolds v parts
termination_by structural parts => parts

end

/-- Each conjunction and each disjunction has a part. -/
inductive IsBuilt : Nested → Prop
  | atom {text : String} (h : IsAtom text) : IsBuilt (.atom text)
  | all {parts : List (Option Nested)} (hne : ∃ f, some f ∈ parts)
      (h : ∀ f, some f ∈ parts → IsBuilt f) : IsBuilt (.all parts)
  | any {parts : List Nested} (hne : parts ≠ []) (h : ∀ f ∈ parts, IsBuilt f) :
      IsBuilt (.any parts)

end Nested

/-- Every atom has a value. -/
def total (v : String → Bool) : Valuation := fun text => some (v text)

namespace Nested

/-! ## The meaning of the text -/

/-- The condition has a text that means what the condition says. -/
def IsWritten (f : Nested) : Prop :=
  ∃ text m, f.text? = some text ∧ Means text m ∧ ∀ v, m (total v) = some (f.holds v)

theorem isWritten_atom {text : String} (h : IsAtom text) : (atom text).IsWritten :=
  ⟨text, _, rfl, means_atom h, fun _ => rfl⟩

/-- The given parts of a conjunction are written one by one. -/
theorem exists_partTexts {parts : List (Option Nested)}
    (h : ∀ f, some f ∈ parts → f.IsWritten) :
    ∃ texts ms, (partTexts parts).filterMap id = texts ∧ List.Forall₂ Means texts ms ∧
      (∀ f, some f ∈ parts → texts ≠ []) ∧
      ∀ v, allHold ms (total v) = some (allPartsHold v parts) := by
  induction parts with
  | nil => exact ⟨[], [], rfl, .nil, nofun, fun _ => rfl⟩
  | cons part parts ih =>
    obtain ⟨texts, ms, htexts, hms, hne, hvalue⟩ := ih fun f hf => h f (List.mem_cons_of_mem _ hf)
    cases part with
    | none =>
      refine ⟨texts, ms, htexts, hms, fun f hf => hne f ?_, hvalue⟩
      simpa using hf
    | some f =>
      obtain ⟨text, m, htext, hm, hholds⟩ := h f List.mem_cons_self
      refine ⟨text :: texts, m :: ms, ?_, .cons hm hms, fun _ _ => List.cons_ne_nil _ _,
        fun v => ?_⟩
      · rw [partTexts, htext]
        exact congrArg (text :: ·) htexts
      · rw [allHold, hholds, hvalue]
        rfl

/-- So are the parts of a disjunction. -/
theorem exists_texts {parts : List Nested} (h : ∀ f ∈ parts, f.IsWritten) :
    ∃ texts ms, texts? parts = some texts ∧ List.Forall₂ Means texts ms ∧
      (parts ≠ [] → texts ≠ []) ∧
      ∀ v, someHolds ms (total v) = some (somePartHolds v parts) := by
  induction parts with
  | nil => exact ⟨[], [], rfl, .nil, absurd rfl, fun _ => rfl⟩
  | cons f parts ih =>
    obtain ⟨⟨text, m, htext, hm, hholds⟩, hparts⟩ := List.forall_mem_cons.1 h
    obtain ⟨texts, ms, htexts, hms, _, hvalue⟩ := ih hparts
    refine ⟨text :: texts, m :: ms, ?_, .cons hm hms, fun _ => List.cons_ne_nil _ _, fun v => ?_⟩
    · rw [texts?, htext, htexts]
      rfl
    · rw [someHolds, hholds, hvalue]
      rfl

theorem isWritten_all {parts : List (Option Nested)} (hne : ∃ f, some f ∈ parts)
    (h : ∀ f, some f ∈ parts → f.IsWritten) : (all parts).IsWritten := by
  obtain ⟨f, hf⟩ := hne
  obtain ⟨texts, ms, htexts, hms, hgiven, hvalue⟩ := exists_partTexts h
  obtain ⟨text, htext, hm⟩ := means_allOf htexts hms (hgiven f hf)
  exact ⟨text, allHold ms, htext, hm, hvalue⟩

theorem isWritten_any {parts : List Nested} (hne : parts ≠ [])
    (h : ∀ f ∈ parts, f.IsWritten) : (any parts).IsWritten := by
  obtain ⟨texts, ms, htexts, hms, hgiven, hvalue⟩ := exists_texts h
  refine ⟨anyOf texts, someHolds ms, ?_, means_anyOf hms (hgiven hne), hvalue⟩
  rw [text?, htexts]
  rfl

/-- A part is written as it is, whatever it is a part of. -/
theorem IsBuilt.isWritten {f : Nested} (h : f.IsBuilt) : f.IsWritten := by
  induction h with
  | atom h => exact isWritten_atom h
  | all hne _ ih => exact isWritten_all hne ih
  | any hne _ ih => exact isWritten_any hne ih

/-- The text of a condition is read back as a condition that holds exactly where it does. -/
theorem IsBuilt.evaluate_text {f : Nested} (h : f.IsBuilt) :
    ∃ text, f.text? = some text ∧ ∀ v, evaluate (total v) text = some (f.holds v) := by
  obtain ⟨text, m, htext, hm, hholds⟩ := h.isWritten
  exact ⟨text, htext, fun v => (hm.evaluate_eq (total v)).trans (hholds v)⟩

/-- Disjunctions in conjunctions, two deep, with parts left out. -/
theorem IsBuilt.evaluate_text_deep :
    let inner : Nested := .all [some (.atom "b"), some (.any [.atom "c", .atom "d"])]
    let f : Nested := .all [none, some (.any [.atom "a", inner]), none, some (.atom "e")]
    f.IsBuilt ∧ f.text? = some "(a || b && (c || d)) && e" ∧
      ∀ v, evaluate (total v) "(a || b && (c || d)) && e"
        = some ((v "a" || v "b" && (v "c" || v "d")) && v "e") := by
  intro inner f
  have hletter {c : Char} (hmark : c ∉ ['&', '|', '(', ')']) (hblank : Text.isBlank c = false) :
      IsAtom (String.ofList [c]) := by
    refine ⟨by simp, ?_, ?_, ?_⟩ <;> rw [String.toList_ofList]
    · exact List.forall_mem_singleton.2 hmark
    · exact fun d hd => Option.some.inj hd ▸ hblank
    · exact fun d hd => Option.some.inj hd ▸ hblank
  have hatom : ∀ text ∈ ["a", "b", "c", "d", "e"], (Nested.atom text).IsBuilt := by
    intro text htext
    refine .atom ?_
    simp only [List.mem_cons, List.not_mem_nil, or_false] at htext
    rcases htext with rfl | rfl | rfl | rfl | rfl <;> exact hletter (by decide) (by decide)
  have hinner : inner.IsBuilt := by
    refine .all ⟨_, List.mem_cons_self⟩ ?_
    simp only [List.mem_cons, List.not_mem_nil, or_false, Option.some.injEq, forall_eq_or_imp,
      forall_eq]
    refine ⟨hatom "b" (by simp), .any (List.cons_ne_nil _ _) ?_⟩
    exact List.forall_mem_cons.2
      ⟨hatom "c" (by simp), List.forall_mem_singleton.2 (hatom "d" (by simp))⟩
  have hf : f.IsBuilt := by
    refine .all ⟨.atom "e", by simp⟩ ?_
    simp only [List.mem_cons, List.not_mem_nil, or_false, Option.some.injEq, forall_eq_or_imp,
      forall_eq, reduceCtorEq, false_or]
    refine ⟨.any (List.cons_ne_nil _ _) ?_, hatom "e" (by simp)⟩
    exact List.forall_mem_cons.2 ⟨hatom "a" (by simp), List.forall_mem_singleton.2 hinner⟩
  have htext : f.text? = some "(a || b && (c || d)) && e" := by decide
  obtain ⟨text, ht, hvalue⟩ := IsBuilt.evaluate_text hf
  obtain rfl := Option.some.inj (ht.symm.trans htext)
  refine ⟨hf, ht, fun v => (hvalue v).trans ?_⟩
  simp [f, inner, holds, allPartsHold, somePartHolds]

end Nested

end AppPipeline.Guard
