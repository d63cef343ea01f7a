import AppPipeline.Json.Basic

/-!
# Texts in data

All keys and texts of data (`texts`); what holds of them holds of those of each part
(`forall_texts_list`, `forall_texts_object`).
-/

namespace AppPipeline.Json

mutual

/-- All keys and texts of the data. -/
def texts : Json → List String
  | .str s => [s]
  | .list xs => itemTexts xs
  | .object es => fieldTexts es
  | _ => []
termination_by structural j => j

def itemTexts : List Json → List String
  | [] => []
  | x :: xs => texts x ++ itemTexts xs
termination_by structural xs => xs

def fieldTexts : List (String × Json) → List String
  | [] => []
  | (k, v) :: es => k :: texts v ++ fieldTexts es
termination_by structural es => es

end

theorem forall_texts_str {P : String → Prop} {s : String} :
    (∀ t ∈ (Json.str s).texts, P t) ↔ P s := List.forall_mem_singleton

theorem forall_texts_list {P : String → Prop} {items : List Json} :
    (∀ t ∈ (Json.list items).texts, P t) ↔ ∀ j ∈ items, ∀ t ∈ j.texts, P t := by
  rw [texts]
  induction items with
  | nil => simp [itemTexts]
  | cons j rest ih => simp only [itemTexts, List.forall_mem_append, ih, List.forall_mem_cons]

theorem forall_texts_object {P : String → Prop} {fields : List (String × Json)} :
    (∀ t ∈ (Json.object fields).texts, P t) ↔ ∀ f ∈ fields, P f.1 ∧ ∀ t ∈ f.2.texts, P t := by
  rw [texts]
  induction fields with
  | nil => simp [fieldTexts]
  | cons f rest ih =>
    obtain ⟨key, j⟩ := f
    simp only [fieldTexts, List.cons_append, List.forall_mem_cons, List.forall_mem_append, ih,
      and_assoc]

end AppPipeline.Json
