import AppPipeline.Proofs.Workflow.Accepted

/-!
# Accepted steps, and steps without problems

Two checks decide whether a step is of one kind: `Step.check` by the texts that are
not blank, and the check of its data form by the keys that are there. They agree on
steps without a blank text:

* `isStep_toJson_iff`: the data form has no problem exactly if the step is proper;
* `proper_iff`: the proper steps are the accepted ones without a blank text;
* `check_spec`: which steps are accepted, and that the blank texts are what the two
  checks disagree about.
-/

namespace AppPipeline.Step

/-! ## Texts -/

/-- There is a text, and stripping leaves something of it. -/
def IsInked (text : Option String) : Prop := ∃ t, text = some t ∧ Text.strip t ≠ ""

/-- There is a text, and stripping leaves nothing of it. -/
def IsBlank (text : Option String) : Prop := ∃ t, text = some t ∧ Text.strip t = ""

theorem isSet_iff (text : Option String) : isSet text = true ↔ IsInked text := by
  cases text <;> simp [isSet, IsInked, Text.strip_ne_empty_iff]

theorem IsBlank.not_isInked {text : Option String} (h : IsBlank text) : ¬ IsInked text := by
  obtain ⟨t, rfl, hblank⟩ := h
  rintro ⟨_, ⟨⟩, hink⟩
  exact hink hblank

theorem eq_none_of_not_isInked {text : Option String} (hink : ¬ IsInked text)
    (hblank : ¬ IsBlank text) : text = none := by
  cases text with
  | none => rfl
  | some t =>
    by_cases h : Text.strip t = ""
    · exact absurd ⟨t, rfl, h⟩ hblank
    · exact absurd ⟨t, rfl, h⟩ hink

/-! ## Accepted steps -/

theorem check_eq_ok_iff (s : Step) : s.check = .ok s ↔ Xor (IsInked s.run) (IsInked s.uses) := by
  rw [← isSet_iff, ← isSet_iff, check]
  cases isSet s.run <;> cases isSet s.uses <;> simp [Xor]

theorem check_eq_error_iff (s : Step) :
    s.check = .error (.notOneOf s.name) ↔ ¬ Xor (IsInked s.run) (IsInked s.uses) := by
  rw [← isSet_iff, ← isSet_iff, check]
  cases isSet s.run <;> cases isSet s.uses <;> simp [Xor]

/-- The proper steps are the accepted ones in which no text is blank. -/
theorem proper_iff (s : Step) :
    s.Proper ↔ s.check = .ok s ∧ ¬ (IsBlank s.run ∨ IsBlank s.uses) := by
  constructor
  · intro h
    refine ⟨h.check_eq, ?_⟩
    rcases h with ⟨t, hrun, hink, huses⟩ | ⟨t, huses, hink, hrun⟩ <;>
      rw [← Text.strip_ne_empty_iff] at hink <;> simp [hrun, huses, IsBlank, hink]
  · rintro ⟨hcheck, hblank⟩
    obtain ⟨hrun, huses⟩ := not_or.1 hblank
    rcases (check_eq_ok_iff s).1 hcheck with ⟨⟨t, ht, hink⟩, hother⟩ | ⟨⟨t, ht, hink⟩, hother⟩
    · exact .inl ⟨t, ht, (Text.strip_ne_empty_iff t).1 hink, eq_none_of_not_isInked hother huses⟩
    · exact .inr ⟨t, ht, (Text.strip_ne_empty_iff t).1 hink, eq_none_of_not_isInked hother hrun⟩

/-! ## The data form -/

/-- The data form of the step has the key. -/
def HasKey (s : Step) (key : String) : Prop := ∃ v, s.toJson.field? key = some v

theorem hasKey_run (s : Step) : s.HasKey "run" ↔ ∃ t, s.run = some t := by
  simp [HasKey, field?_run]

theorem hasKey_uses (s : Step) : s.HasKey "uses" ↔ ∃ t, s.uses = some t := by
  simp [HasKey, field?_uses]

theorem isShell_iff (s : Step) : s.isShell = true ↔ s.HasKey "run" := by
  rw [hasKey_run, isShell, Option.isSome_iff_exists]

theorem Proper.xor_hasKey {s : Step} (h : s.Proper) : Xor (s.HasKey "run") (s.HasKey "uses") := by
  rw [hasKey_run, hasKey_uses]
  rcases h with ⟨t, hrun, -, huses⟩ | ⟨t, huses, -, hrun⟩ <;> simp [hrun, huses, Xor]

/-- The data form has no problem exactly if the step is proper. -/
theorem isStep_toJson_iff (s : Step) : s.toJson.IsStep ↔ s.Proper := by
  refine ⟨fun ⟨fields, hfields, h⟩ => ?_, Proper.isStep⟩
  have hrun : fields.lookup "run" = s.run.map .str := by
    rw [← field?_run, hfields, Json.field?]
  have huses : fields.lookup "uses" = s.uses.map .str := by
    rw [← field?_uses, hfields, Json.field?]
  rw [hrun, huses] at h
  simp only [Json.Inked, Option.map_eq_some_iff, Option.map_eq_none_iff] at h
  rcases h with ⟨⟨t, ⟨_, ht, ⟨⟩⟩, hink⟩, hnone⟩ | ⟨⟨t, ⟨_, ht, ⟨⟩⟩, hink⟩, hnone⟩
  · exact .inl ⟨t, ht, hink, hnone⟩
  · exact .inr ⟨t, ht, hink, hnone⟩

theorem stepProblem?_of_both {s : Step} (hrun : s.HasKey "run") (huses : s.HasKey "uses")
    (knots : Knots) :
    Validation.stepProblem? knots (Value.ofJson s.toJson) = some .bothKinds := by
  obtain ⟨r, hr⟩ := hrun
  obtain ⟨u, hu⟩ := huses
  rw [toJson, Json.field?] at hr hu
  rw [toJson, Validation.stepProblem?, Value.resolve_ofJson, Value.ofJson]
  simp only [Validation.hasField_ofFields, hr, hu]
  rfl

/-- An accepted step with a blank text has both texts. -/
theorem hasKey_of_isBlank {s : Step} (h : s.check = .ok s)
    (hblank : IsBlank s.run ∨ IsBlank s.uses) : s.HasKey "run" ∧ s.HasKey "uses" := by
  rw [hasKey_run, hasKey_uses]
  rcases (check_eq_ok_iff s).1 h with ⟨⟨t, hrun, hink⟩, -⟩ | ⟨⟨t, huses, hink⟩, -⟩
  · obtain ⟨u, huses, -⟩ := hblank.resolve_left fun hb => hb.not_isInked ⟨t, hrun, hink⟩
    exact ⟨⟨t, hrun⟩, ⟨u, huses⟩⟩
  · obtain ⟨r, hrun, -⟩ := hblank.resolve_right fun hb => hb.not_isInked ⟨t, huses, hink⟩
    exact ⟨⟨r, hrun⟩, ⟨t, huses⟩⟩

/-- A step is accepted exactly if one of its texts, and not the other, is more than blank
characters, else it is refused by its name. Of an accepted step the data form has one of the two
keys, by which it is a shell step or not, and no problem, if no text is blank; but if one is, it
has both keys, for which the validation refuses it. -/
theorem check_spec (s : Step) :
    (s.check = .ok s ↔ Xor (IsInked s.run) (IsInked s.uses)) ∧
    (s.check = .error (.notOneOf s.name) ↔ ¬ Xor (IsInked s.run) (IsInked s.uses)) ∧
    (s.isShell = true ↔ s.HasKey "run") ∧
    (s.check = .ok s → ¬ (IsBlank s.run ∨ IsBlank s.uses) →
      Xor (s.HasKey "run") (s.HasKey "uses") ∧
      ∀ knots, Validation.stepProblem? knots (Value.ofJson s.toJson) = none) ∧
    (s.check = .ok s → IsBlank s.run ∨ IsBlank s.uses →
      s.HasKey "run" ∧ s.HasKey "uses" ∧
      ∀ knots, Validation.stepProblem? knots (Value.ofJson s.toJson) = some .bothKinds) := by
  refine ⟨check_eq_ok_iff s, check_eq_error_iff s, isShell_iff s, fun h hblank => ?_,
    fun h hblank => ?_⟩
  · have hproper := (proper_iff s).2 ⟨h, hblank⟩
    exact ⟨hproper.xor_hasKey, fun knots =>
      (Validation.stepProblem?_eq_none_iff knots s.toJson).2 ((isStep_toJson_iff s).2 hproper)⟩
  · obtain ⟨hrun, huses⟩ := hasKey_of_isBlank h hblank
    exact ⟨hrun, huses, stepProblem?_of_both hrun huses⟩

/-- An empty command beside an action: the step is accepted, is a shell step and has a problem. -/
theorem check_spec_emptyCommand :
    ∃ s : Step, s.run = some "" ∧ s.uses = some "actions/checkout@v4" ∧ s.check = .ok s ∧
      s.isShell = true ∧ s.HasKey "run" ∧ s.HasKey "uses" ∧
      ∀ knots, Validation.stepProblem? knots (Value.ofJson s.toJson) = some .bothKinds := by
  let s : Step := { name := some "x", run := some "", uses := some "actions/checkout@v4" }
  have hcheck : s.check = .ok s := by decide
  have hblank : IsBlank s.run := ⟨"", rfl, by decide⟩
  obtain ⟨hrun, huses, hproblem⟩ := (check_spec s).2.2.2.2 hcheck (.inl hblank)
  exact ⟨s, rfl, rfl, hcheck, rfl, hrun, huses, hproblem⟩

end AppPipeline.Step
