import Mathlib.Data.List.Nodup
import AppPipeline.Config.Reader
import AppPipeline.Proofs.Json.RoundTrip

/-!
# Configurations come back from their data form

A field of the data form is read under its data name; one that is unset was left
out and takes its default. So the data form of a configuration, and that of its
options, are read as they were (`Config.read_toJson`, `Options.read_toJson`). The
data form can be stored as a text if the texts in it are sound
(`Config.isStorable_toJson`); it has at most three levels.
-/

namespace AppPipeline

/-! ## Fields that are not null -/

theorem present_present (fields : List (String × Json)) :
    present (present fields) = present fields := by
  rw [present, present, List.filter_filter]
  simp only [Bool.and_self]

theorem keys_present_sublist (fields : List (String × Json)) :
    ((present fields).map Prod.fst).Sublist (fields.map Prod.fst) :=
  List.filter_sublist.map Prod.fst

theorem lookup_present {fields : List (String × Json)} (h : (fields.map Prod.fst).Nodup)
    (key : String) : (present fields).lookup key = (fields.lookup key).filter (· != .null) := by
  induction fields with
  | nil => rfl
  | cons f rest ih =>
    obtain ⟨k, v⟩ := f
    rw [List.map_cons, List.nodup_cons] at h
    have hrest := ih h.2
    rw [present] at hrest
    rw [present, List.filter_cons, List.lookup_cons]
    by_cases hk : key = k
    · subst hk
      have hnone : rest.lookup key = none := by
        rw [List.lookup_eq_none_iff]
        intro p hp
        rw [bne_iff_ne]
        rintro rfl
        exact h.1 (List.mem_map.2 ⟨p, hp, rfl⟩)
      cases hv : v != .null <;> simp [hv, hrest, hnone, Option.filter_some]
    · have hne : (key == k) = false := beq_false_of_ne hk
      cases hv : v != .null <;> simp [hrest, List.lookup_cons, hne]

theorem lookup_present_of_ne_null {fields : List (String × Json)} {key : String} {j : Json}
    (h : fields.lookup key = some j) (hj : j ≠ .null) :
    (present fields).lookup key = some j := by
  induction fields with
  | nil => cases h
  | cons f rest ih =>
    obtain ⟨k, v⟩ := f
    rw [present] at ih
    rw [present, List.filter_cons]
    rw [List.lookup_cons] at h
    cases hk : key == k with
    | true =>
      rw [hk] at h
      cases h
      have hv : (j != .null) = true := bne_iff_ne.2 hj
      simp [hv, List.lookup_cons, hk]
    | false =>
      rw [hk] at h
      cases v != .null <;> simp [List.lookup_cons, hk, ih h]

/-! ## Single fields -/

namespace Field

variable {α : Type} {f : Field α} {all : List (String × Json)}

theorem find?_present {j : Json} (hj : all.lookup f.dataName = some j) (hn : j ≠ .null) :
    f.find? (present all) = some (f.dataName, j) := by
  rw [find?, lookup_present_of_ne_null hj hn]

theorem find?_present_null (hk : (all.map Prod.fst).Nodup)
    (hj : all.lookup f.dataName = some .null) (hp : all.lookup f.plainName = none) :
    f.find? (present all) = none := by
  rw [find?, lookup_present hk, lookup_present hk, hj, hp]
  rfl

/-- A field is read as what its data form is read as. -/
theorem read_present {j : Json} {a : α}
    (hj : all.lookup f.dataName = some j) (hn : j ≠ .null) (hr : f.readValue j = .pure a) :
    f.read (present all) = .pure a := by
  rw [read, find?_present hj hn]
  show (f.readValue j).under f.dataName = .pure a
  rw [hr]
  rfl

theorem readRequired_present {j : Json} {a : α}
    (hj : all.lookup f.dataName = some j) (hn : j ≠ .null) (hr : f.readValue j = .pure a) :
    f.readRequired (present all) = .pure a := by
  rw [readRequired, find?_present hj hn]
  show (f.readValue j).under f.dataName = .pure a
  rw [hr]
  rfl

/-- A field that may be unset is unset where it was left out. -/
theorem read_present_option {f : Field (Option α)} {g : α → Json} {o : Option α}
    (hk : (all.map Prod.fst).Nodup) (hj : all.lookup f.dataName = some (optionJson g o))
    (hp : all.lookup f.plainName = none) (hd : f.default = none)
    (hg : ∀ a, g a ≠ .null ∧ f.readValue (g a) = .pure (some a)) :
    f.read (present all) = .pure o := by
  cases o with
  | none =>
    rw [read, find?_present_null hk hj hp, hd]
  | some a => exact read_present hj (hg a).1 (hg a).2

end Field

/-! ## Single values -/

section

variable {α : Type} [Choice α] [LawfulChoice α]

theorem choiceOf?_choiceJson (a : α) : choiceOf? (choiceJson a) = some a :=
  LawfulChoice.find?_name a

theorem readChoice_choiceJson (default a : α) : readChoice default (choiceJson a) = .pure a := by
  rw [readChoice, choiceOf?_choiceJson]

theorem readOptionalChoice_choiceJson (a : α) :
    readOptionalChoice (choiceJson a) = .pure (some a) := by
  rw [readOptionalChoice, choiceOf?_choiceJson]

theorem readChoices_choicesJson (xs : List α) : readChoices (choicesJson xs) = .pure xs := by
  have hitems : ∀ i, readItems i (xs.map choiceJson) = .pure xs := by
    induction xs with
    | nil => exact fun _ => rfl
    | cons x xs ih =>
      intro i
      rw [List.map_cons, readItems, choiceOf?_choiceJson, ih]
      rfl
  exact hitems 0

end

/-! ## Options -/

namespace Options

/-- The fields of the data form, null where a field is left out. -/
def written (o : Options) : List (String × Json) :=
  [("iOSSupport", .bool o.iosSupport),
   ("publishToExpo", .bool o.publishToExpo),
   ("publishToStores", .bool o.publishToStores),
   ("jestTests", .bool o.jestTests),
   ("rntlTests", .bool o.rntlTests),
   ("renderHookTests", .bool o.renderHookTests),
   ("caching", .bool o.caching),
   ("notifications", .bool o.notifications),
   ("notificationType", optionJson choiceJson o.notificationType)]

theorem toJson_eq (o : Options) : o.toJson = .object (present o.written) := rfl

theorem nodup_written (o : Options) : (o.written.map Prod.fst).Nodup := by
  simp [written]

theorem read_switch {dataName plainName : String} {default b : Bool} {all : List (String × Json)}
    (hj : all.lookup dataName = some (.bool b)) :
    (switch dataName plainName default).read (present all) = .pure b :=
  Field.read_present hj Json.noConfusion rfl

theorem read_toJson (o : Options) : read o.toJson = .pure o := by
  have hk := o.nodup_written
  have hios : iosSupportField.read (present o.written) = .pure o.iosSupport := read_switch rfl
  have hexpo : publishToExpoField.read (present o.written) = .pure o.publishToExpo :=
    read_switch rfl
  have hstores : publishToStoresField.read (present o.written) = .pure o.publishToStores :=
    read_switch rfl
  have hjest : jestTestsField.read (present o.written) = .pure o.jestTests := read_switch rfl
  have hrntl : rntlTestsField.read (present o.written) = .pure o.rntlTests := read_switch rfl
  have hhooks : renderHookTestsField.read (present o.written) = .pure o.renderHookTests :=
    read_switch rfl
  have hcaching : cachingField.read (present o.written) = .pure o.caching := read_switch rfl
  have hnotifications : notificationsField.read (present o.written) = .pure o.notifications :=
    read_switch rfl
  have htype : notificationTypeField.read (present o.written) = .pure o.notificationType :=
    Field.read_present_option hk rfl rfl rfl
      fun a => ⟨Json.noConfusion, readOptionalChoice_choiceJson a⟩
  rw [toJson_eq, read, readFields, present_present]
  simp only [hios, hexpo, hstores, hjest, hrntl, hhooks, hcaching, hnotifications, htype]
  rfl

end Options

/-! ## Configurations -/

namespace Config

/-- The fields of the data form, null where a field is left out. -/
def written (c : Config) : List (String × Json) :=
  [("projectName", optionJson .str c.projectName),
   ("packageManager", choiceJson c.packageManager),
   ("storageType", choiceJson c.storage),
   ("buildTypes", choicesJson c.buildTypes),
   ("tests", choicesJson c.tests),
   ("triggers", choicesJson c.triggers),
   ("nodeVersion", .str c.nodeVersion),
   ("advancedOptions", c.options.toJson)]

theorem toJson_eq (c : Config) : c.toJson = .object (present c.written) := rfl

theorem nodup_written (c : Config) : (c.written.map Prod.fst).Nodup := by
  simp [written]

theorem read_toJson (c : Config) : read c.toJson = .pure c := by
  have hk := c.nodup_written
  have hname : projectNameField.read (present c.written) = .pure c.projectName :=
    Field.read_present_option hk rfl rfl rfl fun a => ⟨Json.noConfusion, rfl⟩
  have hmanager : packageManagerField.read (present c.written) = .pure c.packageManager :=
    Field.read_present rfl Json.noConfusion (readChoice_choiceJson _ _)
  have hstorage : storageField.read (present c.written) = .pure c.storage :=
    Field.read_present rfl Json.noConfusion (readChoice_choiceJson _ _)
  have hbuilds : buildTypesField.read (present c.written) = .pure c.buildTypes :=
    Field.read_present rfl Json.noConfusion (readChoices_choicesJson _)
  have htests : testsField.read (present c.written) = .pure c.tests :=
    Field.read_present rfl Json.noConfusion (readChoices_choicesJson _)
  have htriggers : triggersField.read (present c.written) = .pure c.triggers :=
    Field.read_present rfl Json.noConfusion (readChoices_choicesJson _)
  have hversion : nodeVersionField.read (present c.written) = .pure c.nodeVersion :=
    Field.read_present rfl Json.noConfusion rfl
  have hoptions : optionsField.read (present c.written) = .pure c.options :=
    Field.read_present rfl Json.noConfusion (Options.read_toJson c.options)
  rw [toJson_eq, read, readFields, present_present]
  simp only [hname, hmanager, hstorage, hbuilds, htests, htriggers, hversion, hoptions]
  rfl

end Config

/-! ## Stored data forms -/

theorem isStorable_present {fields : List (String × Json)} (hk : (fields.map Prod.fst).Nodup)
    (hs : ∀ k ∈ fields.map Prod.fst, Text.IsSound k) (hv : ∀ f ∈ fields, f.2.IsStorable) :
    (Json.object (present fields)).IsStorable :=
  .object (hk.sublist (keys_present_sublist fields))
    (fun _ hf => hs _ (List.mem_map_of_mem (List.mem_of_mem_filter hf)))
    fun f hf => hv f (List.mem_of_mem_filter hf)

theorem levels_present_le {fields : List (String × Json)} {n : Nat}
    (h : ∀ f ∈ fields, f.2.levels ≤ n) : (Json.object (present fields)).levels ≤ n + 1 :=
  Nat.succ_le_succ (Json.fieldLevels_le fun f hf => h f (List.mem_of_mem_filter hf))

theorem isStorable_optionJson {α : Type} {g : α → Json} {o : Option α}
    (h : ∀ a ∈ o, (g a).IsStorable) : (optionJson g o).IsStorable := by
  cases o with
  | none => exact .null
  | some a => exact h a rfl

theorem levels_optionJson_le {α : Type} {g : α → Json} {n : Nat} (hn : 1 ≤ n)
    (h : ∀ a, (g a).levels ≤ n) (o : Option α) : (optionJson g o).levels ≤ n := by
  cases o with
  | none => exact hn
  | some a => exact h a

/-- The names of a choice are sound texts. -/
class SoundChoice (α : Type) [Choice α] : Prop where
  isSound_name : ∀ a : α, Text.IsSound (Choice.name a)

instance : SoundChoice PackageManager where
  isSound_name a := Text.isSound_of_lt (by cases a <;> decide)

instance : SoundChoice Storage where
  isSound_name a := Text.isSound_of_lt (by cases a <;> decide)

instance : SoundChoice BuildType where
  isSound_name a := Text.isSound_of_lt (by cases a <;> decide)

instance : SoundChoice TestKind where
  isSound_name a := Text.isSound_of_lt (by cases a <;> decide)

instance : SoundChoice Trigger where
  isSound_name a := Text.isSound_of_lt (by cases a <;> decide)

instance : SoundChoice Notification where
  isSound_name a := Text.isSound_of_lt (by cases a <;> decide)

theorem isStorable_choiceJson {α : Type} [Choice α] [SoundChoice α] (a : α) :
    (choiceJson a).IsStorable := .str (SoundChoice.isSound_name a)

theorem isStorable_choicesJson {α : Type} [Choice α] [SoundChoice α] (xs : List α) :
    (choicesJson xs).IsStorable :=
  .list (List.forall_mem_map.2 fun a _ => isStorable_choiceJson a)

theorem levels_choicesJson_le {α : Type} [Choice α] (xs : List α) : (choicesJson xs).levels ≤ 2 :=
  Nat.succ_le_succ (Json.itemLevels_le (List.forall_mem_map.2 fun _ _ => Nat.le_refl 1))

namespace Options

theorem isSound_keys_written (o : Options) : ∀ k ∈ o.written.map Prod.fst, Text.IsSound k := by
  refine Text.isSound_of_mem ?_
  simp only [written, List.map_cons, List.map_nil]
  decide

theorem isStorable_toJson (o : Options) : o.toJson.IsStorable := by
  have hvalues : ∀ f ∈ o.written, f.2.IsStorable := by
    simp only [written, List.forall_mem_cons]
    exact ⟨.bool _, .bool _, .bool _, .bool _, .bool _, .bool _, .bool _, .bool _,
      isStorable_optionJson fun a _ => isStorable_choiceJson a, List.forall_mem_nil _⟩
  exact isStorable_present o.nodup_written o.isSound_keys_written hvalues

theorem levels_toJson_le (o : Options) : o.toJson.levels ≤ 2 := by
  have htype : (optionJson choiceJson o.notificationType).levels ≤ 1 :=
    levels_optionJson_le (g := choiceJson) (Nat.le_refl 1) (fun _ => Nat.le_refl 1) _
  have hvalues : ∀ f ∈ o.written, f.2.levels ≤ 1 := by
    simp only [written, List.forall_mem_cons, Json.levels, Nat.le_refl, true_and]
    exact ⟨htype, List.forall_mem_nil _⟩
  exact levels_present_le hvalues

end Options

namespace Config

/-- The texts that a configuration holds are sound. -/
structure IsStorable (c : Config) : Prop where
  projectName : ∀ s ∈ c.projectName, Text.IsSound s
  nodeVersion : Text.IsSound c.nodeVersion

theorem isSound_keys_written (c : Config) : ∀ k ∈ c.written.map Prod.fst, Text.IsSound k := by
  refine Text.isSound_of_mem ?_
  simp only [written, List.map_cons, List.map_nil]
  decide

theorem isStorable_toJson {c : Config} (h : c.IsStorable) : c.toJson.IsStorable := by
  have hvalues : ∀ f ∈ c.written, f.2.IsStorable := by
    simp only [written, List.forall_mem_cons]
    exact ⟨isStorable_optionJson fun s hs => .str (h.projectName s hs), isStorable_choiceJson _,
      isStorable_choiceJson _, isStorable_choicesJson _, isStorable_choicesJson _,
      isStorable_choicesJson _, .str h.nodeVersion, c.options.isStorable_toJson,
      List.forall_mem_nil _⟩
  exact isStorable_present c.nodup_written c.isSound_keys_written hvalues

theorem levels_toJson_le (c : Config) : c.toJson.levels ≤ 3 := by
  have hname : (optionJson Json.str c.projectName).levels ≤ 2 :=
    levels_optionJson_le (g := Json.str) (Nat.le_succ 1) (fun _ => Nat.le_succ 1) _
  have hvalues : ∀ f ∈ c.written, f.2.levels ≤ 2 := by
    simp only [written, List.forall_mem_cons]
    exact ⟨hname, Nat.le_succ 1, Nat.le_succ 1, levels_choicesJson_le _, levels_choicesJson_le _,
      levels_choicesJson_le _, Nat.le_succ 1, c.options.levels_toJson_le, List.forall_mem_nil _⟩
  exact levels_present_le hvalues

end Config

end AppPipeline
