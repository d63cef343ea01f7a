import AppPipeline.Matrix.Entry
import AppPipeline.Proofs.Config.Record

/-!
# Entries without a fixture

The data of an entry may leave the fixture out. Then the configuration is read on its own and
its package manager decides the fixture; name and configuration are those of the entry with a
fixture. The two ways of reading differ in what counts as no configuration at all: with a
fixture that is null, without one it is any void value (`read_without_fixture`).
-/

namespace AppPipeline.Matrix.Entry

/-- The data of an entry that leaves its fixture out. -/
def shortData (name : String) (d : Json) : Json := .object [("name", .str name), ("config", d)]

def completeData (name : String) (d : Json) (fixture : String) : Json :=
  .object [("name", .str name), ("config", d), ("fixture", .str fixture)]

/-- The data mean the configuration: they are read as it, or they count as nothing and it is the
default one. -/
def Means (nothing : Bool) (d : Json) (c : Config) : Prop :=
  (nothing = true ∧ c = {}) ∨ (Config.read d).toExcept = .ok c

variable {name fixture : String} {d : Json} {c : Config} {e : Entry}

/-- What is made of an accepted value exists exactly if nothing is at fault. -/
theorem exists_ok_iff {α β : Type} {r : Reading α} {f : α → β} {b : β} :
    (∃ a, r.toExcept = .ok a ∧ b = f a) ↔ r.faults = [] ∧ b = f r.value := by
  simp only [Reading.toExcept_eq_ok_iff]
  constructor
  · rintro ⟨_, ⟨hnone, rfl⟩, hb⟩
    exact ⟨hnone, hb⟩
  · rintro ⟨hnone, hb⟩
    exact ⟨_, ⟨hnone, rfl⟩, hb⟩

/-- Only an object is read as a configuration. -/
theorem exists_fields_of_read (h : (Config.read d).toExcept = .ok c) :
    ∃ fields, d = .object fields := by
  cases d with
  | object fields => exact ⟨fields, rfl⟩
  | _ => cases h

/-! ## Without a fixture -/

/-- Where nothing is said of the configuration, the empty object is read. -/
theorem means_isVoid_iff :
    Means d.isVoid d c ↔ (Config.read (if d.isVoid then .object [] else d)).toExcept = .ok c := by
  rw [Means]
  cases hvoid : d.isVoid with
  | false => simp
  | true =>
    have hempty : (Config.read (.object [])).toExcept = .ok {} := rfl
    rw [if_pos rfl, hempty, Except.ok.injEq]
    constructor
    · rintro (⟨_, rfl⟩ | hread)
      · rfl
      · obtain ⟨fields, rfl⟩ := exists_fields_of_read hread
        obtain rfl : fields = [] := List.isEmpty_iff.1 hvoid
        exact Except.ok.inj (hempty.symm.trans hread)
    · rintro rfl
      exact .inl ⟨rfl, rfl⟩

theorem read_shortData_iff :
    (read (shortData name d)).toExcept = .ok e ↔ ∃ c, Means d.isVoid d c ∧ e = make name c := by
  have hname : nameField.readRequired (present [("name", .str name), ("config", d)]) = .pure name :=
    Field.readRequired_present rfl Json.noConfusion rfl
  have hshort : read (shortData name d) = readShort [("name", .str name), ("config", d)] := rfl
  have hgiven : (List.lookup "config" [("name", Json.str name), ("config", d)]).getD .null = d := rfl
  simp only [means_isVoid_iff]
  rw [hshort, readShort, hgiven]
  generalize Config.read (if d.isVoid then .object [] else d) = config
  rw [exists_ok_iff]
  simp only [hname, Reading.toExcept_eq_ok_iff]
  split
  · next hnone => simp [List.isEmpty_iff.1 hnone, Reading.pure, eq_comm]
  · next hsome =>
    have hfaults : config.faults ≠ [] := fun h => hsome (List.isEmpty_iff.2 h)
    simp [hfaults]

/-! ## With a fixture -/

theorem read_configField_iff :
    (configField.read (present [("name", .str name), ("config", d), ("fixture", .str fixture)])).toExcept
      = .ok c ↔ Means (d == .null) d c := by
  have hkeys : ([("name", Json.str name), ("config", d), ("fixture", .str fixture)].map
      Prod.fst).Nodup := by simp
  have hgiven : configField.given? [("name", .str name), ("config", d), ("fixture", .str fixture)]
      = (some d).filter (· != .null) := by
    rw [Field.given?_eq, lookup_present hkeys, lookup_present hkeys]
    exact Option.or_self
  rw [← Field.Holds, Field.holds_iff_gives, hgiven, Option.filter_some, Means]
  by_cases hd : d = .null
  · subst hd
    constructor
    · intro hdefault
      exact .inl ⟨rfl, hdefault.symm⟩
    · rintro (⟨_, rfl⟩ | hread)
      · rfl
      · cases hread
  · rw [if_pos (bne_iff_ne.2 hd), beq_false_of_ne hd]
    simp [Field.Gives, configField]

theorem read_completeData_iff (hfixture : fixture ≠ "") :
    (read (completeData name d fixture)).toExcept = .ok e ↔
      ∃ c, Means (d == .null) d c ∧ e = ⟨name, c, fixture⟩ := by
  have hvoid : (Json.str fixture).isVoid = false := beq_false_of_ne hfixture
  have hfield : List.lookup "fixture" [("name", Json.str name), ("config", d),
      ("fixture", .str fixture)] = some (.str fixture) := rfl
  have hname : nameField.readRequired (present [("name", .str name), ("config", d),
      ("fixture", .str fixture)]) = .pure name :=
    Field.readRequired_present rfl Json.noConfusion rfl
  have hplace : fixtureField.readRequired (present [("name", .str name), ("config", d),
      ("fixture", .str fixture)]) = .pure fixture :=
    Field.readRequired_present rfl Json.noConfusion rfl
  rw [completeData, read, hfield, Option.getD_some, hvoid, readComplete]
  have hmeans : ∀ c, Means (d == .null) d c ↔ (configField.read (present
      [("name", .str name), ("config", d), ("fixture", .str fixture)])).toExcept = .ok c :=
    fun _ => read_configField_iff.symm
  simp only [hmeans]
  generalize configField.read _ = config
  rw [exists_ok_iff]
  simp [hname, hplace, Reading.toExcept_eq_ok_iff, Reading.pure, @eq_comm _ e]

/-! ## Both -/

/-- The two ways mean the same configurations by data that do not count as nothing in only one
of them. -/
theorem means_iff_means :
    (∀ c, Means d.isVoid d c ↔ Means (d == .null) d c) ↔
      (d.isVoid = true → d = .null ∨ d = .object []) := by
  constructor
  · intro hall hvoid
    rcases (hall {}).1 (.inl ⟨hvoid, rfl⟩) with ⟨hnull, _⟩ | hread
    · exact .inl (eq_of_beq hnull)
    · obtain ⟨fields, rfl⟩ := exists_fields_of_read hread
      rw [List.isEmpty_iff.1 hvoid]
      exact .inr rfl
  · intro hvoid c
    cases hd : d.isVoid with
    | false =>
      have hne : d ≠ .null := by
        rintro rfl
        cases hd
      rw [beq_false_of_ne hne]
    | true =>
      rcases hvoid hd with rfl | rfl
      · rfl
      · rw [← hd, means_isVoid_iff, if_pos hd, beq_false_of_ne (by simp), Means]
        simp

/-- An entry is read from data without a fixture exactly if the configuration in it is void or
accepted, and it then stands on the fixture of its package manager; from data with a fixture, if
the configuration is null or accepted. So name and configuration are the same in both, unless
the data for the configuration are void and neither null nor an empty object: such data are
refused beside a fixture and taken for the default configuration without one. -/
theorem read_without_fixture (name : String) (d : Json) :
    (∀ e, (read (shortData name d)).toExcept = .ok e ↔
      ∃ c, Means d.isVoid d c ∧ e = make name c) ∧
    (∀ fixture, fixture ≠ "" → ∀ e, (read (completeData name d fixture)).toExcept = .ok e ↔
      ∃ c, Means (d == .null) d c ∧ e = ⟨name, c, fixture⟩) ∧
    ((∀ c, Means d.isVoid d c ↔ Means (d == .null) d c) ↔
      (d.isVoid = true → d = .null ∨ d = .object [])) :=
  ⟨fun _ => read_shortData_iff, fun _ hfixture _ => read_completeData_iff hfixture, means_iff_means⟩

/-- An empty list for a configuration is refused only beside a fixture. -/
theorem read_without_fixture_list :
    "app" ≠ "" ∧ (read (shortData "x" (.list []))).toExcept = .ok (make "x" {}) ∧
      ∀ e, (read (completeData "x" (.list []) "app")).toExcept ≠ .ok e := by
  have happ : "app" ≠ "" := by decide
  have hreads := read_without_fixture "x" (.list [])
  refine ⟨happ, (hreads.1 _).2 ⟨{}, .inl ⟨rfl, rfl⟩, rfl⟩, fun e he => ?_⟩
  obtain ⟨c, hc, _⟩ := (hreads.2.1 "app" happ e).1 he
  rcases hc with ⟨hnull, _⟩ | hread
  · cases hnull
  · cases hread

end AppPipeline.Matrix.Entry
