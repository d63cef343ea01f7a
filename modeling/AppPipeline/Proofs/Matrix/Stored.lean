import AppPipeline.Matrix.Store
import AppPipeline.Proofs.Config.RoundTrip

/-!
# Stored matrices are loaded

The data form of an entry is read as the entry, if its fixture is not empty; and
reading never yields an entry whose fixture is empty (`Entry.exists_read_iff`). So
a matrix of entries with sound texts comes back from its text (`parse_fileText`) and
from the file that it was saved in, entry by entry (`load_save`).
-/

namespace AppPipeline

open Files

/-! ## Files with line feeds only -/

theorem Text.unifyBreaks_eq_self {s : List Char} (h : '\r' ∉ s) : Text.unifyBreaks s = s := by
  induction s with
  | nil => rfl
  | cons c s ih =>
    rw [List.mem_cons, not_or] at h
    have hc : c ≠ '\r' := fun he => h.1 he.symm
    rw [Text.unifyBreaks]
    · rw [if_neg hc, ih h.2]
    · rintro s rfl
      exact absurd rfl hc

namespace Files.FileTree

theorem holds_of_read {t : FileTree} {p : Path} {text : String} (h : t.read p = .ok text) :
    t.holds p = true := by
  rw [read] at h
  split at h
  · cases h
  · rw [holds]
    split at h
    · next hspot => rw [hspot]
    all_goals cases h

/-- What was saved is read again. -/
theorem read_save {t u : FileTree} {p : Path} {text : String} (h : t.save p text = .ok u)
    (hbreaks : '\r' ∉ text.toList) : u.read p = .ok text := by
  rw [save] at h
  cases hfolders : t.makeFolders p.parent with
  | error f =>
    rw [hfolders] at h
    cases h
  | ok around =>
    rw [hfolders] at h
    rw [read_write around u p text h, Text.unifyBreaks_eq_self hbreaks, String.ofList_toList]

end Files.FileTree

namespace Matrix

/-! ## Single entries -/

namespace Entry

/-- The entry has a fixture, and its texts are sound, as all texts of characters are
(`Text.isSound_received`). -/
structure IsStorable (e : Entry) : Prop where
  name : Text.IsSound e.name
  config : e.config.IsStorable
  fixture : Text.IsSound e.fixture
  fixture_ne_empty : e.fixture ≠ ""

theorem read_toJson {e : Entry} (h : e.fixture ≠ "") : read e.toJson = .pure e := by
  have hvoid : (Json.str e.fixture).isVoid = false := beq_false_of_ne h
  have hname : nameField.readRequired (present [("name", .str e.name),
      ("config", e.config.toJson), ("fixture", .str e.fixture)]) = .pure e.name :=
    Field.readRequired_present rfl Json.noConfusion rfl
  have hconfig : configField.read (present [("name", .str e.name),
      ("config", e.config.toJson), ("fixture", .str e.fixture)]) = .pure e.config :=
    Field.read_present rfl Json.noConfusion (Config.read_toJson e.config)
  have hfixture : fixtureField.readRequired (present [("name", .str e.name),
      ("config", e.config.toJson), ("fixture", .str e.fixture)]) = .pure e.fixture :=
    Field.readRequired_present rfl Json.noConfusion rfl
  have hfield : List.lookup "fixture" [("name", Json.str e.name), ("config", e.config.toJson),
      ("fixture", .str e.fixture)] = some (.str e.fixture) := rfl
  rw [toJson, read, hfield, Option.getD_some, hvoid, readComplete]
  simp only [hname, hconfig, hfixture]
  rfl

theorem fixture_make_ne_empty (name : String) (c : Config) : (make name c).fixture ≠ "" := by
  show Choice.name c.packageManager ++ "-app" ≠ ""
  cases c.packageManager <;> decide

theorem fixture_readShort_ne_empty (fields : List (String × Json)) :
    (readShort fields).value.fixture ≠ "" := by
  rw [readShort]
  generalize Config.read _ = config
  dsimp only
  split
  · exact fixture_make_ne_empty _ _
  · exact fixture_make_ne_empty _ _

/-- A fixture that is given and not void is taken as it is. -/
theorem fixture_readComplete_ne_empty {fields : List (String × Json)}
    (hvoid : ((fields.lookup "fixture").getD .null).isVoid = false)
    (hfaults : (readComplete fields).faults = []) :
    (readComplete fields).value.fixture ≠ "" := by
  obtain ⟨given, hfield⟩ : ∃ given, fields.lookup "fixture" = some given := by
    rw [← Option.isSome_iff_exists, Option.isSome_iff_ne_none]
    intro hnone
    rw [hnone] at hvoid
    cases hvoid
  rw [hfield, Option.getD_some] at hvoid
  have hnull : given ≠ .null := by
    rintro rfl
    cases hvoid
  have hread : fixtureField.readRequired (present fields)
      = (readText "" given).under "fixture" := by
    rw [Field.readRequired, Field.find?_present hfield hnull]
    rfl
  rw [readComplete] at hfaults ⊢
  simp only [hread, List.append_eq_nil_iff] at hfaults ⊢
  cases given with
  | str s =>
    rintro rfl
    cases hvoid
  | _ => cases hfaults.2

/-- The fixture that was read is the one of the package manager or one that is not void. -/
theorem fixture_ne_empty_of_read {j : Json} {e : Entry} (h : (read j).toExcept = .ok e) :
    e.fixture ≠ "" := by
  rw [Reading.toExcept_eq_ok_iff] at h
  obtain ⟨hfaults, rfl⟩ := h
  cases j with
  | object fields =>
    by_cases hvoid : ((fields.lookup "fixture").getD .null).isVoid = true
    · rw [read, if_pos hvoid]
      exact fixture_readShort_ne_empty fields
    · rw [read, if_neg hvoid] at hfaults ⊢
      exact fixture_readComplete_ne_empty (Bool.eq_false_iff.2 hvoid) hfaults
  | _ => cases hfaults

/-- The entries that some data form is read as are those with a fixture. -/
theorem exists_read_iff (e : Entry) : (∃ j, (read j).toExcept = .ok e) ↔ e.fixture ≠ "" := by
  constructor
  · rintro ⟨j, h⟩
    exact fixture_ne_empty_of_read h
  · intro h
    exact ⟨e.toJson, by rw [read_toJson h]; rfl⟩

theorem isStorable_toJson {e : Entry} (h : e.IsStorable) : e.toJson.IsStorable := by
  have hkeys : ∀ k ∈ ["name", "config", "fixture"], Text.IsSound k :=
    Text.isSound_of_mem (by decide)
  refine .object (by simp) (fun f hf => hkeys f.1 (List.mem_map_of_mem hf)) ?_
  simp only [List.forall_mem_cons]
  exact ⟨.str h.name, Config.isStorable_toJson h.config, .str h.fixture, List.forall_mem_nil _⟩

theorem levels_toJson_le (e : Entry) : e.toJson.levels ≤ 4 := by
  refine Nat.succ_le_succ (Json.fieldLevels_le ?_)
  simp only [List.forall_mem_cons]
  exact ⟨Nat.le_add_left 1 2, e.config.levels_toJson_le, Nat.le_add_left 1 2,
    List.forall_mem_nil _⟩

theorem readAll_toJson {es : List Entry} (h : ∀ e ∈ es, e.fixture ≠ "") :
    readAll (es.map toJson) = .ok es := by
  induction es with
  | nil => rfl
  | cons e es ih =>
    obtain ⟨he, hes⟩ := List.forall_mem_cons.1 h
    rw [List.map_cons, readAll, read_toJson he, ih hes]
    rfl

end Entry

/-! ## Whole matrices -/

theorem isStorable_entries {es : List Entry} (h : ∀ e ∈ es, e.IsStorable) :
    (Json.list (es.map Entry.toJson)).IsStorable :=
  .list (List.forall_mem_map.2 fun e he => Entry.isStorable_toJson (h e he))

/-- A matrix comes back from its text. -/
theorem parse_fileText {es : List Entry} (h : ∀ e ∈ es, e.IsStorable) (path : String) :
    parse path (fileText es) = .ok es := by
  have hlevels : (Json.list (es.map Entry.toJson)).levels ≤ 5 :=
    Nat.succ_le_succ (Json.itemLevels_le (List.forall_mem_map.2 fun e _ => e.levels_toJson_le))
  have hdata : Json.parse (fileText es) = .ok (.list (es.map Entry.toJson)) :=
    Json.parse_indentedText (isStorable_entries h) (Nat.le_trans hlevels (by decide))
  rw [parse, hdata]
  simp only [Entry.readAll_toJson fun e he => (h e he).fixture_ne_empty]

theorem not_mem_fileText {es : List Entry} (h : ∀ e ∈ es, e.IsStorable) :
    '\r' ∉ (fileText es).toList := by
  intro hmem
  have hprinted : ∀ c ∈ (fileText es).toList, Json.IsPrinted c := by
    rw [fileText, Json.indentedText, String.toList_append, String.toList_ofList]
    exact Json.isPrinted_append ((isStorable_entries h).isPrinted 0) (by simp [Json.IsPrinted])
  rcases hprinted _ hmem with hc | hc
  · exact absurd hc (by decide)
  · exact absurd hc (by decide)

/-! ## Indices -/

theorem entryAt_of_lt {es : List Entry} {i : Nat} (hi : i < es.length) (path : String) :
    entryAt es i path = .ok es[i] := by
  have hempty : es.isEmpty = false := by
    rw [List.isEmpty_eq_false_iff]
    exact List.ne_nil_of_length_pos (Nat.zero_lt_of_lt hi)
  simp [entryAt, hempty, List.getElem?_eq_getElem hi]

/-- The fault of an index that no entry has. -/
def indexFailure (es : List Entry) (index : Int) (path : String) : Failure :=
  if es.isEmpty then .emptyMatrix index path else .outOfRange index es.length path

theorem kind_indexFailure (es : List Entry) (index : Int) (path : String) :
    (indexFailure es index path).report.kind = "index_out_of_range" := by
  rw [indexFailure]
  split <;> rfl

theorem entryAt_of_not {es : List Entry} {index : Int}
    (h : ¬ (0 ≤ index ∧ index < es.length)) (path : String) :
    entryAt es index path = .error (indexFailure es index path) := by
  rw [entryAt.eq_def, indexFailure]
  split
  · rfl
  · cases index with
    | ofNat i =>
      have hi : es.length ≤ i := by
        rw [Int.ofNat_eq_natCast] at h
        omega
      dsimp only
      rw [List.getElem?_eq_none hi]
    | negSucc i => rfl

/-- A matrix of entries with fixtures and sound texts comes back from its text and from the
file that it was saved in. There every index from zero on, and no other, has its entry. -/
theorem load_save {es : List Entry} (h : ∀ e ∈ es, e.IsStorable) (path : String) :
    parse path (fileText es) = .ok es ∧
    ∀ t u : FileTree, save t es (Path.ofText path) = .ok u →
      load u (Path.ofText path) = .ok es ∧
      (∀ (i : Nat) (hi : i < es.length), loadEntry u path i = .ok es[i]) ∧
      ∀ index : Int, ¬ (0 ≤ index ∧ index < es.length) →
        ∃ f, loadEntry u path index = .error (.refused f) ∧
          f.report.kind = "index_out_of_range" := by
  refine ⟨parse_fileText h path, fun t u hsave => ?_⟩
  have hread := FileTree.read_save hsave (not_mem_fileText h)
  have hload : load u (Path.ofText path) = .ok es := by
    rw [load, FileTree.holds_of_read hread, if_pos rfl, hread]
    exact parse_fileText h _
  refine ⟨hload, fun i hi => ?_, fun index hindex => ?_⟩
  · rw [loadEntry, hload]
    simp only [entryAt_of_lt hi]
  · refine ⟨indexFailure es index path, ?_, kind_indexFailure es index path⟩
    rw [loadEntry, hload]
    simp only [entryAt_of_not hindex]

/-- A name may have quotes, line ends and characters outside ASCII. -/
theorem load_save_strange :
    (∀ e ∈ [Entry.make "\"é\n😀" {}], e.IsStorable) ∧
    ∃ u, save ⟨⟨true, []⟩, [], []⟩ [Entry.make "\"é\n😀" {}] (Path.ofText "out/m.json") = .ok u ∧
      loadEntry u "out/m.json" 0 = .ok (Entry.make "\"é\n😀" {}) ∧
      ∃ f, loadEntry u "out/m.json" (-1) = .error (.refused f) ∧
        f.report.kind = "index_out_of_range" := by
  have hsound : ∀ e ∈ [Entry.make "\"é\n😀" {}], e.IsStorable := by
    rw [List.forall_mem_singleton]
    exact ⟨Text.isSound_of_lt (by decide), ⟨by simp [Entry.make], Text.isSound_of_lt (by decide)⟩,
      Text.isSound_of_lt (by decide), by decide⟩
  have hsave : save ⟨⟨true, []⟩, [], []⟩ [Entry.make "\"é\n😀" {}] (Path.ofText "out/m.json")
      = .ok ⟨⟨true, []⟩, [(⟨.working 0, ["m.json", "out"]⟩, fileText [Entry.make "\"é\n😀" {}])],
        [⟨.working 0, ["out"]⟩]⟩ := rfl
  obtain ⟨_, hload⟩ := load_save hsound "out/m.json"
  obtain ⟨_, hat, hbeyond⟩ := hload _ _ hsave
  exact ⟨hsound, _, hsave, hat 0 (by decide), hbeyond (-1) (by decide)⟩

end Matrix

end AppPipeline
