import AppPipeline.Failure
import AppPipeline.Proofs.Config.Parts
import AppPipeline.Proofs.Text.Separated

/-!
# No fault of a configuration hides another

The fields of a configuration are read on their own, so the faults of an object are those of
the objects that hold one of its fields each (`Config.singles`), or of its options, one after
another. A report names the places of the faults by texts; they are told apart by them
(`Config.nodup_locations`), because no name of a field has a point. So nothing that is
reported gets lost: `Config.details_independent` gives what is reported of an object by what
is reported of its parts, down to the items of lists (`Config.spots`).
-/

namespace AppPipeline

/-! ## Places -/

/-- Texts that can be told apart when points stand between them. -/
def IsKey (key : String) : Prop := key ≠ "" ∧ '.' ∉ key.toList

instance (key : String) : Decidable (IsKey key) := inferInstanceAs (Decidable (_ ∧ _))

/-- At least one key leads to the place. -/
def IsPlace (place : List String) : Prop := place ≠ [] ∧ ∀ key ∈ place, IsKey key

/-- The keys of a place with points between them. -/
def locationOf (place : List String) : String := String.intercalate "." place

theorem toList_toString (n : Nat) : (toString n).toList = Nat.toDigits 10 n := String.toList_ofList

theorem toString_inj {m n : Nat} (h : toString m = toString n) : m = n := by
  have hdigits : Nat.toDigits 10 m = Nat.toDigits 10 n := by
    rw [← toList_toString, h, toList_toString]
  rw [← Nat.ofDigitChars_toDigits (n := m) (b := 10) (by decide) (by decide), hdigits,
    Nat.ofDigitChars_toDigits (by decide) (by decide)]

theorem isKey_toString (n : Nat) : IsKey (toString n) := by
  have hdigits := toList_toString n
  constructor
  · intro he
    have hnil : Nat.toDigits 10 n = [] := by rw [← hdigits, he, String.toList_empty]
    exact Nat.toDigits_ne_nil hnil
  · intro hpoint
    rw [hdigits] at hpoint
    exact absurd (Nat.isDigit_of_mem_toDigits (by decide) (by decide) hpoint) (by decide)

theorem locationOf_inj {p q : List String} (hp : IsPlace p) (hq : IsPlace q)
    (h : locationOf p = locationOf q) : p = q :=
  Text.intercalate_inj rfl hp.1 hq.1 (fun key hkey => (hp.2 key hkey).2)
    (fun key hkey => (hq.2 key hkey).2) h

theorem Fault.location_eq {f : Fault} (h : IsPlace f.place) : f.location = locationOf f.place := by
  have hne : locationOf f.place ≠ "" := fun he =>
    h.1 ((Text.intercalate_eq_empty_iff "." fun key hkey => (h.2 key hkey).1).1 he)
  exact if_neg hne

/-! ## Spots of a configuration -/

/-- A part of an object that has at most one fault. -/
structure Spot where
  place : List String
  /-- the object that holds nothing else -/
  alone : List (String × Json)
  deriving DecidableEq

namespace Spot

def location (p : Spot) : String := locationOf p.place

def faults (p : Spot) : List Fault :=
  (Config.record.read p.alone).faults.map (Fault.moved p.place)

end Spot

theorem Options.Slot.isKey (s : Options.Slot) : ∀ key ∈ s.field.names, IsKey key := by
  cases s <;> decide

namespace Config

theorem Slot.isKey (s : Slot) : ∀ key ∈ s.field.names, IsKey key := by
  cases s <;> decide

namespace Slot

/-- The objects that hold a field each, or an option each of the options. -/
def singles : Slot → String → Json → List (List (String × Json))
  | .options, key, .object inner =>
    (Options.record.found inner).map fun option => [(key, .object [option])]
  | _, key, j => [[(key, j)]]

def itemSpots (key : String) (items : List Json) : List Spot :=
  items.zipIdx.map fun x => ⟨[key, toString x.2], [(key, .list [x.1])]⟩

/-- A field is a spot; so is each option, and each item of a list. -/
def spots : Slot → String → Json → List Spot
  | .options, key, .object inner =>
    (Options.record.found inner).map fun option => ⟨[key, option.1], [(key, .object [option])]⟩
  | .buildTypes, key, .list items => itemSpots key items
  | .tests, key, .list items => itemSpots key items
  | .triggers, key, .list items => itemSpots key items
  | _, key, j => [⟨[key], [(key, j)]⟩]

end Slot

/-- The objects that hold one of the given fields each, or one of the given options. -/
def singles (fields : List (String × Json)) : List (List (String × Json)) :=
  record.parts Slot.singles fields

/-- The given fields, or what the options and the lists among them hold. -/
def spots (fields : List (String × Json)) : List Spot := record.parts Slot.spots fields

namespace Slot

/-- How a value splits into spots: it is at fault as a whole, or in its items, or in the
options that it holds. -/
inductive Splits (key : String) : Slot → Json → List Spot → Prop
  | whole {s j} (h : (s.field.readValue j).IsSimple) : Splits key s j [⟨[key], [(key, j)]⟩]
  | items {s items}
    (h : (s.field.readValue (.list items)).faults = items.zipIdx.flatMap fun x =>
      (s.field.readValue (.list [x.1])).faults.map (Fault.moved [toString x.2]))
    (hone : ∀ j, (s.field.readValue (.list [j])).faults.length ≤ 1) :
    Splits key s (.list items) (itemSpots key items)
  | options {inner} : Splits key .options (.object inner)
    ((Options.record.found inner).map fun option => ⟨[key, option.1], [(key, .object [option])]⟩)

theorem splits (s : Slot) (key : String) (j : Json) : Splits key s j (s.spots key j) := by
  cases s with
  | projectName => exact .whole (isSimple_readOptionalText j)
  | packageManager => exact .whole (isSimple_readChoice _ j)
  | storage => exact .whole (isSimple_readChoice _ j)
  | nodeVersion => exact .whole (isSimple_readVersion _ j)
  | buildTypes =>
    cases j with
    | list items => exact .items (faults_readItems 0 items) length_faults_readItem_le
    | _ => exact .whole (Reading.isSimple_fault _ _)
  | tests =>
    cases j with
    | list items => exact .items (faults_readItems 0 items) length_faults_readItem_le
    | _ => exact .whole (Reading.isSimple_fault _ _)
  | triggers =>
    cases j with
    | list items => exact .items (faults_readItems 0 items) length_faults_readItem_le
    | _ => exact .whole (Reading.isSimple_fault _ _)
  | options =>
    cases j with
    | object inner => exact .options
    | _ => exact .whole (Reading.isSimple_fault _ _)

end Slot

/-- The options are read one by one. -/
theorem faults_options {key : String} (hkey : key ∈ optionsField.names)
    (inner : List (String × Json)) :
    ((optionsField.readValue (.object inner)).under key).faults
      = (Options.record.found inner).flatMap fun option =>
          (record.read [(key, .object [option])]).faults := by
  have hinner : ((optionsField.readValue (.object inner)).under key).faults
      = ((Options.record.found inner).flatMap fun option =>
          (Options.record.read [option]).faults).map (Fault.under key) :=
    congrArg (List.map (Fault.under key))
      (Record.faults_read_eq_found (R := Options.record) inner)
  rw [hinner, List.map_flatMap]
  refine List.flatMap_congr fun option _ => ?_
  exact (Record.faults_read_single (R := record) (s := .options)
    (j := .object [option]) hkey Json.noConfusion).symm

theorem faults_read_eq_singles (fields : List (String × Json)) :
    (record.read fields).faults
      = (singles fields).flatMap fun single => (record.read single).faults := by
  refine Record.faults_read_eq_parts (fun s key j hkey hj => ?_) fields
  have hwhole : ((s.field.readValue j).under key).faults
      = [[(key, j)]].flatMap fun single => (record.read single).faults := by
    rw [List.flatMap_singleton]
    exact (Record.faults_read_single (R := record) hkey hj).symm
  cases s with
  | options =>
    cases j with
    | object inner =>
      rw [Slot.singles, List.flatMap_map]
      exact faults_options hkey inner
    | _ => exact hwhole
  | _ => exact hwhole

/-- An option that stands alone has the faults of its value. -/
theorem faults_option {key : String} {inner : List (String × Json)} {option : String × Json}
    (hkey : key ∈ optionsField.names) (h : option ∈ Options.record.found inner) :
    ∃ s : Options.Slot, (record.read [(key, .object [option])]).faults
      = ((s.field.readValue option.2).under option.1).faults.map (Fault.under key) := by
  obtain ⟨s, hname, hj⟩ := Record.exists_of_mem_found h
  have houter : (record.read [(key, .object [option])]).faults
      = (Options.record.read [option]).faults.map (Fault.under key) :=
    Record.faults_read_single (R := record) (s := .options) (j := .object [option]) hkey
      Json.noConfusion
  exact ⟨s, by rw [houter, Record.faults_read_single (R := Options.record) hname hj]; rfl⟩

theorem Slot.Splits.faults_eq {s : Slot} {key : String} {j : Json} {parts : List Spot}
    (h : Slot.Splits key s j parts) (hkey : key ∈ s.field.names) (hj : j ≠ .null) :
    ((s.field.readValue j).under key).faults = parts.flatMap Spot.faults := by
  cases h with
  | whole h =>
    rw [List.flatMap_singleton, Spot.faults, Record.faults_read_single (R := record) hkey hj]
    exact (h.moved_under key).symm
  | @items _ items h =>
    rw [Slot.itemSpots, List.flatMap_map, Reading.under, h, List.map_flatMap]
    refine List.flatMap_congr fun x _ => ?_
    rw [Spot.faults, Record.faults_read_single (R := record) hkey Json.noConfusion, Reading.under,
      List.map_map, List.map_map]
    rfl
  | @options inner =>
    rw [List.flatMap_map]
    refine (faults_options hkey inner).trans (List.flatMap_congr fun option hoption => ?_)
    obtain ⟨s, h⟩ := faults_option hkey hoption
    rw [Spot.faults, h, ← (Options.isSimple_readValue s option.2).moved_under, List.map_map,
      List.map_map]
    rfl

theorem Slot.Splits.length_faults_le {s : Slot} {key : String} {j : Json} {parts : List Spot}
    (h : Slot.Splits key s j parts) (hkey : key ∈ s.field.names) (hj : j ≠ .null) :
    ∀ p ∈ parts, (record.read p.alone).faults.length ≤ 1 := by
  intro p hp
  cases h with
  | whole h =>
    obtain rfl := List.mem_singleton.1 hp
    rw [Record.faults_read_single (R := record) hkey hj, Reading.length_faults_under]
    exact h.length_faults_le
  | items _ hone =>
    obtain ⟨x, -, rfl⟩ := List.mem_map.1 hp
    rw [Record.faults_read_single (R := record) hkey Json.noConfusion, Reading.length_faults_under]
    exact hone x.1
  | options =>
    obtain ⟨option, hoption, rfl⟩ := List.mem_map.1 hp
    obtain ⟨s, h⟩ := faults_option hkey hoption
    rw [h, List.length_map, Reading.length_faults_under]
    exact (Options.isSimple_readValue s option.2).length_faults_le

theorem faults_read_eq_spots (fields : List (String × Json)) :
    (record.read fields).faults = (spots fields).flatMap Spot.faults :=
  Record.faults_read_eq_parts (fun s key j hkey hj => (s.splits key j).faults_eq hkey hj) fields

/-! ## Places of a configuration -/

theorem Slot.Splits.isPlace {s : Slot} {key : String} {j : Json} {parts : List Spot}
    (h : Slot.Splits key s j parts) (hkey : key ∈ s.field.names) :
    ∀ p ∈ parts, IsPlace p.place := by
  have hfirst : IsKey key := s.isKey key hkey
  have htwo {other : String} (hother : IsKey other) : IsPlace [key, other] :=
    ⟨List.cons_ne_nil _ _, List.forall_mem_cons.2 ⟨hfirst, List.forall_mem_singleton.2 hother⟩⟩
  intro p hp
  cases h with
  | whole =>
    obtain rfl := List.mem_singleton.1 hp
    exact ⟨List.cons_ne_nil _ _, List.forall_mem_singleton.2 hfirst⟩
  | items =>
    obtain ⟨x, -, rfl⟩ := List.mem_map.1 hp
    exact htwo (isKey_toString x.2)
  | options =>
    obtain ⟨option, hoption, rfl⟩ := List.mem_map.1 hp
    obtain ⟨t, hname, -⟩ := Record.exists_of_mem_found hoption
    exact htwo (t.isKey _ hname)

theorem Slot.Splits.head?_place {s : Slot} {key : String} {j : Json} {parts : List Spot}
    (h : Slot.Splits key s j parts) : ∀ p ∈ parts, p.place.head? = some key := by
  intro p hp
  cases h with
  | whole =>
    obtain rfl := List.mem_singleton.1 hp
    rfl
  | items =>
    obtain ⟨x, -, rfl⟩ := List.mem_map.1 hp
    rfl
  | options =>
    obtain ⟨option, -, rfl⟩ := List.mem_map.1 hp
    rfl

theorem Slot.Splits.nodup_places {s : Slot} {key : String} {j : Json} {parts : List Spot}
    (h : Slot.Splits key s j parts) : (parts.map Spot.place).Nodup := by
  cases h with
  | whole => exact List.nodup_singleton _
  | @items _ items =>
    have hindices : (items.zipIdx.map Prod.snd).Nodup := by
      rw [List.zipIdx_map_snd]
      exact List.nodup_range' _
    have hplaces := hindices.map (f := fun i => [key, toString i]) fun i i' h =>
      toString_inj (List.cons.inj (List.cons.inj h).2).1
    rw [List.map_map] at hplaces
    rw [itemSpots, List.map_map]
    exact hplaces
  | @options inner =>
    have hplaces := (Record.nodup_found (R := Options.record) inner).map (List.cons_injective (a := key))
    rw [List.map_map] at hplaces ⊢
    exact hplaces

theorem nodup_places (fields : List (String × Json)) : ((spots fields).map Spot.place).Nodup :=
  Record.nodup_parts (fun s key j => (s.splits key j).head?_place)
    (fun s key j => (s.splits key j).nodup_places) fields

theorem isPlace_of_mem_spots {fields : List (String × Json)} {p : Spot} (h : p ∈ spots fields) :
    IsPlace p.place := by
  obtain ⟨s, key, j, hkey, -, h⟩ := Record.exists_of_mem_parts h
  exact (s.splits key j).isPlace hkey p h

/-- The texts of the places are distinct. -/
theorem nodup_locations (fields : List (String × Json)) :
    ((spots fields).map Spot.location).Nodup := by
  have h := (nodup_places fields).map_on (f := locationOf) fun p hp q hq he => by
    obtain ⟨spot, hspot, rfl⟩ := List.mem_map.1 hp
    obtain ⟨other, hother, rfl⟩ := List.mem_map.1 hq
    exact locationOf_inj (isPlace_of_mem_spots hspot) (isPlace_of_mem_spots hother) he
  rw [List.map_map] at h
  exact h

/-! ## Reports -/

/-- The object is not accepted as a configuration. -/
def IsRefused (fields : List (String × Json)) : Prop :=
  ∃ faults, (read (.object fields)).toExcept = .error faults

/-- The details that are reported of an object; none if it is accepted. -/
def details (fields : List (String × Json)) : List (String × Json) :=
  match (read (.object fields)).toExcept with
  | .ok _ => []
  | .error faults => (Failure.invalidConfig faults).report.details

theorem isRefused_iff {fields : List (String × Json)} :
    IsRefused fields ↔ (record.read fields).faults ≠ [] := by
  constructor
  · rintro ⟨faults, h⟩
    obtain ⟨he, hne⟩ := Reading.toExcept_eq_error_iff.1 h
    exact he ▸ hne
  · exact fun h => ⟨_, Reading.toExcept_eq_error_iff.2 ⟨rfl, h⟩⟩

/-- A part has no fault, or one at its place. -/
theorem faults_spot_cases {fields : List (String × Json)} {p : Spot} (h : p ∈ spots fields) :
    (record.read p.alone).faults = [] ∨ ∃ cause, p.faults = [⟨p.place, cause⟩] := by
  obtain ⟨s, key, j, hkey, hj, h⟩ := Record.exists_of_mem_parts h
  have hle := (s.splits key j).length_faults_le hkey hj p h
  rw [Spot.faults]
  cases hf : (record.read p.alone).faults with
  | nil => exact .inl rfl
  | cons f rest =>
    rw [hf, List.length_cons] at hle
    obtain rfl := List.length_eq_zero_iff.1 (Nat.le_zero.1 (Nat.le_of_succ_le_succ hle))
    exact .inr ⟨f.cause, rfl⟩

theorem sublist_flatMap_map {α β : Type} {l : List α} {g : α → List β} {f : α → β}
    (h : ∀ a ∈ l, g a = [] ∨ g a = [f a]) : (l.flatMap g).Sublist (l.map f) := by
  induction l with
  | nil => exact .slnil
  | cons a l ih =>
    have hl := ih fun b hb => h b (List.mem_cons_of_mem a hb)
    rw [List.flatMap_cons, List.map_cons]
    rcases h a List.mem_cons_self with ha | ha
    · rw [ha]
      exact hl.cons _
    · rw [ha]
      exact hl.cons_cons _

/-- No two faults are reported under one text. -/
theorem nodup_keys_faultDetails (fields : List (String × Json)) :
    ((Failure.faultDetails (record.read fields).faults).map Prod.fst).Nodup := by
  refine (nodup_locations fields).sublist ?_
  rw [faults_read_eq_spots, Failure.faultDetails, List.map_map, List.map_flatMap]
  refine sublist_flatMap_map fun p hp => ?_
  rcases faults_spot_cases hp with h | ⟨cause, h⟩
  · rw [Spot.faults, h]
    exact .inl rfl
  · have hplace : (⟨p.place, cause⟩ : Fault).location = p.location :=
      Fault.location_eq (isPlace_of_mem_spots hp)
    rw [h, List.map_singleton, Function.comp_apply]
    exact .inr (congrArg (fun l => [l]) hplace)

/-- Every fault is reported. -/
theorem details_eq (fields : List (String × Json)) :
    details fields = Failure.faultDetails (record.read fields).faults := by
  have hread : read (.object fields) = record.read fields := rfl
  rw [details, hread, Reading.toExcept]
  by_cases h : (record.read fields).faults = []
  · rw [if_pos (List.isEmpty_iff.2 h), h]
    rfl
  · rw [if_neg fun he => h (List.isEmpty_iff.1 he)]
    exact Json.collect_eq_self (nodup_keys_faultDetails fields)

theorem details_eq_singles (fields : List (String × Json)) :
    details fields = (singles fields).flatMap details := by
  rw [details_eq, faults_read_eq_singles, Failure.faultDetails, List.map_flatMap]
  exact List.flatMap_congr fun single _ => (details_eq single).symm

/-- What is reported of a part on its own is reported at its place. -/
theorem details_eq_spots (fields : List (String × Json)) :
    details fields
      = (spots fields).flatMap fun p => (details p.alone).map fun e => (p.location, e.2) := by
  rw [details_eq, faults_read_eq_spots, Failure.faultDetails, List.map_flatMap]
  refine List.flatMap_congr fun p hp => ?_
  have hplace (f : Fault) : (f.moved p.place).location = p.location :=
    Fault.location_eq (f := f.moved p.place) (isPlace_of_mem_spots hp)
  rw [details_eq, Failure.faultDetails, Spot.faults, List.map_map, List.map_map]
  refine List.map_congr_left fun f _ => ?_
  rw [Function.comp_apply, Function.comp_apply, hplace]
  rfl

theorem length_details_of_mem_spots {fields : List (String × Json)} {p : Spot}
    (hp : p ∈ spots fields) (h : IsRefused p.alone) : (details p.alone).length = 1 := by
  obtain ⟨cause, hcause⟩ := (faults_spot_cases hp).resolve_left (isRefused_iff.1 h)
  have hlength := congrArg List.length hcause
  rw [Spot.faults, List.length_map] at hlength
  rw [details_eq, Failure.faultDetails, List.length_map, hlength, List.length_singleton]

theorem isRefused_iff_singles {fields : List (String × Json)} :
    IsRefused fields ↔ ∃ single ∈ singles fields, IsRefused single := by
  simp only [isRefused_iff, faults_read_eq_singles fields, ne_eq, List.flatMap_eq_nil_iff,
    not_forall, exists_prop]

/-- An object is refused exactly if one of its parts is that holds a single field or option.
The report gives the details of these parts one after another: one for each field, item or
option that is refused on its own, each at its own place. -/
theorem details_independent (d : List (String × Json)) :
    (IsRefused d ↔ ∃ single ∈ singles d, IsRefused single) ∧
    (∀ faults, (read (.object d)).toExcept = .error faults →
      (Failure.invalidConfig faults).report
        = { Report.invalidConfig with details := (singles d).flatMap details }) ∧
    details d = (spots d).flatMap (fun p => (details p.alone).map fun e => (p.location, e.2)) ∧
    (∀ p ∈ spots d, IsRefused p.alone → (details p.alone).length = 1) ∧
    ((spots d).map Spot.location).Nodup := by
  refine ⟨isRefused_iff_singles, fun faults h => ?_, details_eq_spots d,
    fun p => length_details_of_mem_spots, nodup_locations d⟩
  have hdetails : details d = (Failure.invalidConfig faults).report.details := by
    rw [details, h]
  rw [← details_eq_singles, hdetails]
  rfl

/-- A name that is a number, an item and an option are reported beside fields that are read. -/
theorem details_independent_three :
    let d : List (String × Json) :=
      [("advanced_options", .object [("caching", .str "maybe"), ("jestTests", .bool true)]),
       ("tests", .list [.str "eslint", .str "jest"]), ("nodeVersion", .int 18),
       ("projectName", .int 7), ("project_name", .null)]
    (∃ faults, (read (.object d)).toExcept = .error faults ∧
      (Failure.invalidConfig faults).report
        = { Report.invalidConfig with
            details :=
              [("projectName", .str "Input should be a valid string"),
               ("tests.1", .str "Input should be 'typescript', 'eslint' or 'prettier'"),
               ("advanced_options.caching",
                .str "Input should be a valid boolean, unable to interpret input")] }) ∧
    ∃ p ∈ spots d, p.location = "tests.1" ∧ (details p.alone).length = 1 := by
  intro d
  obtain ⟨-, hreport, -, hone, -⟩ := details_independent d
  have hread : (read (.object d)).toExcept = .error (read (.object d)).faults :=
    Reading.toExcept_eq_error_iff.2 ⟨rfl, by decide +kernel⟩
  have hdetails : (singles d).flatMap details
      = [("projectName", .str "Input should be a valid string"),
         ("tests.1", .str "Input should be 'typescript', 'eslint' or 'prettier'"),
         ("advanced_options.caching",
          .str "Input should be a valid boolean, unable to interpret input")] := by
    decide +kernel
  refine ⟨⟨_, hread, hdetails ▸ hreport _ hread⟩, ?_⟩
  let p : Spot := ⟨["tests", "1"], [("tests", .list [.str "jest"])]⟩
  have hp : p ∈ spots d := by decide +kernel
  exact ⟨p, hp, by decide +kernel, hone p hp (isRefused_iff.2 (by decide +kernel))⟩

end Config

end AppPipeline
