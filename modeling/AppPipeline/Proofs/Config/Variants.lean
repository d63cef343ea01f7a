import Mathlib.Logic.Relation
import AppPipeline.Proofs.Config.Record

/-!
# Ways to write a configuration

The same configuration can be written in many ways: its fields may stand in any order, among
fields that nobody knows and fields that are null, each under its data name or its plain
name, and what stands under the plain name beside a data name does not count
(`Record.Rewritten`). The options inside can be rewritten alike (`Config.Variant`). One
step leaves what is given for each field (`Record.Rewritten.given?_eq`), so however many
there are, the data are read as the same configuration (`Config.read_variants`), and so is
its data form.
-/

namespace AppPipeline

/-! ## Keys of objects -/

/-- The keys are distinct. -/
def IsObject (fields : List (String × Json)) : Prop := (fields.map Prod.fst).Nodup

instance (fields : List (String × Json)) : Decidable (IsObject fields) :=
  inferInstanceAs (Decidable (List.Nodup _))

/-- The fields that do not stand under the key. -/
def without (key : String) (fields : List (String × Json)) : List (String × Json) :=
  fields.filter fun f => f.1 != key

section

variable {fields others : List (String × Json)} {key other : String} {j : Json}

theorem lookup_without (h : other ≠ key) : (without key fields).lookup other = fields.lookup other := by
  induction fields with
  | nil => rfl
  | cons f fields ih =>
    obtain ⟨k, v⟩ := f
    rw [without] at ih ⊢
    rw [List.filter_cons, List.lookup_cons]
    by_cases hk : k = key
    · rw [hk, bne_self_eq_false, if_neg Bool.false_ne_true, ih, beq_false_of_ne h]
    · rw [if_pos (bne_iff_ne.2 hk), List.lookup_cons, ih]

theorem present_cons_null : present ((key, .null) :: fields) = present fields := rfl

theorem lookup_present_cons_of_ne (h : other ≠ key) :
    (present ((key, j) :: fields)).lookup other = (present fields).lookup other := by
  rw [present, List.filter_cons]
  split
  · rw [List.lookup_cons, beq_false_of_ne h]
    rfl
  · rfl

theorem lookup_present_cons_self (h : j ≠ .null) :
    (present ((key, j) :: fields)).lookup key = some j := by
  rw [present, List.filter_cons, if_pos (bne_iff_ne.2 h), List.lookup_cons, beq_self_eq_true]

theorem lookup_present_without (h : other ≠ key) :
    (present (without key fields)).lookup other = (present fields).lookup other := by
  have hcomm : present (without key fields) = without key (present fields) := by
    rw [present, without, without, present, List.filter_filter, List.filter_filter]
    simp only [Bool.and_comm]
  rw [hcomm, lookup_without h]

theorem lookup_present_without_self (key : String) (fields : List (String × Json)) :
    (present (without key fields)).lookup key = none := by
  rw [List.lookup_eq_none_iff]
  intro f hf
  rw [bne_comm]
  exact (List.mem_filter.1 (List.mem_of_mem_filter hf)).2

/-- Neither a key that is absent nor one that is null is present. -/
theorem lookup_present_eq_none (hfields : IsObject fields)
    (h : (fields.lookup key).getD .null = .null) : (present fields).lookup key = none := by
  rw [lookup_present hfields]
  cases hj : fields.lookup key with
  | none => rfl
  | some j =>
    rw [hj, Option.getD_some] at h
    rw [h]
    rfl

theorem lookup_present_eq_none_of_cons (h : IsObject ((key, j) :: fields)) :
    (present fields).lookup key = none := by
  obtain ⟨hkey, hfields⟩ := List.nodup_cons.1 h
  exact lookup_present_eq_none hfields (by rw [lookup_eq_none hkey, Option.getD_none])

end

/-! ## Rewriting a record -/

namespace Record

variable {ρ Slot : Type} {Value : Slot → Type}

/-- A step that leaves what is given for each field of the record. Reordering brings a field
to the front and back. -/
inductive Rewritten (R : Record ρ Slot Value) :
    List (String × Json) → List (String × Json) → Prop
  | reorder {fields others} (h : fields.Perm others) : R.Rewritten fields others
  | addUnknown {fields key j} (h : ∀ s, key ∉ (R.field s).names) :
    R.Rewritten fields ((key, j) :: fields)
  | dropUnknown {fields key j} (h : ∀ s, key ∉ (R.field s).names) :
    R.Rewritten ((key, j) :: fields) fields
  | addNull {fields key} : R.Rewritten fields ((key, .null) :: fields)
  | dropNull {fields key} : R.Rewritten ((key, .null) :: fields) fields
  /-- the other name of the field is absent or null -/
  | respell {fields s key other j} (hkey : key ∈ (R.field s).names)
    (hother : other ∈ (R.field s).names) (hne : key ≠ other)
    (hfree : (fields.lookup other).getD .null = .null) :
    R.Rewritten ((key, j) :: fields) ((other, j) :: without other fields)
  /-- any value may stand under the plain name -/
  | shadow {fields s given j} (hgiven : given ≠ .null) :
    R.Rewritten (((R.field s).dataName, given) :: fields)
      (((R.field s).plainName, j) :: ((R.field s).dataName, given)
        :: without (R.field s).plainName fields)

variable {R : Record ρ Slot Value} {fields others : List (String × Json)}

/-- Of the two names of a field one has a value and the other none. -/
theorem given?_of_lookup {α : Type} {f : Field α} {key other : String} {j : Json}
    (hkey : key ∈ f.names) (hother : other ∈ f.names) (hne : key ≠ other)
    (hj : (present fields).lookup key = some j) (hnone : (present fields).lookup other = none) :
    f.given? fields = some j := by
  rw [Field.given?_eq]
  rcases Field.mem_names_iff.1 hkey with rfl | rfl
  · rw [hj, Option.some_or]
  · rcases Field.mem_names_iff.1 hother with rfl | rfl
    · rw [hnone, hj, Option.none_or]
    · exact absurd rfl hne

theorem given?_cons_of_unknown {key : String} (h : ∀ s, key ∉ (R.field s).names) (j : Json)
    (s : Slot) : (R.field s).given? ((key, j) :: fields) = (R.field s).given? fields :=
  Field.given?_congr fun _ hname => lookup_present_cons_of_ne fun he => h s (he ▸ hname)

/-- The name of a field is no name of another field. -/
theorem ne_of_mem_names {s t : Slot} {key name : String} (hkey : key ∈ (R.field s).names)
    (hname : name ∈ (R.field t).names) (hne : t ≠ s) : name ≠ key := by
  rintro rfl
  exact hne (eq_of_mem_names hname hkey)

theorem given?_respell {s : Slot} {key other : String} {j : Json}
    (hkey : key ∈ (R.field s).names) (hother : other ∈ (R.field s).names) (hne : key ≠ other)
    (hfree : (fields.lookup other).getD .null = .null) (hfields : IsObject ((key, j) :: fields))
    (t : Slot) :
    (R.field t).given? ((key, j) :: fields)
      = (R.field t).given? ((other, j) :: without other fields) := by
  have hother_none := lookup_present_eq_none (List.nodup_cons.1 hfields).2 hfree
  have hkey_none := lookup_present_eq_none_of_cons hfields
  by_cases hts : t = s
  · subst hts
    by_cases hj : j = .null
    · -- a null field is no field
      subst hj
      refine Field.given?_congr fun name _ => ?_
      rw [present_cons_null, present_cons_null]
      by_cases hn : name = other
      · rw [hn, hother_none, lookup_present_without_self]
      · rw [lookup_present_without hn]
    · have hhere : (R.field t).given? ((key, j) :: fields) = some j :=
        given?_of_lookup hkey hother hne (lookup_present_cons_self hj)
          ((lookup_present_cons_of_ne hne.symm).trans hother_none)
      have hthere : (R.field t).given? ((other, j) :: without other fields) = some j :=
        given?_of_lookup hother hkey hne.symm (lookup_present_cons_self hj)
          ((lookup_present_cons_of_ne hne).trans ((lookup_present_without hne).trans hkey_none))
      rw [hhere, hthere]
  · refine Field.given?_congr fun name hname => ?_
    have hnk := ne_of_mem_names hkey hname hts
    have hno := ne_of_mem_names hother hname hts
    rw [lookup_present_cons_of_ne hnk, lookup_present_cons_of_ne hno, lookup_present_without hno]

theorem given?_shadow {s : Slot} {given j : Json} (hgiven : given ≠ .null)
    (hothers : IsObject (((R.field s).plainName, j) :: ((R.field s).dataName, given)
      :: without (R.field s).plainName fields)) (t : Slot) :
    (R.field t).given? (((R.field s).dataName, given) :: fields)
      = (R.field t).given? (((R.field s).plainName, j) :: ((R.field s).dataName, given)
          :: without (R.field s).plainName fields) := by
  have hnames : (R.field s).dataName ≠ (R.field s).plainName := by
    intro he
    exact (List.nodup_cons.1 hothers).1 (he ▸ List.mem_cons_self)
  by_cases hts : t = s
  · subst hts
    rw [Field.given?_eq, Field.given?_eq, lookup_present_cons_self hgiven,
      lookup_present_cons_of_ne hnames, lookup_present_cons_self hgiven, Option.some_or,
      Option.some_or]
  · refine Field.given?_congr fun name hname => ?_
    have hnd := ne_of_mem_names Field.dataName_mem_names hname hts
    have hnp := ne_of_mem_names Field.plainName_mem_names hname hts
    rw [lookup_present_cons_of_ne hnd, lookup_present_cons_of_ne hnp,
      lookup_present_cons_of_ne hnd, lookup_present_without hnp]

/-- A step leaves what is given for each field. -/
theorem Rewritten.given?_eq (h : R.Rewritten fields others) (hfields : IsObject fields)
    (hothers : IsObject others) (s : Slot) :
    (R.field s).given? fields = (R.field s).given? others := by
  cases h with
  | reorder h =>
    refine Field.given?_congr fun name _ => ?_
    rw [lookup_present hfields, lookup_present hothers, lookup_perm h hfields]
  | addUnknown h => exact (given?_cons_of_unknown h _ s).symm
  | dropUnknown h => exact given?_cons_of_unknown h _ s
  | addNull => exact Field.given?_congr fun _ _ => rfl
  | dropNull => exact Field.given?_congr fun _ _ => rfl
  | respell hkey hother hne hfree => exact given?_respell hkey hother hne hfree hfields s
  | shadow hgiven => exact given?_shadow hgiven hothers s

theorem Rewritten.read_iff (h : R.Rewritten fields others) (hfields : IsObject fields)
    (hothers : IsObject others) {r : ρ} :
    (R.read fields).toExcept = .ok r ↔ (R.read others).toExcept = .ok r := by
  simp only [read_eq_ok_iff, Field.holds_iff_gives, h.given?_eq hfields hothers]

end Record

/-! ## Rewriting a configuration -/

namespace Config

/-- One object is the other after a step, which concerns its fields or those of its options. -/
inductive Variant : List (String × Json) → List (String × Json) → Prop
  | fields {d d'} (hd : IsObject d) (hd' : IsObject d') (h : record.Rewritten d d') : Variant d d'
  | options {key inner inner' rest} (hkey : key ∈ optionsField.names) (hinner : IsObject inner)
    (hinner' : IsObject inner') (h : Options.record.Rewritten inner inner') :
    Variant ((key, .object inner) :: rest) ((key, .object inner') :: rest)

variable {d d' : List (String × Json)} {c : Config}

/-- Options that are rewritten leave the other fields, and are accepted as the same. -/
theorem gives_of_rewritten {key : String} {inner inner' rest : List (String × Json)}
    (hkey : key ∈ optionsField.names) (hinner : IsObject inner) (hinner' : IsObject inner')
    (h : Options.record.Rewritten inner inner') (s : Slot) {v : s.Value}
    (hv : s.field.Gives (s.field.given? ((key, .object inner) :: rest)) v) :
    s.field.Gives (s.field.given? ((key, .object inner') :: rest)) v := by
  by_cases hs : s = .options
  · subst hs
    have hoptions : Slot.options.field.Gives (some (.object inner)) v →
        Slot.options.field.Gives (some (.object inner')) v := (h.read_iff hinner hinner').1
    rw [Field.given?_eq] at hv ⊢
    have hsame {name : String} (hname : name ≠ key) :
        (present ((key, .object inner) :: rest)).lookup name
          = (present ((key, .object inner') :: rest)).lookup name := by
      rw [lookup_present_cons_of_ne hname, lookup_present_cons_of_ne hname]
    have hhere {fields : List (String × Json)} :
        (present ((key, .object fields) :: rest)).lookup key = some (.object fields) :=
      lookup_present_cons_self Json.noConfusion
    by_cases hdata : Slot.options.field.dataName = key
    · rw [hdata, hhere, Option.some_or] at hv ⊢
      exact hoptions hv
    · rw [← hsame hdata]
      cases hfound : (present ((key, .object inner) :: rest)).lookup Slot.options.field.dataName with
      | some j =>
        rw [hfound, Option.some_or] at hv
        exact hv
      | none =>
        have hplain : Slot.options.field.plainName = key :=
          ((Field.mem_names_iff.1 hkey).resolve_left fun he => hdata he.symm).symm
        rw [hfound, Option.none_or, hplain, hhere] at hv
        rw [Option.none_or, hplain, hhere]
        exact hoptions hv
  · have hsame : s.field.given? ((key, .object inner) :: rest)
        = s.field.given? ((key, .object inner') :: rest) := by
      refine Field.given?_congr fun name hname => ?_
      have hne : name ≠ key := Record.ne_of_mem_names (R := record) (s := .options) hkey hname hs
      rw [lookup_present_cons_of_ne hne, lookup_present_cons_of_ne hne]
    rwa [← hsame]

/-- A step leaves the configuration that the data are read as. -/
theorem Variant.read_eq (h : Variant d d') (hread : (read (.object d)).toExcept = .ok c) :
    (read (.object d')).toExcept = .ok c := by
  cases h with
  | fields hd hd' h => exact (h.read_iff hd hd').1 hread
  | options hkey hinner hinner' h =>
    have hfields := (Record.read_eq_ok_iff (R := record)).1 hread
    refine (Record.read_eq_ok_iff (R := record)).2 fun s => ?_
    exact Field.holds_iff_gives.2
      (gives_of_rewritten hkey hinner hinner' h s (Field.holds_iff_gives.1 (hfields s)))

/-- Data that are accepted as a configuration can be rewritten step by step and are still
accepted as it; so is its data form. -/
theorem read_variants (h : (read (.object d)).toExcept = .ok c) :
    (read c.toJson).toExcept = .ok c ∧
      ∀ d', Relation.ReflTransGen Variant d d' → (read (.object d')).toExcept = .ok c := by
  refine ⟨by rw [read_toJson, Reading.toExcept_pure], fun d' hsteps => ?_⟩
  induction hsteps with
  | refl => exact h
  | tail _ hstep ih => exact hstep.read_eq ih

/-- A field is shadowed, the options come first and one of them is respelt beside a new key. -/
theorem read_variants_respelt :
    let c : Config := { packageManager := .npm, nodeVersion := "18", options.iosSupport := true }
    (read (.object
      [("packageManager", .str "npm"), ("nodeVersion", .int 18),
       ("advancedOptions", .object [("iOSSupport", .bool true)])])).toExcept = .ok c ∧
    (read (.object
      [("advancedOptions", .object [("ios_support", .bool true)]), ("colour", .int 7),
       ("package_manager", .int 3), ("packageManager", .str "npm"),
       ("nodeVersion", .int 18)])).toExcept = .ok c ∧
    (read c.toJson).toExcept = .ok c := by
  intro c
  let version : String × Json := ("nodeVersion", .int 18)
  let manager : String × Json := ("packageManager", .str "npm")
  let shadowed : String × Json := ("package_manager", .int 3)
  let colour : String × Json := ("colour", .int 7)
  let options : String × Json := ("advancedOptions", .object [("iOSSupport", .bool true)])
  have hread : (read (.object [manager, version, options])).toExcept = .ok c := by decide +kernel
  obtain ⟨hdump, hvariants⟩ := read_variants hread
  have hshadow : Variant [manager, version, options] [shadowed, manager, version, options] :=
    .fields (by decide) (by decide)
      (.shadow (R := record) (s := Slot.packageManager) Json.noConfusion)
  have hcolour : Variant [shadowed, manager, version, options]
      [colour, shadowed, manager, version, options] :=
    .fields (by decide) (by decide) (.addUnknown fun s => by cases s <;> decide)
  have hreorder : Variant [colour, shadowed, manager, version, options]
      [options, colour, shadowed, manager, version] :=
    .fields (by decide) (by decide) (.reorder (by decide))
  have hrespell : Variant [options, colour, shadowed, manager, version]
      [("advancedOptions", .object [("ios_support", .bool true)]), colour, shadowed, manager,
       version] :=
    .options (by decide) (by decide) (by decide)
      (.respell (s := Options.Slot.iosSupport) (by decide) (by decide) (by decide) rfl)
  exact ⟨hread, hvariants _ (.tail (.tail (.tail (.single hshadow) hcolour) hreorder) hrespell),
    hdump⟩

end Config

end AppPipeline
