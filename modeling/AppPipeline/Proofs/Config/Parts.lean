import Mathlib.Data.List.Nodup
import AppPipeline.Proofs.Config.Record

/-!
# Parts of records

The fields that are given are split into parts, field by field (`Record.parts`). A field on
its own has the faults of its value (`Record.faults_read_single`), so the faults of a record
are those of its parts one after another (`Record.faults_read_eq_parts`), and parts of
different fields begin with different names (`Record.nodup_parts`). A value that is neither a
list nor an object has at most one fault (`Reading.IsSimple`), and a list one for each item
(`faults_readItems`).
-/

namespace AppPipeline

/-! ## Parts of records -/

theorem flatMap_eq_of_forall_ne {α β : Type} {l : List α} (hl : l.Nodup) {a : α} (ha : a ∈ l)
    {g : α → List β} (h : ∀ b ∈ l, b ≠ a → g b = []) : l.flatMap g = g a := by
  obtain ⟨before, after, rfl⟩ := List.append_of_mem ha
  rw [List.nodup_append, List.nodup_cons] at hl
  obtain ⟨-, ⟨hafter, -⟩, hbefore⟩ := hl
  have hb : before.flatMap g = [] := List.flatMap_eq_nil_iff.2 fun b hb =>
    h b (List.mem_append_left _ hb) (hbefore b hb a List.mem_cons_self)
  have hc : after.flatMap g = [] := List.flatMap_eq_nil_iff.2 fun b hb =>
    h b (List.mem_append_right _ (List.mem_cons_of_mem a hb)) fun he => hafter (he ▸ hb)
  rw [List.flatMap_append, List.flatMap_cons, hb, hc, List.nil_append, List.append_nil]

theorem Field.of_find?_present {α : Type} {f : Field α} {fields : List (String × Json)}
    {given : String × Json} (h : f.find? (present fields) = some given) :
    given.1 ∈ f.names ∧ given.2 ≠ .null := by
  have hnull {key : String} {j : Json} (hj : (present fields).lookup key = some j) : j ≠ .null := by
    have hmem := (List.mem_filter.1 (mem_of_lookup hj)).2
    exact bne_iff_ne.1 hmem
  rw [find?] at h
  cases hdata : (present fields).lookup f.dataName with
  | some j =>
    rw [hdata] at h
    cases h
    exact ⟨dataName_mem_names, hnull hdata⟩
  | none =>
    rw [hdata] at h
    obtain ⟨j, hj, rfl⟩ := Option.map_eq_some_iff.1 h
    exact ⟨plainName_mem_names, hnull hj⟩

theorem Field.find?_single {α : Type} {f : Field α} {key : String} {j : Json}
    (h : key ∈ f.names) : f.find? [(key, j)] = some (key, j) := by
  rw [find?, List.lookup_cons, List.lookup_nil, List.lookup_cons, List.lookup_nil]
  by_cases hdata : f.dataName = key
  · rw [hdata, beq_self_eq_true]
  · have hplain : f.plainName = key :=
      ((mem_names_iff.1 h).resolve_left fun he => hdata he.symm).symm
    rw [beq_false_of_ne hdata, hplain, beq_self_eq_true]
    rfl

theorem Field.find?_single_eq_none {α : Type} {f : Field α} {key : String} {j : Json}
    (h : key ∉ f.names) : f.find? [(key, j)] = none := by
  rw [mem_names_iff, not_or] at h
  rw [find?, List.lookup_cons, List.lookup_nil, List.lookup_cons, List.lookup_nil,
    beq_false_of_ne fun he => h.1 he.symm, beq_false_of_ne fun he => h.2 he.symm]
  rfl

namespace Record

variable {ρ Slot : Type} {Value : Slot → Type} {R : Record ρ Slot Value}

/-- The parts into which the given fields are split, in the order of the fields. -/
def parts {β : Type} (R : Record ρ Slot Value) (split : Slot → String → Json → List β)
    (fields : List (String × Json)) : List β :=
  R.slots.flatMap fun s =>
    match (R.field s).find? (present fields) with
    | none => []
    | some (key, j) => split s key j

/-- The fields that are given, under the keys that count. -/
def found (R : Record ρ Slot Value) (fields : List (String × Json)) : List (String × Json) :=
  R.parts (fun _ key j => [(key, j)]) fields

theorem exists_of_mem_parts {β : Type} {split : Slot → String → Json → List β}
    {fields : List (String × Json)} {part : β} (h : part ∈ R.parts split fields) :
    ∃ s key j, key ∈ (R.field s).names ∧ j ≠ .null ∧ part ∈ split s key j := by
  rw [parts, List.mem_flatMap] at h
  obtain ⟨s, -, h⟩ := h
  cases hfind : (R.field s).find? (present fields) with
  | none =>
    rw [hfind] at h
    cases h
  | some given =>
    rw [hfind] at h
    obtain ⟨hkey, hj⟩ := Field.of_find?_present hfind
    exact ⟨s, given.1, given.2, hkey, hj, h⟩

/-- Parts of different fields begin with different names. -/
theorem nodup_parts {β : Type} {split : Slot → String → Json → List β} {place : β → List String}
    (hhead : ∀ s key j, ∀ part ∈ split s key j, (place part).head? = some key)
    (hsplit : ∀ s key j, ((split s key j).map place).Nodup) (fields : List (String × Json)) :
    ((R.parts split fields).map place).Nodup := by
  have hplace : ∀ s, ∀ p ∈ (match (R.field s).find? (present fields) with
      | none => []
      | some (key, j) => split s key j).map place, ∃ key ∈ (R.field s).names, p.head? = some key := by
    intro s p hp
    cases hfind : (R.field s).find? (present fields) with
    | none =>
      rw [hfind] at hp
      cases hp
    | some given =>
      rw [hfind] at hp
      obtain ⟨part, hpart, rfl⟩ := List.mem_map.1 hp
      exact ⟨given.1, (Field.of_find?_present hfind).1, hhead s _ _ part hpart⟩
  rw [parts, List.map_flatMap, List.nodup_flatMap]
  constructor
  · intro s _
    cases (R.field s).find? (present fields) with
    | none => exact List.nodup_nil
    | some given => exact hsplit s given.1 given.2
  · refine R.apart.imp fun {s t} h p hp hp' => ?_
    obtain ⟨key, hkey, he⟩ := hplace s p hp
    obtain ⟨key', hkey', he'⟩ := hplace t p hp'
    obtain rfl : key = key' := Option.some.inj (he.symm.trans he')
    exact h key hkey hkey'

theorem exists_of_mem_found {fields : List (String × Json)} {given : String × Json}
    (h : given ∈ R.found fields) : ∃ s, given.1 ∈ (R.field s).names ∧ given.2 ≠ .null := by
  obtain ⟨s, key, j, hkey, hj, h⟩ := exists_of_mem_parts h
  obtain rfl := List.mem_singleton.1 h
  exact ⟨s, hkey, hj⟩

theorem nodup_found (fields : List (String × Json)) :
    ((R.found fields).map fun given => [given.1]).Nodup := by
  refine nodup_parts (fun s key j part hpart => ?_) (fun s key j => ?_) fields
  · obtain rfl := List.mem_singleton.1 hpart
    rfl
  · rw [List.map_singleton]
    exact List.nodup_singleton _

theorem nodup_slots : R.slots.Nodup := by
  refine R.apart.imp fun {s t} h he => ?_
  subst he
  exact h _ Field.dataName_mem_names Field.dataName_mem_names

/-- A field has on its own the faults that its value has. -/
theorem faults_read_single {s : Slot} {key : String} {j : Json} (hkey : key ∈ (R.field s).names)
    (hj : j ≠ .null) :
    (R.read [(key, j)]).faults = (((R.field s).readValue j).under key).faults := by
  have hpresent : present [(key, j)] = [(key, j)] := by
    rw [present, List.filter_cons, if_pos (bne_iff_ne.2 hj), List.filter_nil]
  rw [R.faults_read, hpresent, flatMap_eq_of_forall_ne nodup_slots (R.mem_slots s)]
  · rw [Field.read, Field.find?_single hkey]
  · intro t _ hne
    rw [Field.read, Field.find?_single_eq_none fun ht => hne (eq_of_mem_names ht hkey)]
    rfl

/-- The faults of a record are those of its parts. -/
theorem faults_read_eq_parts {β : Type} {split : Slot → String → Json → List β}
    {g : β → List Fault}
    (h : ∀ s key j, key ∈ (R.field s).names → j ≠ .null →
      (((R.field s).readValue j).under key).faults = (split s key j).flatMap g)
    (fields : List (String × Json)) :
    (R.read fields).faults = (R.parts split fields).flatMap g := by
  rw [R.faults_read, parts, List.flatMap_assoc]
  refine List.flatMap_congr fun s _ => ?_
  rw [Field.read]
  cases hfind : (R.field s).find? (present fields) with
  | none => rfl
  | some given =>
    obtain ⟨hkey, hj⟩ := Field.of_find?_present hfind
    exact h s given.1 given.2 hkey hj

theorem faults_read_eq_found (fields : List (String × Json)) :
    (R.read fields).faults = (R.found fields).flatMap fun f => (R.read [f]).faults := by
  refine faults_read_eq_parts (fun s key j hkey hj => ?_) fields
  rw [List.flatMap_singleton, faults_read_single hkey hj]

end Record

/-! ## Readings that say one thing -/

namespace Reading

/-- At most one fault, of the whole value. -/
def IsSimple {α : Type} (r : Reading α) : Prop := r.faults = [] ∨ ∃ cause, r.faults = [⟨[], cause⟩]

variable {α : Type}

theorem toExcept_eq_error_iff {r : Reading α} {faults : List Fault} :
    r.toExcept = .error faults ↔ r.faults = faults ∧ faults ≠ [] := by
  rw [toExcept]
  split
  · next h =>
    rw [List.isEmpty_iff] at h
    simp [h]
  · next h =>
    rw [List.isEmpty_iff] at h
    simp only [Except.error.injEq]
    exact ⟨fun he => ⟨he, he ▸ h⟩, And.left⟩

theorem isSimple_pure (a : α) : (pure a).IsSimple := .inl rfl

theorem isSimple_fault (default : α) (cause : FaultCause) : (fault default cause).IsSimple :=
  .inr ⟨cause, rfl⟩

end Reading

open Reading (isSimple_pure isSimple_fault)

theorem isSimple_readOptionalText (j : Json) : (readOptionalText j).IsSimple := by
  cases j with
  | str s => exact isSimple_pure _
  | _ => exact isSimple_fault _ _

theorem isSimple_readVersion (default : String) (j : Json) : (readVersion default j).IsSimple := by
  cases j with
  | str s => exact isSimple_pure _
  | int n =>
    rw [readVersion]
    split
    · exact isSimple_pure _
    · exact isSimple_fault _ _
  | float x => exact isSimple_pure _
  | _ => exact isSimple_fault _ _

section

variable {α : Type} [Choice α]

theorem isSimple_readChoice (default : α) (j : Json) : (readChoice default j).IsSimple := by
  rw [readChoice]
  split
  · exact isSimple_pure _
  · exact isSimple_fault _ _

theorem isSimple_readOptionalChoice (j : Json) : (readOptionalChoice (α := α) j).IsSimple := by
  rw [readOptionalChoice]
  split
  · exact isSimple_pure _
  · exact isSimple_fault _ _

end

theorem isSimple_readInteger (default : Bool) (n : Int) : (readInteger default n).IsSimple := by
  rw [readInteger]
  split
  · exact isSimple_pure _
  · split
    · exact isSimple_pure _
    · exact isSimple_fault _ _

theorem isSimple_readBool (default : Bool) (j : Json) : (readBool default j).IsSimple := by
  cases j with
  | bool b => exact isSimple_pure _
  | str s =>
    rw [readBool]
    split
    · exact isSimple_pure _
    · exact isSimple_fault _ _
  | int n =>
    rw [readBool]
    split
    · exact isSimple_readInteger _ _
    · exact isSimple_fault _ _
  | float x =>
    rw [readBool]
    split
    · split
      · exact isSimple_readInteger _ _
      · exact isSimple_fault _ _
    · exact isSimple_fault _ _
  | _ => exact isSimple_fault _ _

theorem Options.isSimple_readValue (s : Options.Slot) (j : Json) : (s.field.readValue j).IsSimple := by
  cases s with
  | notificationType => exact isSimple_readOptionalChoice j
  | _ => exact isSimple_readBool _ j

/-- The fault, at another place. -/
def Fault.moved (place : List String) (f : Fault) : Fault := { f with place := place }

/-- Each item of a list is at fault for itself. -/
theorem faults_readItems {α : Type} [Choice α] (i : Nat) (items : List Json) :
    (readItems (α := α) i items).faults
      = (items.zipIdx i).flatMap fun x =>
          (readItems (α := α) 0 [x.1]).faults.map (Fault.moved [toString x.2]) := by
  induction items generalizing i with
  | nil => rfl
  | cons j rest ih =>
    rw [List.zipIdx_cons, List.flatMap_cons, ← ih, readItems, readItems]
    cases choiceOf? (α := α) j <;> rfl

theorem length_faults_readItem_le {α : Type} [Choice α] (j : Json) :
    (readItems (α := α) 0 [j]).faults.length ≤ 1 := by
  rw [readItems]
  cases choiceOf? (α := α) j with
  | none => exact Nat.le_refl 1
  | some a => exact Nat.zero_le 1

theorem Reading.IsSimple.length_faults_le {α : Type} {r : Reading α} (h : r.IsSimple) :
    r.faults.length ≤ 1 := by
  rcases h with h | ⟨cause, h⟩
  · rw [h]
    exact Nat.zero_le 1
  · rw [h]
    exact Nat.le_refl 1

/-- A fault of the whole value stands at the key. -/
theorem Reading.IsSimple.moved_under {α : Type} {r : Reading α} (h : r.IsSimple) (key : String) :
    (r.under key).faults.map (Fault.moved [key]) = (r.under key).faults := by
  rw [Reading.under]
  rcases h with h | ⟨cause, h⟩ <;> rw [h] <;> rfl

theorem Reading.length_faults_under {α : Type} (r : Reading α) (key : String) :
    (r.under key).faults.length = r.faults.length := List.length_map _

end AppPipeline
