import Mathlib.Data.List.Pairwise
import AppPipeline.Proofs.Config.RoundTrip
import AppPipeline.Proofs.Pairs

/-!
# Records are read field by field

A `Record` lists the fields of a record, each with its names, its default, the way it is
read and the way it is dumped. What is read of the data is accepted as a record exactly if
every field is accepted with the value that it has in the record (`Record.read_eq_ok_iff`),
and a field depends on the data only through what is given for it
(`Field.holds_iff_gives`). Options and configurations are records of this kind
(`Options.record`, `Config.record`).
-/

namespace AppPipeline

/-! ## Single fields -/

namespace Reading

variable {α : Type}

theorem toExcept_pure (a : α) : (pure a).toExcept = .ok a := rfl

theorem faults_under_eq_nil_iff (key : String) (r : Reading α) :
    (r.under key).faults = [] ↔ r.faults = [] := List.map_eq_nil_iff

theorem toExcept_under_eq_ok_iff (key : String) (r : Reading α) (a : α) :
    (r.under key).toExcept = .ok a ↔ r.toExcept = .ok a := by
  rw [toExcept_eq_ok_iff, toExcept_eq_ok_iff, faults_under_eq_nil_iff]
  rfl

end Reading

namespace Field

variable {α : Type} (f : Field α) {a : α}

/-- The names under which the field may stand. -/
def names : List String := [f.dataName, f.plainName]

/-- What is given for the field; null counts as nothing. -/
def given? (fields : List (String × Json)) : Option Json :=
  (f.find? (present fields)).map Prod.snd

/-- The field is accepted with this value. -/
def Holds (fields : List (String × Json)) (a : α) : Prop :=
  (f.read (present fields)).toExcept = .ok a

/-- What is given is accepted as this value; the default stands in for nothing. -/
def Gives : Option Json → α → Prop
  | none, a => f.default = a
  | some j, a => (f.readValue j).toExcept = .ok a

variable {f} {fields : List (String × Json)}

theorem dataName_mem_names : f.dataName ∈ f.names := List.mem_cons_self

theorem plainName_mem_names : f.plainName ∈ f.names :=
  List.mem_cons_of_mem _ (List.mem_singleton.2 rfl)

theorem mem_names_iff {key : String} : key ∈ f.names ↔ key = f.dataName ∨ key = f.plainName := by
  rw [names, List.mem_cons, List.mem_singleton]

theorem given?_eq (f : Field α) (fields : List (String × Json)) :
    f.given? fields
      = ((present fields).lookup f.dataName).or ((present fields).lookup f.plainName) := by
  rw [given?, find?]
  cases (present fields).lookup f.dataName with
  | some j => rfl
  | none => cases (present fields).lookup f.plainName <;> rfl

theorem given?_congr {others : List (String × Json)}
    (h : ∀ key ∈ f.names, (present fields).lookup key = (present others).lookup key) :
    f.given? fields = f.given? others := by
  rw [given?_eq, given?_eq, h _ dataName_mem_names, h _ plainName_mem_names]

/-- A field depends only on what is given for it. -/
theorem holds_iff_gives : f.Holds fields a ↔ f.Gives (f.given? fields) a := by
  rw [Holds, read, given?]
  cases f.find? (present fields) with
  | none =>
    rw [Reading.toExcept_pure, Except.ok.injEq]
    rfl
  | some found => exact Reading.toExcept_under_eq_ok_iff found.1 _ a

end Field

/-! ## Records -/

/-- The fields that a record is made of, and how it is read from them. -/
structure Record (ρ Slot : Type) (Value : Slot → Type) where
  slots : List Slot
  field : (s : Slot) → Field (Value s)
  get : (s : Slot) → ρ → Value s
  dump : (s : Slot) → Value s → Json
  read : List (String × Json) → Reading ρ
  mem_slots : ∀ s, s ∈ slots
  /-- no name belongs to two fields -/
  apart : slots.Pairwise fun s t => ∀ key ∈ (field s).names, key ∉ (field t).names
  ext : ∀ {r r'}, (∀ s, get s r = get s r') → r = r'
  get_read : ∀ fields s, get s (read fields).value = ((field s).read (present fields)).value
  faults_read : ∀ fields,
    (read fields).faults = slots.flatMap fun s => ((field s).read (present fields)).faults
  /-- a value comes back from its dump; null stands for the default -/
  gives_dump : ∀ s v, (field s).Gives ((some (dump s v)).filter (· != .null)) v

namespace Record

variable {ρ Slot : Type} {Value : Slot → Type} (R : Record ρ Slot Value)

/-- The fields under their plain names. -/
def entries (r : ρ) : List (String × Json) :=
  R.slots.map fun s => ((R.field s).plainName, R.dump s (R.get s r))

variable {R}

theorem eq_of_mem_names {s t : Slot} {key : String} (hs : key ∈ (R.field s).names)
    (ht : key ∈ (R.field t).names) : s = t := by
  have hsymm : Std.Symm fun s t => ∀ key ∈ (R.field s).names, key ∉ (R.field t).names :=
    ⟨fun _ _ h key hkey hkey' => h key hkey' hkey⟩
  by_contra hne
  exact R.apart.forall (R.mem_slots s) (R.mem_slots t) hne key hs ht

theorem faults_read_eq_nil_iff {fields : List (String × Json)} :
    (R.read fields).faults = [] ↔ ∀ s, ((R.field s).read (present fields)).faults = [] := by
  rw [R.faults_read, List.flatMap_eq_nil_iff]
  exact ⟨fun h s => h s (R.mem_slots s), fun h s _ => h s⟩

/-- A record is accepted if every field is accepted with its value. -/
theorem read_eq_ok_iff {fields : List (String × Json)} {r : ρ} :
    (R.read fields).toExcept = .ok r ↔ ∀ s, (R.field s).Holds fields (R.get s r) := by
  simp only [Field.Holds, Reading.toExcept_eq_ok_iff, faults_read_eq_nil_iff, ← R.get_read]
  constructor
  · rintro ⟨hfaults, rfl⟩ s
    exact ⟨hfaults s, rfl⟩
  · intro h
    exact ⟨fun s => (h s).1, R.ext fun s => (h s).2⟩

/-! ### Fields under their plain names -/

/-- The fields stand under plain names, each at most once. -/
structure IsPlain (R : Record ρ Slot Value) (fields : List (String × Json)) : Prop where
  nodup : (fields.map Prod.fst).Nodup
  plain : ∀ key ∈ fields.map Prod.fst, ∃ s, key = (R.field s).plainName

/-- A data name is given only where it is the plain name. -/
theorem IsPlain.given?_eq {fields : List (String × Json)} (h : R.IsPlain fields) (s : Slot) :
    (R.field s).given? fields
      = (fields.lookup (R.field s).plainName).filter (· != .null) := by
  rw [Field.given?_eq, lookup_present h.nodup, lookup_present h.nodup]
  by_cases hname : (R.field s).dataName = (R.field s).plainName
  · rw [hname, Option.or_self]
  · have hnone : fields.lookup (R.field s).dataName = none := by
      refine lookup_eq_none fun hmem => ?_
      obtain ⟨t, ht⟩ := h.plain _ hmem
      obtain rfl : s = t :=
        eq_of_mem_names Field.dataName_mem_names (ht ▸ Field.plainName_mem_names)
      exact hname ht
    rw [hnone, Option.filter_none, Option.none_or]

theorem keys_entries (r : ρ) :
    (R.entries r).map Prod.fst = R.slots.map fun s => (R.field s).plainName := by
  rw [entries, List.map_map]
  rfl

theorem isPlain_entries (r : ρ) : R.IsPlain (R.entries r) where
  nodup := by
    rw [keys_entries, List.Nodup, List.pairwise_map]
    refine R.apart.imp fun {s t} h he => h _ Field.plainName_mem_names ?_
    rw [he]
    exact Field.plainName_mem_names
  plain key hkey := by
    rw [keys_entries, List.mem_map] at hkey
    obtain ⟨s, -, rfl⟩ := hkey
    exact ⟨s, rfl⟩

theorem lookup_entries (r : ρ) (s : Slot) :
    (R.entries r).lookup (R.field s).plainName = some (R.dump s (R.get s r)) :=
  lookup_of_mem (isPlain_entries r).nodup (List.mem_map_of_mem (R.mem_slots s))

/-- A record is read as it was dumped. -/
theorem read_entries (r : ρ) : (R.read (R.entries r)).toExcept = .ok r := by
  rw [read_eq_ok_iff]
  intro s
  rw [Field.holds_iff_gives, (isPlain_entries r).given?_eq, lookup_entries]
  exact R.gives_dump s _

end Record

/-! ## Options -/

namespace Options

/-- The fields of options. -/
inductive Slot where
  | iosSupport
  | publishToExpo
  | publishToStores
  | jestTests
  | rntlTests
  | renderHookTests
  | caching
  | notifications
  | notificationType
  deriving DecidableEq, Repr

namespace Slot

def all : List Slot :=
  [.iosSupport, .publishToExpo, .publishToStores, .jestTests, .rntlTests, .renderHookTests,
   .caching, .notifications, .notificationType]

abbrev Value : Slot → Type
  | .notificationType => Option Notification
  | _ => Bool

def field : (s : Slot) → Field s.Value
  | .iosSupport => iosSupportField
  | .publishToExpo => publishToExpoField
  | .publishToStores => publishToStoresField
  | .jestTests => jestTestsField
  | .rntlTests => rntlTestsField
  | .renderHookTests => renderHookTestsField
  | .caching => cachingField
  | .notifications => notificationsField
  | .notificationType => notificationTypeField

def get : (s : Slot) → Options → s.Value
  | .iosSupport => Options.iosSupport
  | .publishToExpo => Options.publishToExpo
  | .publishToStores => Options.publishToStores
  | .jestTests => Options.jestTests
  | .rntlTests => Options.rntlTests
  | .renderHookTests => Options.renderHookTests
  | .caching => Options.caching
  | .notifications => Options.notifications
  | .notificationType => Options.notificationType

def dump : (s : Slot) → s.Value → Json
  | .iosSupport => .bool
  | .publishToExpo => .bool
  | .publishToStores => .bool
  | .jestTests => .bool
  | .rntlTests => .bool
  | .renderHookTests => .bool
  | .caching => .bool
  | .notifications => .bool
  | .notificationType => optionJson choiceJson

end Slot

theorem ext_get {o p : Options} (h : ∀ s : Slot, s.get o = s.get p) : o = p := by
  obtain ⟨_, _, _, _, _, _, _, _, _⟩ := o
  obtain ⟨_, _, _, _, _, _, _, _, _⟩ := p
  rw [Options.mk.injEq]
  exact ⟨h .iosSupport, h .publishToExpo, h .publishToStores, h .jestTests, h .rntlTests,
    h .renderHookTests, h .caching, h .notifications, h .notificationType⟩

theorem gives_dump (s : Slot) (v : s.Value) :
    s.field.Gives ((some (s.dump v)).filter (· != .null)) v := by
  cases s with
  | notificationType =>
    cases v with
    | none => exact rfl
    | some n => exact congrArg Reading.toExcept (readOptionalChoice_choiceJson n)
  | _ => exact rfl

def record : Record Options Slot Slot.Value where
  slots := Slot.all
  field := Slot.field
  get := Slot.get
  dump := Slot.dump
  read := readFields
  mem_slots s := by cases s <;> decide
  apart := by decide
  ext := ext_get
  get_read _ s := by cases s <;> rfl
  faults_read _ := by simp [readFields, Slot.all, Slot.field]
  gives_dump := gives_dump

theorem entries_eq (o : Options) : o.entries = record.entries o := rfl

end Options

/-! ## Configurations -/

namespace Config

/-- The fields of a configuration. -/
inductive Slot where
  | projectName
  | packageManager
  | storage
  | buildTypes
  | tests
  | triggers
  | nodeVersion
  | options
  deriving DecidableEq, Repr

namespace Slot

def all : List Slot :=
  [.projectName, .packageManager, .storage, .buildTypes, .tests, .triggers, .nodeVersion,
   .options]

abbrev Value : Slot → Type
  | .projectName => Option String
  | .packageManager => PackageManager
  | .storage => Storage
  | .buildTypes => List BuildType
  | .tests => List TestKind
  | .triggers => List Trigger
  | .nodeVersion => String
  | .options => Options

def field : (s : Slot) → Field s.Value
  | .projectName => projectNameField
  | .packageManager => packageManagerField
  | .storage => storageField
  | .buildTypes => buildTypesField
  | .tests => testsField
  | .triggers => triggersField
  | .nodeVersion => nodeVersionField
  | .options => optionsField

def get : (s : Slot) → Config → s.Value
  | .projectName => Config.projectName
  | .packageManager => Config.packageManager
  | .storage => Config.storage
  | .buildTypes => Config.buildTypes
  | .tests => Config.tests
  | .triggers => Config.triggers
  | .nodeVersion => Config.nodeVersion
  | .options => Config.options

def dump : (s : Slot) → s.Value → Json
  | .projectName => optionJson .str
  | .packageManager => choiceJson
  | .storage => choiceJson
  | .buildTypes => choicesJson
  | .tests => choicesJson
  | .triggers => choicesJson
  | .nodeVersion => .str
  | .options => fun o => .object o.entries

end Slot

theorem ext_get {c d : Config} (h : ∀ s : Slot, s.get c = s.get d) : c = d := by
  obtain ⟨_, _, _, _, _, _, _, _⟩ := c
  obtain ⟨_, _, _, _, _, _, _, _⟩ := d
  rw [Config.mk.injEq]
  exact ⟨h .projectName, h .packageManager, h .storage, h .buildTypes, h .tests, h .triggers,
    h .nodeVersion, h .options⟩

theorem gives_dump (s : Slot) (v : s.Value) :
    s.field.Gives ((some (s.dump v)).filter (· != .null)) v := by
  cases s with
  | projectName => cases v <;> exact rfl
  | packageManager => exact congrArg Reading.toExcept (readChoice_choiceJson _ v)
  | storage => exact congrArg Reading.toExcept (readChoice_choiceJson _ v)
  | buildTypes => exact congrArg Reading.toExcept (readChoices_choicesJson v)
  | tests => exact congrArg Reading.toExcept (readChoices_choicesJson v)
  | triggers => exact congrArg Reading.toExcept (readChoices_choicesJson v)
  | nodeVersion => exact rfl
  | options => exact Options.record.read_entries v

def record : Record Config Slot Slot.Value where
  slots := Slot.all
  field := Slot.field
  get := Slot.get
  dump := Slot.dump
  read := readFields
  mem_slots s := by cases s <;> decide
  apart := by decide
  ext := ext_get
  get_read _ s := by cases s <;> rfl
  faults_read _ := by simp [readFields, Slot.all, Slot.field]
  gives_dump := gives_dump

theorem entries_eq (c : Config) : c.entries = record.entries c := rfl

end Config

end AppPipeline
