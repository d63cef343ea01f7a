import AppPipeline.Config.Basic
import AppPipeline.Config.Fault
import AppPipeline.Number.Decimal
import AppPipeline.Text.Half

/-!
# Reading a configuration

Every field is read on its own: `Field.read` looks it up under its data name,
then under its plain name, null counting as absent, and the faults of all
fields are collected in the order of the fields. `Config.read` reads a whole
configuration, `Config.updated` replaces fields of one, `Config.withOptions`
replaces options.
-/

namespace AppPipeline

/-! ## Single values -/

def readText (default : String) : Json → Reading String
  | .str s => .pure s
  | _ => .fault default .notText

def readOptionalText : Json → Reading (Option String)
  | .str s => .pure (some s)
  | _ => .fault none .notText

/-- A version may be given as a number, whose text counts. -/
def readVersion (default : String) : Json → Reading String
  | .str s => .pure s
  | .int n => if Literal.isWritable n then .pure (toString n) else .fault default .longInteger
  | .float x => .pure x.text
  | _ => .fault default .notText

def names (α : Type) [Choice α] : List String :=
  (Choice.members : List α).map Choice.name

def choiceOf? {α : Type} [Choice α] : Json → Option α
  | .str s => Choice.find? s
  | _ => none

/-- Why a value is none of the choices. -/
def choiceFault (α : Type) [Choice α] : Json → FaultCause
  | .str s => if Text.hasHalf s then .brokenText else .notAmong (names α)
  | _ => .notAmong (names α)

def readChoice {α : Type} [Choice α] (default : α) (j : Json) : Reading α :=
  match choiceOf? j with
  | some a => .pure a
  | none => .fault default (choiceFault α j)

def readOptionalChoice {α : Type} [Choice α] (j : Json) : Reading (Option α) :=
  match choiceOf? (α := α) j with
  | some a => .pure (some a)
  | none => .fault none (choiceFault α j)

/-- The items of a list from position `i` on; a bad one is a fault at its position. -/
def readItems {α : Type} [Choice α] (i : Nat) : List Json → Reading (List α)
  | [] => .pure []
  | j :: rest =>
    let others := readItems i.succ rest
    match choiceOf? j with
    | some a => { others with value := a :: others.value }
    | none => { others with faults := ⟨[toString i], choiceFault α j⟩ :: others.faults }

def readChoices {α : Type} [Choice α] : Json → Reading (List α)
  | .list items => readItems 0 items
  | _ => .fault [] .notList

/-! ## Truth values -/

def truthWord? (s : String) : Option Bool :=
  let w := String.ofList (s.toList.map Char.toLower)
  if w ∈ ["0", "off", "f", "false", "n", "no"] then some false
  else if w ∈ ["1", "on", "t", "true", "y", "yes"] then some true
  else none

/-- An integer of 64 bits is below it, and not below its negation. -/
def wordLimit : Int := 0x8000000000000000

/-- Zero and one are truth values; other integers of 64 bits are unclear. -/
def readInteger (default : Bool) (n : Int) : Reading Bool :=
  if n = 0 then .pure false
  else if n = 1 then .pure true
  else .fault default .unclearTruthValue

def readBool (default : Bool) : Json → Reading Bool
  | .bool b => .pure b
  | .str s =>
    match truthWord? s with
    | some b => .pure b
    | none => .fault default (if Text.hasHalf s then .brokenText else .unclearTruthValue)
  | .int n =>
    if -wordLimit ≤ n ∧ n < wordLimit then readInteger default n else .fault default .notTruthValue
  | .float x =>
    match x.toInt? with
    | some n =>
      if -wordLimit < n ∧ n < wordLimit then readInteger default n else .fault default .notTruthValue
    | none => .fault default .notTruthValue
  | _ => .fault default .notTruthValue

/-! ## Fields -/

/-- A field with its data name, its plain name, the value it has when absent
and the way it is read. -/
structure Field (α : Type) where
  dataName : String
  plainName : String
  default : α
  readValue : Json → Reading α

namespace Field

variable {α : Type}

/-- The value of the field and the key it stands under. -/
def find? (f : Field α) (fields : List (String × Json)) : Option (String × Json) :=
  match fields.lookup f.dataName with
  | some j => some (f.dataName, j)
  | none => (fields.lookup f.plainName).map (f.plainName, ·)

/-- Reads the field out of fields of which none is null. -/
def read (f : Field α) (fields : List (String × Json)) : Reading α :=
  match f.find? fields with
  | some (key, j) => (f.readValue j).under key
  | none => .pure f.default

/-- Reads the field, which must be there. -/
def readRequired (f : Field α) (fields : List (String × Json)) : Reading α :=
  match f.find? fields with
  | some (key, j) => (f.readValue j).under key
  | none => (Reading.fault f.default .missing).under f.dataName

end Field

/-! ## Options -/

namespace Options

def switch (dataName plainName : String) (default : Bool) : Field Bool :=
  ⟨dataName, plainName, default, readBool default⟩

def iosSupportField := switch "iOSSupport" "ios_support" false

def publishToExpoField := switch "publishToExpo" "publish_to_expo" false

def publishToStoresField := switch "publishToStores" "publish_to_stores" false

def jestTestsField := switch "jestTests" "jest_tests" false

def rntlTestsField := switch "rntlTests" "rntl_tests" false

def renderHookTestsField := switch "renderHookTests" "render_hook_tests" false

def cachingField := switch "caching" "caching" true

def notificationsField := switch "notifications" "notifications" false

def notificationTypeField : Field (Option Notification) :=
  ⟨"notificationType", "notification_type", none, readOptionalChoice⟩

def readFields (all : List (String × Json)) : Reading Options :=
  let fields := present all
  let iosSupport := iosSupportField.read fields
  let publishToExpo := publishToExpoField.read fields
  let publishToStores := publishToStoresField.read fields
  let jestTests := jestTestsField.read fields
  let rntlTests := rntlTestsField.read fields
  let renderHookTests := renderHookTestsField.read fields
  let caching := cachingField.read fields
  let notifications := notificationsField.read fields
  let notificationType := notificationTypeField.read fields
  { value :=
      ⟨iosSupport.value, publishToExpo.value, publishToStores.value, jestTests.value,
       rntlTests.value, renderHookTests.value, caching.value, notifications.value,
       notificationType.value⟩
    faults :=
      iosSupport.faults ++ publishToExpo.faults ++ publishToStores.faults ++ jestTests.faults
        ++ rntlTests.faults ++ renderHookTests.faults ++ caching.faults ++ notifications.faults
        ++ notificationType.faults }

def read : Json → Reading Options
  | .object fields => readFields fields
  | _ => .fault {} (.notObject .options)

/-- The options with some fields replaced. -/
def updated (o : Options) (changes : List (String × Json)) : Reading Options :=
  readFields (changes.foldl (fun acc f => Json.put f.1 f.2 acc) o.entries)

end Options

/-! ## Configurations -/

namespace Config

def projectNameField : Field (Option String) :=
  ⟨"projectName", "project_name", none, readOptionalText⟩

def packageManagerField : Field PackageManager :=
  ⟨"packageManager", "package_manager", .yarn, readChoice .yarn⟩

def storageField : Field Storage :=
  ⟨"storageType", "storage_type", .githubRelease, readChoice .githubRelease⟩

def buildTypesField : Field (List BuildType) := ⟨"buildTypes", "build_types", [], readChoices⟩

def testsField : Field (List TestKind) := ⟨"tests", "tests", [], readChoices⟩

def triggersField : Field (List Trigger) := ⟨"triggers", "triggers", [], readChoices⟩

def nodeVersionField : Field String := ⟨"nodeVersion", "node_version", "20", readVersion "20"⟩

def optionsField : Field Options := ⟨"advancedOptions", "advanced_options", {}, Options.read⟩

def readFields (all : List (String × Json)) : Reading Config :=
  let fields := present all
  let projectName := projectNameField.read fields
  let packageManager := packageManagerField.read fields
  let storage := storageField.read fields
  let buildTypes := buildTypesField.read fields
  let tests := testsField.read fields
  let triggers := triggersField.read fields
  let nodeVersion := nodeVersionField.read fields
  let options := optionsField.read fields
  { value :=
      ⟨projectName.value, packageManager.value, storage.value, buildTypes.value, tests.value,
       triggers.value, nodeVersion.value, options.value⟩
    faults :=
      projectName.faults ++ packageManager.faults ++ storage.faults ++ buildTypes.faults
        ++ tests.faults ++ triggers.faults ++ nodeVersion.faults ++ options.faults }

def read : Json → Reading Config
  | .object fields => readFields fields
  | _ => .fault {} (.notObject .config)

/-- The configuration with some fields replaced. -/
def updated (c : Config) (changes : List (String × Json)) : Reading Config :=
  readFields (changes.foldl (fun acc f => Json.put f.1 f.2 acc) c.entries)

/-- The configuration with some options replaced; faults of the options come alone. -/
def withOptions (c : Config) (changes : List (String × Json)) : Reading Config :=
  let options := c.options.updated changes
  if options.faults.isEmpty then c.updated [("advanced_options", .object options.value.entries)]
  else ⟨c, options.faults⟩

end Config

end AppPipeline
