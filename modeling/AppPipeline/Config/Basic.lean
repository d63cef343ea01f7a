import AppPipeline.Config.Choice
import AppPipeline.Json.Basic

/-!
# Pipeline configurations

`Options` are the feature switches of a configuration, `Config` the whole of
it. The order of its collections and their repetitions carry no meaning.
`toJson` writes the fields under their data names and leaves out what is
unset; `entries` lists the same fields under their plain names.
-/

namespace AppPipeline

structure Options where
  iosSupport : Bool := false
  publishToExpo : Bool := false
  publishToStores : Bool := false
  jestTests : Bool := false
  rntlTests : Bool := false
  renderHookTests : Bool := false
  caching : Bool := true
  notifications : Bool := false
  notificationType : Option Notification := none
  deriving DecidableEq, Repr, Inhabited

structure Config where
  projectName : Option String := none
  packageManager : PackageManager := .yarn
  storage : Storage := .githubRelease
  buildTypes : List BuildType := []
  tests : List TestKind := []
  triggers : List Trigger := []
  nodeVersion : String := "20"
  options : Options := {}
  deriving DecidableEq, Repr, Inhabited

/-! ## Derived switches -/

/-- The notification type, both channels where none is named. -/
def Options.effectiveNotification (o : Options) : Notification := o.notificationType.getD .both

def Options.anyTestFlag (o : Options) : Bool := o.jestTests || o.rntlTests || o.renderHookTests

/-- Some check or test suite is selected. -/
def Config.hasTestWork (c : Config) : Bool := !c.tests.isEmpty || c.options.anyTestFlag

/-! ## Data form -/

def choiceJson {α : Type} [Choice α] (a : α) : Json := .str (Choice.name a)

def choicesJson {α : Type} [Choice α] (xs : List α) : Json := .list (xs.map choiceJson)

def optionJson {α : Type} (f : α → Json) : Option α → Json
  | none => .null
  | some a => f a

/-- Fields without those that are null. -/
def present (fields : List (String × Json)) : List (String × Json) :=
  fields.filter fun f => f.2 != .null

def Options.entries (o : Options) : List (String × Json) :=
  [("ios_support", .bool o.iosSupport),
   ("publish_to_expo", .bool o.publishToExpo),
   ("publish_to_stores", .bool o.publishToStores),
   ("jest_tests", .bool o.jestTests),
   ("rntl_tests", .bool o.rntlTests),
   ("render_hook_tests", .bool o.renderHookTests),
   ("caching", .bool o.caching),
   ("notifications", .bool o.notifications),
   ("notification_type", optionJson choiceJson o.notificationType)]

def Options.toJson (o : Options) : Json :=
  .object (present
    [("iOSSupport", .bool o.iosSupport),
     ("publishToExpo", .bool o.publishToExpo),
     ("publishToStores", .bool o.publishToStores),
     ("jestTests", .bool o.jestTests),
     ("rntlTests", .bool o.rntlTests),
     ("renderHookTests", .bool o.renderHookTests),
     ("caching", .bool o.caching),
     ("notifications", .bool o.notifications),
     ("notificationType", optionJson choiceJson o.notificationType)])

def Config.entries (c : Config) : List (String × Json) :=
  [("project_name", optionJson .str c.projectName),
   ("package_manager", choiceJson c.packageManager),
   ("storage_type", choiceJson c.storage),
   ("build_types", choicesJson c.buildTypes),
   ("tests", choicesJson c.tests),
   ("triggers", choicesJson c.triggers),
   ("node_version", .str c.nodeVersion),
   ("advanced_options", .object c.options.entries)]

def Config.toJson (c : Config) : Json :=
  .object (present
    [("projectName", optionJson .str c.projectName),
     ("packageManager", choiceJson c.packageManager),
     ("storageType", choiceJson c.storage),
     ("buildTypes", choicesJson c.buildTypes),
     ("tests", choicesJson c.tests),
     ("triggers", choicesJson c.triggers),
     ("nodeVersion", .str c.nodeVersion),
     ("advancedOptions", c.options.toJson)])

end AppPipeline
