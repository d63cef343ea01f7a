import AppPipeline.Config.Reader
import AppPipeline.Failure

/-!
# Entries of a test matrix

An entry is a named configuration with the fixture app that it runs on. An
entry written by hand may leave the fixture out: then the configuration is
read first and on its own, and its package manager decides the fixture.
-/

namespace AppPipeline.Matrix

structure Entry where
  name : String
  config : Config
  fixture : String
  deriving DecidableEq, Repr

/-- The fixture app of a package manager. -/
def fixtureOf (manager : PackageManager) : String := Choice.name manager ++ "-app"

namespace Entry

/-- An entry on the fixture of its package manager. -/
def make (name : String) (config : Config) : Entry := ⟨name, config, fixtureOf config.packageManager⟩

def toJson (e : Entry) : Json :=
  .object [("name", .str e.name), ("config", e.config.toJson), ("fixture", .str e.fixture)]

/-! ## Reading -/

def nameField : Field String := ⟨"name", "name", "", readText ""⟩

def configField : Field Config := ⟨"config", "config", {}, Config.read⟩

def fixtureField : Field String := ⟨"fixture", "fixture", "", readText ""⟩

/-- Reads all fields of an entry with a fixture. -/
def readComplete (all : List (String × Json)) : Reading Entry :=
  let fields := present all
  let name := nameField.readRequired fields
  let config := configField.read fields
  let fixture := fixtureField.readRequired fields
  ⟨⟨name.value, config.value, fixture.value⟩, name.faults ++ config.faults ++ fixture.faults⟩

/-- Reads an entry without a fixture; faults of its configuration come alone. -/
def readShort (all : List (String × Json)) : Reading Entry :=
  let given := (all.lookup "config").getD .null
  let config := Config.read (if given.isVoid then .object [] else given)
  if config.faults.isEmpty then
    let name := nameField.readRequired (present all)
    ⟨make name.value config.value, name.faults⟩
  else ⟨make "" config.value, config.faults⟩

def read : Json → Reading Entry
  | .object fields =>
    if ((fields.lookup "fixture").getD .null).isVoid then readShort fields
    else readComplete fields
  | _ => .fault (make "" {}) (.notObject .entry)

/-- Reads entries in order; the first that is at fault decides the failure. -/
def readAll : List Json → Except Failure (List Entry)
  | [] => .ok []
  | j :: rest =>
    match (read j).toExcept with
    | .error faults => .error (.invalidConfig faults)
    | .ok e => (readAll rest).map (e :: ·)

end Entry

end AppPipeline.Matrix
