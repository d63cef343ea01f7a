/-!
# The closed choices of a configuration

Each choice is an enumeration with its members in order and their names.
`find?` reads a name exactly (`find?_name`), so names are distinct
(`Choice.name_injective`); `allowed` lists the names for a
message.
-/

namespace AppPipeline

/-- An enumeration with named members. -/
class Choice (α : Type) where
  members : List α
  name : α → String

namespace Choice

variable {α : Type} [Choice α]

def find? (s : String) : Option α := members.find? fun a => name a == s

/-- The last two names of a list are joined by a word, the others by commas. -/
def alternatives : List String → String
  | [] => ""
  | [a] => a
  | [a, b] => a ++ " or " ++ b
  | a :: rest => a ++ ", " ++ alternatives rest

/-- The names, each in quotes. -/
def allowed (names : List String) : String :=
  alternatives (names.map fun s => "'" ++ s ++ "'")

end Choice

/-! ## The choices -/

inductive PackageManager where
  | yarn
  | npm
  | pnpm
  deriving DecidableEq, Repr

instance : Choice PackageManager where
  members := [.yarn, .npm, .pnpm]
  name
    | .yarn => "yarn"
    | .npm => "npm"
    | .pnpm => "pnpm"

inductive Storage where
  | githubRelease
  | zohoDrive
  | googleDrive
  | custom
  deriving DecidableEq, Repr

instance : Choice Storage where
  members := [.githubRelease, .zohoDrive, .googleDrive, .custom]
  name
    | .githubRelease => "github-release"
    | .zohoDrive => "zoho-drive"
    | .googleDrive => "google-drive"
    | .custom => "custom"

inductive BuildType where
  | dev
  | prodApk
  | prodAab
  deriving DecidableEq, Repr

instance : Choice BuildType where
  members := [.dev, .prodApk, .prodAab]
  name
    | .dev => "dev"
    | .prodApk => "prod-apk"
    | .prodAab => "prod-aab"

inductive TestKind where
  | typescript
  | eslint
  | prettier
  deriving DecidableEq, Repr

instance : Choice TestKind where
  members := [.typescript, .eslint, .prettier]
  name
    | .typescript => "typescript"
    | .eslint => "eslint"
    | .prettier => "prettier"

inductive Trigger where
  | pushMain
  | pullRequest
  | manual
  deriving DecidableEq, Repr

instance : Choice Trigger where
  members := [.pushMain, .pullRequest, .manual]
  name
    | .pushMain => "push-main"
    | .pullRequest => "pull-request"
    | .manual => "manual"

inductive Notification where
  | slack
  | discord
  | both
  deriving DecidableEq, Repr

instance : Choice Notification where
  members := [.slack, .discord, .both]
  name
    | .slack => "slack"
    | .discord => "discord"
    | .both => "both"

/-! ## Names are read back -/

/-- Every member is found under its own name. -/
class LawfulChoice (α : Type) [Choice α] : Prop where
  find?_name : ∀ a : α, Choice.find? (Choice.name a) = some a

theorem Choice.name_injective {α : Type} [Choice α] [LawfulChoice α] {a b : α}
    (h : Choice.name a = Choice.name b) : a = b := by
  have hf := congrArg (Choice.find? (α := α)) h
  rwa [LawfulChoice.find?_name, LawfulChoice.find?_name, Option.some.injEq] at hf

instance : LawfulChoice PackageManager := ⟨fun a => by cases a <;> decide⟩

instance : LawfulChoice Storage := ⟨fun a => by cases a <;> decide⟩

instance : LawfulChoice BuildType := ⟨fun a => by cases a <;> decide⟩

instance : LawfulChoice TestKind := ⟨fun a => by cases a <;> decide⟩

instance : LawfulChoice Trigger := ⟨fun a => by cases a <;> decide⟩

instance : LawfulChoice Notification := ⟨fun a => by cases a <;> decide⟩

end AppPipeline
