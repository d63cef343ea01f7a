import AppPipeline.Text.Blank
import AppPipeline.Text.Search

/-!
# Categories of commands

A command is classified by the label of its step and its own text, both in
lower case. The rules are tried from the most to the least specific one and
the first that applies decides.
-/

namespace AppPipeline

inductive Category where
  | install
  | typecheck
  | lint
  | format
  | jest
  | rntl
  | hooks
  | cacheDir
  | easInstall
  | build
  | other
  deriving DecidableEq, Repr

namespace Category

def all : List Category :=
  [.install, .typecheck, .lint, .format, .jest, .rntl, .hooks, .cacheDir, .easInstall, .build,
   .other]

def name : Category → String
  | .install => "install"
  | .typecheck => "typecheck"
  | .lint => "lint"
  | .format => "format"
  | .jest => "jest"
  | .rntl => "rntl"
  | .hooks => "hooks"
  | .cacheDir => "cache-dir"
  | .easInstall => "eas-install"
  | .build => "build"
  | .other => "other"

/-- The category with a name. -/
def named? (s : String) : Option Category := all.find? fun c => c.name == s

theorem named?_name (c : Category) : named? c.name = some c := by cases c <;> decide

/-- Some word of a list stands in the text. -/
def mentionsAny (text : String) (words : List String) : Bool := words.any (Text.mentions text)

def installCommands : List String := ["yarn install", "npm install", "pnpm install"]

/-- A label of tests that is not one of the two special suites. -/
def namesTests (label : String) : Bool :=
  Text.mentions label "jest"
    || (Text.mentions label "test"
      && !mentionsAny label ["rntl", "hook", "react native testing"])

/-- The category for a label and a command, given as they are written. -/
def classify (stepName command : String) : Category :=
  let label := Text.lowerAscii stepName
  let bare := Text.strip command
  let text := Text.lowerAscii bare
  if Text.mentions label "install dependencies" || installCommands.contains bare then .install
  else if Text.mentions label "typescript" || mentionsAny text ["tsc", "typecheck", "type-check"]
    then .typecheck
  else if Text.mentions label "eslint" || mentionsAny text ["eslint", "run lint"] then .lint
  else if Text.mentions label "prettier" || mentionsAny text ["prettier", "format:check"]
    then .format
  else if Text.mentions label "renderhook" || Text.mentions text "test:hooks" then .hooks
  else if Text.mentions label "react native testing library" || Text.mentions text "test:rntl"
    then .rntl
  else if namesTests label then .jest
  else if Text.mentions label "cache directory"
      || mentionsAny text ["cache dir", "npm config get cache", "pnpm store path"]
    then .cacheDir
  else if mentionsAny text
      ["eas-cli", "yarn global add eas", "npm install -g eas", "pnpm add -g eas"]
    then .easInstall
  else if mentionsAny text ["eas build", "eas submit"] then .build
  else .other

end Category

end AppPipeline
