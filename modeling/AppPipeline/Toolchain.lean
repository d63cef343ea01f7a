import AppPipeline.Failure

/-!
# Commands of the package managers

A `Toolchain` holds the shell commands and file names of one package manager;
`PackageManager.tools` is the table of the three.
-/

namespace AppPipeline

structure Toolchain where
  name : String
  install : String
  cacheDir : String
  lockFile : String
  globalCliInstall : String
  typecheck : String
  lint : String
  formatCheck : String
  test : String
  testRntl : String
  testHooks : String
  /-- an action that runs before Node is set up, if there is one -/
  setupAction : Option String
  deriving DecidableEq, Repr

def PackageManager.tools : PackageManager → Toolchain
  | .yarn =>
    { name := "yarn"
      install := "yarn install"
      cacheDir := "yarn cache dir"
      lockFile := "yarn.lock"
      globalCliInstall := "yarn global add eas-cli@latest"
      typecheck := "yarn tsc"
      lint := "yarn lint"
      formatCheck := "yarn format:check"
      test := "yarn test"
      testRntl := "yarn test:rntl"
      testHooks := "yarn test:hooks"
      setupAction := none }
  | .npm =>
    { name := "npm"
      install := "npm install"
      cacheDir := "npm config get cache"
      lockFile := "package-lock.json"
      globalCliInstall := "npm install -g eas-cli@latest"
      typecheck := "npx tsc"
      lint := "npm run lint"
      formatCheck := "npm run format:check"
      test := "npm test"
      testRntl := "npm run test:rntl"
      testHooks := "npm run test:hooks"
      setupAction := none }
  | .pnpm =>
    { name := "pnpm"
      install := "pnpm install"
      cacheDir := "pnpm store path"
      lockFile := "pnpm-lock.yaml"
      globalCliInstall := "pnpm add -g eas-cli@latest"
      typecheck := "pnpm tsc"
      lint := "pnpm lint"
      formatCheck := "pnpm format:check"
      test := "pnpm test"
      testRntl := "pnpm test:rntl"
      testHooks := "pnpm test:hooks"
      setupAction := some "pnpm/action-setup@v4" }

namespace Toolchain

/-- The step that looks up the cache directory. -/
def cacheDirStepId (t : Toolchain) : String := t.name ++ "-cache-dir-path"

/-- Writes the cache directory to the step's output `dir`. -/
def cacheDirScript (t : Toolchain) : String :=
  "echo \"dir=$(" ++ t.cacheDir ++ ")\" >> $GITHUB_OUTPUT"

/-- The toolchain of a name. -/
def named (name : Json) : Except Failure Toolchain :=
  match name with
  | .str s =>
    match (Choice.find? s : Option PackageManager) with
    | some pm => .ok pm.tools
    | none => .error (.unsupportedPackageManager name)
  | _ => .error (.unsupportedPackageManager name)

end Toolchain

end AppPipeline
