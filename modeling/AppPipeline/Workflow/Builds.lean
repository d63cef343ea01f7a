import AppPipeline.Workflow.Checks

/-!
# Builds

`Build` describes one build of the app for a platform: its profile, the file
it leaves and the build types that select it. The guards of build steps
restrict them to a leg of the platform matrix and to a manual choice.
-/

namespace AppPipeline

inductive Platform where
  | android
  | ios
  deriving DecidableEq, Repr

namespace Platform

def all : List Platform := [.android, .ios]

def name : Platform → String
  | .android => "android"
  | .ios => "ios"

end Platform

structure Build where
  label : String
  platform : Platform
  profile : String
  file : String
  nodeEnv : String
  buildTypes : List BuildType
  deriving DecidableEq, Repr

namespace Build

def androidBuilds : List Build :=
  [⟨"📱 Build Development APK", .android, "development", "app-dev.apk", "development", [.dev]⟩,
   ⟨"📱 Build Production APK", .android, "production-apk", "app-prod.apk", "production",
    [.prodApk]⟩,
   ⟨"📱 Build Production AAB", .android, "production", "app-prod.aab", "production", [.prodAab]⟩]

def iosBuilds : List Build :=
  [⟨"🍏 Build iOS Development", .ios, "development", "app-ios-dev.app", "development", [.dev]⟩,
   ⟨"🍏 Build iOS Production", .ios, "production", "app-ios-prod.ipa", "production",
    [.prodApk, .prodAab]⟩]

/-- The path of the file that the build leaves. -/
def output (b : Build) : String := "./" ++ b.file

def memoryFlags : String :=
  "export NODE_OPTIONS=\"--openssl-legacy-provider --max_old_space_size=4096\""

def command (b : Build) : String :=
  script
    [memoryFlags,
     "eas build --platform " ++ b.platform.name ++ " --profile " ++ b.profile
       ++ " --local --non-interactive --output=" ++ b.output]

def selectedBy (chosen : List BuildType) (b : Build) : Bool :=
  b.buildTypes.any fun t => chosen.contains t

end Build

/-! ## Guards -/

def pushEvent : String := "github.event_name == 'push'"

def manualEvent : String := "github.event_name == 'workflow_dispatch'"

def pickedInput (value : String) : String := "github.event.inputs.buildType == '" ++ value ++ "'"

/-- On a push, or when the manual choice is all or one of the build types. -/
def buildTypeGuard (types : List BuildType) : String :=
  Guard.anyOf (pickedInput "all" :: types.map (fun t => pickedInput (Choice.name t)) ++ [pushEvent])

namespace Config

/-- Restricts a step to a leg of the platform matrix, where there is one. -/
def platformGuard (c : Config) (p : Platform) : Option String :=
  if c.options.iosSupport then
    Guard.allOf
      [some ("matrix.platform == '" ++ p.name ++ "'"),
       some (Guard.anyOf
        ["github.event_name != 'workflow_dispatch'",
         "github.event.inputs.platform == '" ++ p.name ++ "'"])]
  else none

/-- The guard of a build and of what is done with its file. -/
def buildGuard (c : Config) (b : Build) : Option String :=
  Guard.allOf [c.platformGuard b.platform, some (buildTypeGuard b.buildTypes)]

/-! ## Selected builds -/

def builds (c : Config) : List Build :=
  Build.androidBuilds.filter (Build.selectedBy c.buildTypes)
    ++ (if c.options.iosSupport then Build.iosBuilds.filter (Build.selectedBy c.buildTypes) else [])

/-- The paths of the files that the builds leave. -/
def artifacts (c : Config) : List String := c.builds.map Build.output

def buildStep (c : Config) (b : Build) : Step :=
  ((Step.shell b.label b.command).onlyIf (c.buildGuard b)).withEnv [("NODE_ENV", b.nodeEnv)]

end Config

/-! ## Preparing builds -/

def fixMainEntry : String :=
  script
    ["jq '.main = \"node_modules/expo/AppEntry.js\"' package.json > package.json.tmp",
     "mv package.json.tmp package.json"]

def metroSvgConfig : String :=
  script
    ["cat > metro.config.js << 'EOF'",
     "// eslint-disable-next-line @typescript-eslint/no-var-requires",
     "const \x7b getDefaultConfig \x7d = require('expo/metro-config');",
     "",
     "const config = getDefaultConfig(__dirname);",
     "",
     "config.transformer.babelTransformerPath = require.resolve('react-native-svg-transformer');",
     "config.resolver.assetExts = config.resolver.assetExts.filter((ext) => ext !== 'svg');",
     "config.resolver.sourceExts = [...config.resolver.sourceExts, 'svg'];",
     "",
     "module.exports = config;",
     "EOF"]

/-- The local build cache, a check of the build tool and fixes of the project. -/
def buildPreparation : List Step :=
  let key := hosted "runner.os" ++ "-eas-build-local-"
  [Step.action "📱 Setup EAS build cache" cacheAction
    [("path", .str "~/.eas-build-local"),
     ("key", .str (key ++ hosted "hashFiles('**/package.json')")),
     ("restore-keys", .str key)],
   Step.shell "🔄 Verify EAS CLI installation"
    (script ["echo \"EAS CLI version:\"", "eas --version"]),
   Step.shell "📋 Fix package.json main entry" fixMainEntry,
   Step.shell "📋 Update metro.config.js for SVG support" metroSvgConfig]

/-- Setup and builds; what is done with the files comes after. -/
def Config.buildSteps (c : Config) : List Step :=
  let t := c.packageManager.tools
  t.setupSteps c.nodeVersion c.options.caching
    ++ t.installStep [t.globalCliInstall]
    :: buildPreparation ++ c.builds.map c.buildStep

end AppPipeline
