import AppPipeline.Workflow.Builds

/-!
# Delivery

What the build job does with its files and at its end: uploads to a drive,
the artifact archive, the release, store submissions and notifications, with
the secrets that each of them reads.
-/

namespace AppPipeline

/-! ## Drives -/

/-- A cloud drive; each option of its configuration is read from an environment entry. -/
structure Drive where
  label : String
  remote : String
  options : List (String × String)
  deriving DecidableEq, Repr

def Storage.drive? : Storage → Option Drive
  | .githubRelease => none
  | .zohoDrive =>
    some ⟨"Zoho Drive", "zohodrive",
      [("type", "RCLONE_CONFIG_ZOHODRIVE_TYPE"),
       ("token", "RCLONE_CONFIG_ZOHODRIVE_TOKEN"),
       ("drive_id", "RCLONE_CONFIG_ZOHODRIVE_DRIVE_ID")]⟩
  | .googleDrive =>
    some ⟨"Google Drive", "gdrive",
      [("type", "RCLONE_CONFIG_GDRIVE_TYPE"),
       ("token", "RCLONE_CONFIG_GDRIVE_TOKEN"),
       ("root_folder_id", "RCLONE_CONFIG_GDRIVE_ROOT_FOLDER_ID")]⟩
  | .custom =>
    some ⟨"cloud storage", "cloud",
      [("type", "CLOUD_STORAGE_TYPE"),
       ("token", "CLOUD_STORAGE_TOKEN"),
       ("root_id", "CLOUD_STORAGE_ROOT_ID")]⟩

def Drive.secrets (d : Drive) : List String := d.options.map Prod.snd

def releaseSecrets : List String := ["GITHUB_TOKEN"]

def Storage.secrets (s : Storage) : List String := (s.drive?.map Drive.secrets).getD releaseSecrets

def Drive.configScript (d : Drive) : String :=
  script
    (["mkdir -p ~/.config/rclone",
      "cat > ~/.config/rclone/rclone.conf << EOF",
      "[" ++ d.remote ++ "]"]
     ++ d.options.map (fun o => o.1 ++ " = $" ++ o.2)
     ++ ["EOF"])

namespace Config

/-- Copies the file of one build, under the guard of that build. -/
def uploadStep (c : Config) (d : Drive) (b : Build) : Step :=
  (Step.shell ("📤 Upload " ++ b.file ++ " to " ++ d.label)
    ("rclone copy " ++ b.output ++ " " ++ d.remote ++ ":builds/" ++ hosted "github.run_number"
      ++ "/")).onlyIf (c.buildGuard b)

def driveSteps (c : Config) (d : Drive) : List Step :=
  Step.action "🏗 Setup rclone" "AnimMouse/setup-rclone@v1" [("version", .str "latest")]
    :: Step.shell ("📤 Configure " ++ d.label) d.configScript
    :: c.builds.map (c.uploadStep d)

/-! ## Archive and release -/

def archiveStep (c : Config) : Step :=
  Step.action "📦 Upload build artifacts" "actions/upload-artifact@v4"
    [("name", .str
      (if c.options.iosSupport then "app-builds-" ++ hosted "matrix.platform" else "app-builds")),
     ("path", .str (script c.artifacts)),
     ("retention-days", .int 7)]

end Config

/-- Collects what the release is called. -/
def buildInfoStep : Step :=
  (Step.shell "🏷️ Generate build information"
    (script
      ["VERSION=$(jq -r '.version' package.json)",
       "echo \"version=$VERSION\" >> $GITHUB_OUTPUT",
       "echo \"build_number=" ++ hosted "github.run_number" ++ "\" >> $GITHUB_OUTPUT",
       "git log --pretty=format:\"- %s\" -n 10 > CHANGELOG.md"])).withId "build-info"

def releaseStep (files : List String) : Step :=
  let version := hosted "steps.build-info.outputs.version"
  let number := hosted "steps.build-info.outputs.build_number"
  Step.action "📝 Create GitHub Release" "softprops/action-gh-release@v1"
    [("draft", .bool true),
     ("name", .str ("Release v" ++ version ++ " (build " ++ number ++ ")")),
     ("tag_name", .str ("v" ++ version ++ "-" ++ number)),
     ("files", .str (script files)),
     ("body_path", .str "CHANGELOG.md")]

namespace Config

/-- A drive is always set up; uploads, archive and release need a build. -/
def publicationSteps (c : Config) : List Step :=
  match c.storage.drive? with
  | some d => c.driveSteps d ++ (if c.builds.isEmpty then [] else [c.archiveStep])
  | none =>
    if c.builds.isEmpty then [] else [c.archiveStep, buildInfoStep, releaseStep c.artifacts]

/-! ## Stores -/

/-- A step of manual runs on one leg of the platform matrix. -/
def manualStep (c : Config) (p : Platform) (name command : String) : Step :=
  (Step.shell name command).onlyIf (Guard.allOf [c.platformGuard p, some manualEvent])

def storeSteps (c : Config) : List Step :=
  (if c.options.publishToExpo then
    [c.manualStep .android "🚀 Publish to Expo" "eas update --auto --non-interactive"] else [])
  ++ (if c.options.publishToStores then
    [c.manualStep .android "🏪 Submit to Play Store"
      "eas submit -p android --latest --non-interactive"] else [])
  ++ (if c.options.publishToStores && c.options.iosSupport then
    [c.manualStep .ios "🏪 Submit to App Store" "eas submit -p ios --latest --non-interactive"]
    else [])

end Config

/-! ## Notifications -/

inductive Channel where
  | slack
  | discord
  deriving DecidableEq, Repr

namespace Channel

def name : Channel → String
  | .slack => "slack"
  | .discord => "discord"

def secretName : Channel → String
  | .slack => "SLACK_WEBHOOK"
  | .discord => "DISCORD_WEBHOOK"

def step : Channel → Step
  | .slack =>
    ((Step.action "📣 Send Slack notification" "rtCamp/action-slack-notify@v2" []).onlyIf
      (some "always()")).withEnv
        [("SLACK_COLOR", hosted "job.status"),
         ("SLACK_TITLE", "Mobile build " ++ hosted "job.status"),
         ("SLACK_MESSAGE",
          hosted "github.repository" ++ " build #" ++ hosted "github.run_number")]
  | .discord =>
    (Step.action "📣 Send Discord notification" "Ilshidur/action-discord@0.3.2"
      [("args", .str (hosted "github.repository" ++ " build #" ++ hosted "github.run_number" ++ ": "
        ++ hosted "job.status"))]).onlyIf (some "always()")

end Channel

def Notification.channels : Notification → List Channel
  | .slack => [.slack]
  | .discord => [.discord]
  | .both => [.slack, .discord]

/-- The channels that are told of a build. -/
def Options.channels (o : Options) : List Channel :=
  if o.notifications then o.effectiveNotification.channels else []

end AppPipeline
