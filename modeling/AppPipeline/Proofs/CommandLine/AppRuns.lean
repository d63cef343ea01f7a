import AppPipeline.Proofs.CommandLine.Verdicts
import AppPipeline.Proofs.Files.Folders
import AppPipeline.Proofs.Matrix.Stored

/-!
# Runs of apps

A run of an app that has no package file ends with a structured error. One whose package
cannot be used starts no process, but ends with a fault that no message covers. All others run
the commands that the app supports and tell by the exit code how they ended; if the processes
leave whole texts, they report their results or what stopped them, and in debug mode the calls
that led to it (`app_runs`).
-/

namespace AppPipeline

open Files
open Text (Whole)

namespace App

/-- The text of a package file can be used: it is an object, and its scripts are void or an
object, too. -/
def IsUsable (text : String) : Prop :=
  ∃ fields, Json.parse text = .ok (.object fields)
    ∧ (((fields.lookup "scripts").getD .null).isVoid = true
      ∨ ∃ scripts, fields.lookup "scripts" = some (.object scripts))

theorem exists_scriptNames_iff (package : Json) :
    (∃ names, scriptNames package = .ok names) ↔ ∃ fields, package = .object fields
      ∧ (((fields.lookup "scripts").getD .null).isVoid = true
        ∨ ∃ scripts, fields.lookup "scripts" = some (.object scripts)) := by
  cases package with
  | object fields =>
    simp only [Json.object.injEq, exists_eq_left', scriptNames]
    split
    · next scripts hscripts =>
      refine iff_of_true ⟨_, rfl⟩ (.inr ⟨scripts, ?_⟩)
      cases hfield : fields.lookup "scripts" with
      | none =>
        rw [hfield] at hscripts
        cases hscripts
      | some j => rw [show j = .object scripts by rwa [hfield] at hscripts]
    · next hnot =>
      have hnone : ¬ ∃ scripts, fields.lookup "scripts" = some (.object scripts) := by
        rintro ⟨scripts, hscripts⟩
        exact hnot scripts (by rw [hscripts]; rfl)
      rw [or_iff_left hnone]
      split
      · next hvoid => exact iff_of_true ⟨_, rfl⟩ hvoid
      · next hvoid => exact iff_of_false nofun hvoid
  | _ => exact iff_of_false nofun nofun

/-- The scripts of an app whose package file was read are known exactly if it can be used. -/
theorem exists_scripts_iff {t : FileTree} {app : Path} {text : String}
    (h : t.read (packageFile app) = .ok text) :
    (∃ names, scripts t app = .ok names) ↔ IsUsable text := by
  rw [scripts, if_pos (FileTree.holds_of_read h), h, IsUsable]
  dsimp only
  cases Json.parse text with
  | error f => exact iff_of_false nofun nofun
  | ok package =>
    rw [exists_scriptNames_iff]
    simp only [Except.ok.injEq]

end App

namespace CommandLine

/-- The commands that an app with these scripts is tested by. -/
def appCommands (t : FileTree) (app : Path) (names : List String) : List Command :=
  App.available names (App.isTyped t app)
    (App.configFor names (App.manager t app) (App.isTyped t app)).testCommands

theorem isWhole_of_mem_appCommands {t : FileTree} {app : Path} {names : List String}
    {c : Command} (h : c ∈ appCommands t app names) : c.IsWhole :=
  Config.isWhole_of_mem_testCommands (List.mem_of_mem_filter h)

/-- What a run of an app prints before its first command. -/
def appStarted (t : FileTree) (app : Path) (names : List String) : Transcript :=
  Console.header (Session.folderName t app ++ " (" ++ Choice.name (App.manager t app) ++ ")")
    ++ Console.commands (appCommands t app names)

theorem isPrintable_appStarted (t : FileTree) (app : Path) (names : List String) :
    (appStarted t app names).IsPrintable ↔ Whole (Session.folderName t app) := by
  have hmanager (m : PackageManager) : Whole (Choice.name m) := by
    cases m <;> decide
  have hcommands : (Console.commands (appCommands t app names)).IsPrintable :=
    Console.isPrintable_commands fun c => isWhole_of_mem_appCommands
  rw [appStarted, Transcript.isPrintable_append, and_iff_left hcommands]
  constructor
  · intro h
    have htitle := Text.whole_append.1 ((List.forall_mem_cons.1 h).1 rfl)
    have hname := (Text.whole_append.1 htitle.1).2
    exact (Text.whole_append.1 (Text.whole_append.1 (Text.whole_append.1 hname).1).1).1
  · intro h
    exact Console.isPrintable_header
      (.append (.append (h.append (by decide)) (hmanager _)) (by decide))

/-! ## Single cases -/

section

variable {t : FileTree} {outcomes : List Run.Outcome} {debug : Bool} {calls : String} {r : AppRun}

theorem refuses_runApp (h : t.holds (App.packageFile (Path.ofText r.app)) = false) :
    (Session.perform t outcomes debug calls (.runApp r)).Refuses := by
  rw [Session.perform, Session.act, Session.runApp, if_pos (by rw [h]; rfl)]
  exact Session.refuses_printed_failed ..

variable (hholds : t.holds (App.packageFile (Path.ofText r.app)) = true)

include hholds

theorem breaks_runApp {f : App.PackageFault} (h : App.scripts t (Path.ofText r.app) = .error f) :
    (Session.perform t outcomes debug calls (.runApp r)).Breaks := by
  rw [Session.perform, Session.act, Session.runApp, if_neg (by rw [hholds]; decide), h]
  cases f <;> exact Session.breaks_printed_escaped t _

theorem perform_runApp {names : List String}
    (h : App.scripts t (Path.ofText r.app) = .ok names) :
    Session.perform t outcomes debug calls (.runApp r)
      = (Session.runCommands t debug calls (Path.ofText r.app) r.settings
          (appCommands t (Path.ofText r.app) names) outcomes
          (appStarted t (Path.ofText r.app) names)).printed := by
  rw [Session.perform, Session.act, Session.runApp, if_neg (by rw [hholds]; decide), h]
  rfl

/-- A package that can be used is run, if the name of the folder can be printed. -/
theorem ends_runApp (outcomes : List Run.Outcome) (debug : Bool) (calls : String)
    {names : List String} (h : App.scripts t (Path.ofText r.app) = .ok names) :
    let app := Path.ofText r.app
    let x := Session.perform t outcomes debug calls (.runApp r)
    (¬ Whole (Session.folderName t app) → x.Breaks) ∧
    (Whole (Session.folderName t app) →
      x.Tells r.settings (appCommands t app names)
        (outcomes.map (Session.shownOutcome r.settings)) ∧
      ((∀ o ∈ outcomes, o.ending.IsWhole) →
        x.Tells r.settings (appCommands t app names) outcomes ∧ x.escape = none
          ∧ x.Reports (appStarted t app names)
            (Run.run r.settings (appCommands t app names) outcomes) debug calls)) := by
  intro app x
  rw [show x = _ from perform_runApp hholds h,
    ← isPrintable_appStarted t app names]
  exact Session.ends_runCommands (FileTree.isFolder_place_of_child hholds)
    fun c => isWhole_of_mem_appCommands

end

/-! ## All cases -/

/-- Whatever the package file of an app holds, a run of the app ends with 0, 1 or 130. Without a
package file it is refused. A package that cannot be used starts no process. Any other runs the
commands that the app supports, if the name of the folder can be printed, and the exit code tells
how. If the texts of the processes are whole, too, the report of the run is printed and nothing
escapes. -/
theorem app_runs (t : FileTree) (outcomes : List Run.Outcome) (debug : Bool) (calls : String)
    (r : AppRun) :
    let app := Path.ofText r.app
    let x := Session.perform t outcomes debug calls (.runApp r)
    (x.exitCode = 0 ∨ x.exitCode = 1 ∨ x.exitCode = 130) ∧
    (t.holds (App.packageFile app) = false → x.Refuses) ∧
    ∀ text, t.read (App.packageFile app) = .ok text →
      (¬ App.IsUsable text → x.Breaks) ∧
      (App.IsUsable text → ∃ names, App.scripts t app = .ok names ∧
        (¬ Whole (Session.folderName t app) → x.Breaks) ∧
        (Whole (Session.folderName t app) →
          x.Tells r.settings (appCommands t app names)
            (outcomes.map (Session.shownOutcome r.settings)) ∧
          ((∀ o ∈ outcomes, o.ending.IsWhole) →
            x.Tells r.settings (appCommands t app names) outcomes
              ∧ x.escape = none ∧ x.Reports (appStarted t app names)
                (Run.run r.settings (appCommands t app names) outcomes) debug calls))) := by
  intro app x
  refine ⟨?_, refuses_runApp, fun text htext => ?_⟩
  · cases hholds : t.holds (App.packageFile app) with
    | false => exact .inr (.inl (refuses_runApp hholds).code)
    | true =>
      cases hscripts : App.scripts t app with
      | error f => exact .inr (.inl (breaks_runApp hholds hscripts).code)
      | ok names =>
        obtain ⟨hbroken, htells⟩ := ends_runApp hholds outcomes debug calls hscripts
        by_cases hname : Whole (Session.folderName t app)
        · exact (htells hname).1.ended
        · exact .inr (.inl (hbroken hname).code)
  · have hholds := FileTree.holds_of_read htext
    rw [← App.exists_scripts_iff htext]
    refine ⟨fun hunusable => ?_, fun ⟨names, hnames⟩ =>
      ⟨names, hnames, ends_runApp hholds _ _ _ hnames⟩⟩
    cases hscripts : App.scripts t app with
    | error f => exact breaks_runApp hholds hscripts
    | ok names => exact absurd ⟨names, hscripts⟩ hunusable

/-- One app has a script, the package of the other one is a list, and a third one is missing. -/
theorem app_runs_list :
    let package := "\x7b\"scripts\": \x7b\"lint\": \"eslint .\"\x7d\x7d"
    let t : FileTree :=
      ⟨⟨true, ["home"]⟩,
        [(⟨.working 0, ["package.json", "app"]⟩, package),
          (⟨.working 0, ["package.json", "list"]⟩, "[]")],
        [⟨.working 0, ["app"]⟩, ⟨.working 0, ["list"]⟩]⟩
    let outcomes : List Run.Outcome :=
      [{ ending := .finished 0 "done" "" }, { ending := .timedOut .absent (.bytes [0xFF]) }]
    let run (app : String) : Session :=
      Session.perform t outcomes false "" (.runApp { app := app, settings := {} })
    (run "none").Refuses ∧ ¬ App.IsUsable "[]" ∧ (run "list").Breaks ∧ App.IsUsable package
      ∧ (run "app").Tells {} (appCommands t (Path.ofText "app") ["lint"]) outcomes
      ∧ (run "app").escape = none
      ∧ (run "app").Reports (appStarted t (Path.ofText "app") ["lint"])
          (Run.run {} (appCommands t (Path.ofText "app") ["lint"]) outcomes) false "" := by
  intro package t outcomes run
  have hlist : ¬ App.IsUsable "[]" := by
    rintro ⟨fields, hfields, -⟩
    have hparse : Json.parse "[]" = .ok (.list []) := by decide +kernel
    rw [hparse] at hfields
    cases hfields
  have hpackage : App.IsUsable package :=
    ⟨[("scripts", .object [("lint", .str "eslint .")])], by decide +kernel, .inr ⟨_, rfl⟩⟩
  have hwhole : ∀ o ∈ outcomes, o.ending.IsWhole :=
    List.forall_mem_cons.2 ⟨⟨by decide, by decide⟩,
      List.forall_mem_singleton.2 ⟨by decide, Text.whole_ofCodes_decodeLossy _⟩⟩
  obtain ⟨-, habsent, -⟩ := app_runs t outcomes false "" { app := "none", settings := {} }
  obtain ⟨-, -, hlisted⟩ := app_runs t outcomes false "" { app := "list", settings := {} }
  obtain ⟨-, -, happ⟩ := app_runs t outcomes false "" { app := "app", settings := {} }
  have hnone : t.holds (App.packageFile (Path.ofText "none")) = false := by decide +kernel
  have hread : t.read (App.packageFile (Path.ofText "list")) = .ok "[]" := by decide +kernel
  have hread' : t.read (App.packageFile (Path.ofText "app")) = .ok package := by decide +kernel
  obtain ⟨hunusable, -⟩ := hlisted "[]" hread
  obtain ⟨-, husable⟩ := happ package hread'
  obtain ⟨names, hnames, -, hends⟩ := husable hpackage
  have hlint : App.scripts t (Path.ofText "app") = .ok ["lint"] := by
    have hparse : Json.parse package
        = .ok (.object [("scripts", .object [("lint", .str "eslint .")])]) := by decide +kernel
    rw [App.scripts, if_pos (FileTree.holds_of_read hread'), hread']
    simp only [hparse]
    rfl
  obtain rfl := Except.ok.inj (hnames.symm.trans hlint)
  have hname : Whole (Session.folderName t (Path.ofText "app")) := by
    have happ : Session.folderName t (Path.ofText "app") = "app" := by decide +kernel
    rw [happ]
    decide
  exact ⟨habsent hnone, hlist, hunusable hlist, hpackage, (hends hname).2 hwhole⟩

end CommandLine

end AppPipeline
