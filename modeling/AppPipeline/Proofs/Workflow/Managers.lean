import AppPipeline.Proofs.Workflow.Closed

/-!
# Package managers in documents

What a compiled document runs, and what it is called, depends on the package manager
only in the steps that set up, install and check. So no text of a document tells of
another package manager than the one that is chosen.

* `PackageManager.ToldBy`: the words that tell of a package manager; the name of one is
  part of the name of another, so it counts only where it does not stand right behind the
  letter that the other begins with (`Text.StandsApart`);
* `Config.packageManager_of_toldBy`: the package manager that a text of the document tells
  of is that of the configuration, whatever else is configured, as long as the version of
  Node, which the user writes, tells of none;
* `Config.exists_toldBy`: some text of every document tells of it.
-/

namespace AppPipeline

open Text (Avoids Spelled Stands findsAny occurs spelled_ofList avoids_of_spelled)

/-! ## Words right behind a letter -/

namespace Text

/-- The word stands somewhere in the text, and not right behind the letter. -/
def StandsApart (letter : Char) (word text : String) : Prop :=
  ∃ before behind, text.toList = before ++ (word.toList ++ behind) ∧
    before.getLast? ≠ some letter

theorem StandsApart.stands {letter : Char} {word text : String}
    (h : StandsApart letter word text) : Stands word text := by
  obtain ⟨before, behind, htext, -⟩ := h
  exact ⟨before, behind, by rw [htext, List.append_assoc]⟩

/-- The word stands among the characters, and not right behind the letter; `last` is the
character before all of them, if there is one. -/
def occursApart (letter : Char) (word : List Char) (last : Option Char) (cs : List Char) : Bool :=
  (last != some letter && word.isPrefixOf cs) ||
    match cs with
    | [] => false
    | c :: cs => occursApart letter word (some c) cs

theorem occursApart_append {letter : Char} {word behind : List Char} {before : List Char}
    {last : Option Char} (h : before.getLast?.or last ≠ some letter) :
    occursApart letter word last (before ++ (word ++ behind)) = true := by
  induction before generalizing last with
  | nil =>
    have hlast : (last != some letter) = true := bne_iff_ne.2 h
    have hword : word.isPrefixOf (word ++ behind) = true :=
      List.isPrefixOf_iff_prefix.2 (List.prefix_append word behind)
    rw [List.nil_append, occursApart.eq_def, hlast, hword]
    rfl
  | cons c before ih =>
    have hbehind : before.getLast?.or (some c) ≠ some letter := by
      rw [List.getLast?_cons] at h
      cases hlast : before.getLast? <;> rw [hlast] at h <;> exact h
    rw [List.cons_append, occursApart, ih hbehind, Bool.or_true]

theorem StandsApart.occursApart {letter : Char} {word text : String} {cs : List Char}
    (h : StandsApart letter word text) (htext : Spelled text cs) :
    Text.occursApart letter word.toList none cs = true := by
  obtain ⟨before, behind, hsplit, hlast⟩ := h
  rw [← (htext : text.toList = cs), hsplit]
  exact occursApart_append (by rwa [Option.or_none])

end Text

/-! ## Words of package managers -/

namespace PackageManager

/-- The text tells of the package manager. -/
def ToldBy : PackageManager → String → Prop
  | .yarn, text => Stands "yarn" text
  | .npm, text =>
    Stands "npx" text ∨ Stands "package-lock.json" text ∨ Text.StandsApart 'p' "npm" text
  | .pnpm, text => Stands "pnpm" text

/-- The characters tell of the package manager. -/
def toldIn : PackageManager → List Char → Bool
  | .yarn, cs => occurs "yarn".toList cs
  | .npm, cs =>
    occurs "npx".toList cs || occurs "package-lock.json".toList cs
      || Text.occursApart 'p' "npm".toList none cs
  | .pnpm, cs => occurs "pnpm".toList cs

/-- The text tells of no package manager but perhaps of this one. -/
def TellsNoOther (m : PackageManager) (text : String) : Prop := ∀ n, n.ToldBy text → n = m

/-- The characters tell of no other. -/
def tellsNoOther (m : PackageManager) (cs : List Char) : Bool :=
  (Choice.members : List PackageManager).all fun n => n == m || !n.toldIn cs

theorem toldIn_of_toldBy {m : PackageManager} {text : String} {cs : List Char}
    (htext : Spelled text cs) (h : m.ToldBy text) : m.toldIn cs = true := by
  have hoccurs {word : String} (h : Stands word text) : occurs word.toList cs = true := by
    rwa [Text.occurs_iff_infix, ← (htext : text.toList = cs)]
  cases m with
  | yarn => exact hoccurs h
  | pnpm => exact hoccurs h
  | npm =>
    rw [toldIn, Bool.or_eq_true, Bool.or_eq_true, or_assoc]
    exact h.imp hoccurs (Or.imp hoccurs (·.occursApart htext))

theorem tellsNoOther_of_spelled {m : PackageManager} {text : String} {cs : List Char}
    (htext : Spelled text cs) (h : m.tellsNoOther cs = true) : m.TellsNoOther text := by
  intro n hn
  have hmember : n ∈ (Choice.members : List PackageManager) := by cases n <;> decide
  have htold := List.all_eq_true.1 h n hmember
  rw [toldIn_of_toldBy htext hn, Bool.not_true, Bool.or_false] at htold
  exact eq_of_beq htold

theorem tellsNoOther_ofList {m : PackageManager} {cs : List Char}
    (h : m.tellsNoOther cs = true) : m.TellsNoOther (String.ofList cs) :=
  tellsNoOther_of_spelled spelled_ofList h

/-- A text without the words tells of none at all. -/
theorem tellsNoOther_of_avoids {text : String} (h : Avoids managerWords text)
    (m : PackageManager) : m.TellsNoOther text := by
  simp only [Avoids, managerWords, List.forall_mem_cons, List.not_mem_nil, false_implies,
    implies_true, and_true] at h
  obtain ⟨hyarn, hnpm, hnpx, hlock⟩ := h
  have hinside : "npm".toList <:+: "pnpm".toList := ⟨['p'], [], rfl⟩
  intro n hn
  cases n with
  | yarn => exact absurd hn hyarn
  | pnpm => exact absurd (hinside.trans hn) hnpm
  | npm =>
    rcases hn with hn | hn | hn
    · exact absurd hn hnpx
    · exact absurd hn hlock
    · exact absurd hn.stands hnpm

/-- A literal without the words. -/
theorem tellsNoOther_literal {m : PackageManager} {cs : List Char}
    (h : findsAny managerWords cs = false) : m.TellsNoOther (String.ofList cs) :=
  tellsNoOther_of_avoids (avoids_ofList h) m

/-- The installation begins with the name of the package manager. -/
theorem toldBy_installation (m : PackageManager) :
    m.ToldBy (script [m.tools.install, m.tools.globalCliInstall]) := by
  have hname : ∃ behind, (script [m.tools.install, m.tools.globalCliInstall]).toList
      = m.tools.name.toList ++ behind := by
    refine ⟨" install".toList ++ '\n' :: (script [m.tools.globalCliInstall]).toList, ?_⟩
    rw [script_cons_cons]
    cases m <;> simp [tools]
  obtain ⟨behind, htext⟩ := hname
  cases m with
  | yarn => exact ⟨[], behind, htext.symm⟩
  | npm => exact .inr (.inr ⟨[], behind, htext, Option.some_ne_none 'p' ∘ Eq.symm⟩)
  | pnpm => exact ⟨[], behind, htext.symm⟩

end PackageManager

open PackageManager (tellsNoOther_of_spelled tellsNoOther_ofList tellsNoOther_of_avoids
  tellsNoOther_literal)

open Step (inputsHold_nil holds_action holds_shell)

/-- Without its words, a step tells of no package manager. -/
theorem Step.Unmarked.tells {words : List String} {s : Step} (h : s.Unmarked words)
    (hwords : managerWords ⊆ words) (m : PackageManager) : s.Holds m.TellsNoOther :=
  h.mono fun _ ht => tellsNoOther_of_avoids (ht.of_subset hwords) m

theorem Step.Unmarked.tells_watched {s : Step} (h : s.Unmarked watched) (m : PackageManager) :
    s.Holds m.TellsNoOther := h.tells managerWords_subset m

theorem Step.Unmarked.tells_beside {legs : Bool} {s : Step} (h : s.Unmarked (watchedBeside legs))
    (m : PackageManager) : s.Holds m.TellsNoOther :=
  h.tells (List.subset_append_right _ _) m

/-! ## Steps of package managers -/

namespace Toolchain

theorem tells_of_mem_setupManager (m : PackageManager) {s : Step}
    (h : s ∈ m.tools.setupManager) : s.Holds m.TellsNoOther := by
  cases m with
  | pnpm =>
    obtain rfl := List.mem_singleton.1 h
    exact holds_action
      (tellsNoOther_of_spelled (spelled_ofList.append spelled_ofList) rfl)
      (tellsNoOther_ofList rfl)
      (inputsHold_nil.text (tellsNoOther_ofList rfl) (tellsNoOther_ofList rfl))
  | _ => cases h

theorem tells_setupNode (m : PackageManager) {nodeVersion : String}
    (h : Avoids managerWords nodeVersion) :
    (m.tools.setupNode nodeVersion).Holds m.TellsNoOther := by
  have hname : m.TellsNoOther m.tools.name := by
    cases m <;> exact tellsNoOther_ofList rfl
  have hcache : Step.InputsHold m.TellsNoOther [("cache", .str m.tools.name)] :=
    inputsHold_nil.text (tellsNoOther_literal rfl) hname
  exact holds_action (tellsNoOther_literal rfl) (tellsNoOther_literal rfl)
    (hcache.text (tellsNoOther_literal rfl) (tellsNoOther_of_avoids h m))

theorem tells_cacheLookup (m : PackageManager) : m.tools.cacheLookup.Holds m.TellsNoOther := by
  refine (holds_shell ?_ ?_).withId ?_
  · cases m <;> exact tellsNoOther_of_spelled
      ((spelled_ofList.append spelled_ofList).append spelled_ofList) rfl
  · cases m <;> exact tellsNoOther_of_spelled
      ((spelled_ofList.append spelled_ofList).append spelled_ofList) rfl
  · cases m <;> exact tellsNoOther_of_spelled (spelled_ofList.append spelled_ofList) rfl

theorem tells_cacheRestore (m : PackageManager) : m.tools.cacheRestore.Holds m.TellsNoOther := by
  have hkey {n : List Char} {s : String} (h : Spelled s n) :
      Spelled (hosted "runner.os" ++ "-" ++ s ++ "-") _ :=
    ((spelled_ofList.hosted.append spelled_ofList).append h).append spelled_ofList
  have hrestore : m.TellsNoOther (hosted "runner.os" ++ "-" ++ m.tools.name ++ "-") := by
    cases m <;> exact tellsNoOther_of_spelled (hkey spelled_ofList) rfl
  have hfull : m.TellsNoOther (hosted "runner.os" ++ "-" ++ m.tools.name ++ "-"
      ++ hosted ("hashFiles('**/" ++ m.tools.lockFile ++ "')")) := by
    cases m <;> exact tellsNoOther_of_spelled ((hkey spelled_ofList).append
      ((spelled_ofList.append spelled_ofList).append spelled_ofList).hosted) rfl
  have hpath : m.TellsNoOther (hosted ("steps." ++ m.tools.cacheDirStepId ++ ".outputs.dir")) := by
    cases m <;> exact tellsNoOther_of_spelled ((spelled_ofList.append (spelled_ofList.append
      spelled_ofList)).append spelled_ofList).hosted rfl
  refine holds_action ?_ (tellsNoOther_literal rfl)
    (((inputsHold_nil.text (tellsNoOther_literal rfl) hrestore).text
      (tellsNoOther_literal rfl) hfull).text (tellsNoOther_literal rfl) hpath)
  cases m <;> exact tellsNoOther_of_spelled
    ((spelled_ofList.append spelled_ofList).append spelled_ofList) rfl

theorem tells_of_mem_setupSteps (m : PackageManager) {nodeVersion : String}
    (hversion : Avoids managerWords nodeVersion) {caching : Bool} {s : Step}
    (h : s ∈ m.tools.setupSteps nodeVersion caching) : s.Holds m.TellsNoOther := by
  exact forall_mem_setupSteps (unmarked_checkout.tells_watched m)
    (fun _ => tells_of_mem_setupManager m) (tells_setupNode m hversion) (tells_cacheLookup m)
    (tells_cacheRestore m) s h

theorem tells_installStep (m : PackageManager) :
    (m.tools.installStep []).Holds m.TellsNoOther ∧
      (m.tools.installStep [m.tools.globalCliInstall]).Holds m.TellsNoOther := by
  refine ⟨holds_shell (tellsNoOther_literal rfl) ?_, holds_shell (tellsNoOther_literal rfl) ?_⟩
  · cases m <;> exact tellsNoOther_of_spelled spelled_ofList.script_singleton rfl
  · cases m <;> exact tellsNoOther_of_spelled
      (spelled_ofList.script_cons spelled_ofList.script_singleton) rfl

end Toolchain

/-! ## Jobs -/

theorem unmarked_releaseStep {files : List String} (hfiles : Avoids managerWords (script files)) :
    (releaseStep files).Unmarked managerWords := by
  have htag : Avoids managerWords ("v" ++ hosted "steps.build-info.outputs.version" ++ "-"
      ++ hosted "steps.build-info.outputs.build_number") :=
    avoids_of_spelled (((spelled_ofList.append spelled_ofList.hosted).append
      spelled_ofList).append spelled_ofList.hosted) rfl
  have htitle : Avoids managerWords ("Release v" ++ hosted "steps.build-info.outputs.version"
      ++ " (build " ++ hosted "steps.build-info.outputs.build_number" ++ ")") :=
    avoids_of_spelled ((((spelled_ofList.append spelled_ofList.hosted).append
      spelled_ofList).append spelled_ofList.hosted).append spelled_ofList) rfl
  refine holds_action (avoids_ofList rfl) (avoids_ofList rfl)
    (.cons (.text (.text (.text (.text inputsHold_nil (avoids_ofList rfl) (avoids_ofList rfl))
      (avoids_ofList rfl) hfiles) (avoids_ofList rfl) htag) (avoids_ofList rfl) htitle)
      (avoids_ofList rfl) fun t ht => ?_)
  cases ht

namespace Config

variable {c : Config} {s : Step}

theorem tells_of_mem_checkSteps (h : s ∈ c.checkSteps) :
    s.Holds c.packageManager.TellsNoOther := by
  refine forall_mem_checkSteps (fun kind => ?_) (fun suite => ?_) s h
  · cases c.packageManager <;> cases kind <;>
      exact holds_shell (tellsNoOther_ofList rfl) (tellsNoOther_ofList rfl)
  · cases c.packageManager <;> cases suite <;>
      exact holds_shell (tellsNoOther_ofList rfl) (tellsNoOther_ofList rfl)

theorem tells_of_mem_testSteps (hversion : Avoids managerWords c.nodeVersion)
    (h : s ∈ c.testSteps) : s.Holds c.packageManager.TellsNoOther :=
  forall_mem_testSteps (fun _ => Toolchain.tells_of_mem_setupSteps _ hversion)
    (Toolchain.tells_installStep _).1 (fun _ => tells_of_mem_checkSteps) s h

/-- Nothing that is done with the builds depends on the package manager. -/
theorem tells_of_mem_publicationSteps (h : s ∈ c.publicationSteps) (m : PackageManager) :
    s.Holds m.TellsNoOther := by
  have hrelease := unmarked_releaseStep (avoids_artifacts (c := c).of_subset managerWords_subset)
  exact forall_mem_publicationSteps (unmarked_setupDrive.tells_watched m)
    (fun _ hd => (unmarked_configStep hd).tells (List.subset_append_right _ _) m)
    (fun _ hd _ hb => (unmarked_uploadStep hd hb).tells_beside m)
    (unmarked_archiveStep.tells_beside m) (unmarked_buildInfoStep.tells_watched m)
    (hrelease.tells (List.Subset.refl _) m) s h

theorem tells_of_mem_buildJobSteps (hversion : Avoids managerWords c.nodeVersion)
    (h : s ∈ c.buildJobSteps) : s.Holds c.packageManager.TellsNoOther :=
  forall_mem_buildJobSteps (fun _ => Toolchain.tells_of_mem_setupSteps _ hversion)
    (Toolchain.tells_installStep _).2
    (fun _ h => (unmarked_of_mem_buildPreparation h).tells_watched _)
    (fun _ hb => (unmarked_buildStep hb).tells_beside _)
    (fun _ h => tells_of_mem_publicationSteps h _)
    (fun _ h => (unmarked_of_mem_storeSteps h).tells_beside _)
    (fun channel => channel.unmarked_step.tells_watched _) s h

theorem tells_of_mem_jobs (hversion : Avoids managerWords c.nodeVersion) {j : Job}
    (hj : j ∈ c.jobs) :
    c.packageManager.TellsNoOther j.id ∧ j.Holds c.packageManager.TellsNoOther := by
  have hsteps : ∀ s ∈ j.steps, s.Holds c.packageManager.TellsNoOther := by
    intro s hs
    rcases c.mem_jobs hj with rfl | ⟨_, rfl⟩ | rfl
    · rw [List.mem_singleton.1 hs]
      exact unmarked_checkSkip.tells_watched _
    · exact tells_of_mem_testSteps hversion hs
    · exact tells_of_mem_buildJobSteps hversion hs
  obtain ⟨hid, hparts⟩ := holds_withoutSteps hj
  refine ⟨tellsNoOther_of_avoids (hid.of_subset managerWords_subset) _,
    Job.Holds.withSteps (j := { j with steps := [] }) ?_ hsteps⟩
  exact hparts.mono fun _ ht =>
    tellsNoOther_of_avoids (ht.of_subset (List.subset_append_right _ _)) _

/-! ## Documents -/

/-- The package manager that a text of the document tells of is the one that is chosen. -/
theorem packageManager_of_toldBy (hversion : Avoids managerWords c.nodeVersion) {text : String}
    (htext : text ∈ c.compile.toJson.texts) {m : PackageManager} (hm : m.ToldBy text) :
    c.packageManager = m := by
  have hneutral {t : String} (h : Avoids watched t) : c.packageManager.TellsNoOther t :=
    tellsNoOther_of_avoids (h.of_subset managerWords_subset) _
  refine (Document.forall_texts (P := c.packageManager.TellsNoOther)
    (fun k hk => hneutral (avoids_keys k hk)) (hneutral (avoids_ofList rfl)) ?_ ?_
    (fun j hj => tells_of_mem_jobs hversion hj) text htext m hm).symm
  · exact fun f hf => (c.unmarked_triggerMap f hf).imp hneutral fun h t ht => hneutral (h t ht)
  · intro e he
    rcases List.mem_append.1 he with he | he
    · obtain ⟨n, hn, rfl⟩ := List.mem_map.1 he
      have hname := isSecretName_of_mem_secretNames hn
      exact ⟨hneutral hname.avoids, tellsNoOther_of_avoids hname.value _⟩
    · rw [List.mem_singleton.1 he]
      exact ⟨hneutral (avoids_ofList rfl), hneutral (avoids_ofList rfl)⟩

theorem installation_mem_texts (c : Config) :
    script [c.packageManager.tools.install, c.packageManager.tools.globalCliInstall]
      ∈ c.compile.toJson.texts := by
  have hjob : c.buildJob ∈ c.compile.jobs := List.mem_append_right _ (List.mem_singleton.2 rfl)
  have hstep : c.packageManager.tools.installStep [c.packageManager.tools.globalCliInstall]
      ∈ c.buildJob.steps := by
    simp [buildJob, buildJobSteps, buildSteps]
  exact Document.run_mem_texts hjob hstep rfl

/-- Some text of every document tells of the package manager. -/
theorem exists_toldBy (c : Config) :
    ∃ text ∈ c.compile.toJson.texts, c.packageManager.ToldBy text :=
  ⟨_, c.installation_mem_texts, c.packageManager.toldBy_installation⟩

theorem packageManager_of_toldBy_pnpm :
    let c : Config := { packageManager := .pnpm, storage := .custom, tests := [.eslint] }
    let text := script ["pnpm install", "pnpm add -g eas-cli@latest"]
    Avoids managerWords c.nodeVersion ∧ text ∈ c.compile.toJson.texts ∧ Stands "npm" text ∧
      PackageManager.pnpm.ToldBy text ∧ c.packageManager = .pnpm ∧
      ¬ PackageManager.npm.ToldBy text := by
  intro c text
  have hversion : Avoids managerWords c.nodeVersion := avoids_ofList rfl
  have htext : text ∈ c.compile.toJson.texts := c.installation_mem_texts
  have hpnpm : PackageManager.pnpm.ToldBy text := PackageManager.toldBy_installation .pnpm
  refine ⟨hversion, htext, .trans ⟨['p'], [], rfl⟩ hpnpm, hpnpm,
    packageManager_of_toldBy hversion htext hpnpm, fun hnpm => ?_⟩
  cases packageManager_of_toldBy hversion htext hnpm

end Config

end AppPipeline
