import AppPipeline.Proofs.Guard.Comparison
import AppPipeline.Proofs.Workflow.Traces

/-!
# Guards select builds

The hosted runner starts a job on every leg of its matrix and runs the steps whose
conditions hold there (`Job.legs`, `Step.enabled?`). The guard of a build decides by
the leg, the event and the inputs of the event (`Config.decides_buildGuard`), and so
every leg runs the builds that are meant for it (`Config.enabled_builds`).
-/

namespace AppPipeline

open Guard

/-! ## Runs of a workflow -/

/-- What starts a run: a push, or somebody who fills in inputs. -/
inductive Event where
  | push
  | manual (inputs : List (String × String))
  deriving DecidableEq, Repr

def Event.context : Event → Context
  | .push => [("github.event_name", "push")]
  | .manual inputs =>
    ("github.event_name", "workflow_dispatch")
      :: inputs.map fun i => ("github.event.inputs." ++ i.1, i.2)

/-- The values that the matrix of a job gives to one of its machines. -/
abbrev Leg := List (String × String)

def contextOn (e : Event) (leg : Leg) : Context :=
  e.context ++ leg.map fun f => ("matrix." ++ f.1, f.2)

/-- The texts among the items of a list. -/
def textItems : Json → List String
  | .list items => items.filterMap fun j => match j with | .str s => some s | _ => none
  | _ => []

/-- One leg for every choice of a value for each field of a matrix. -/
def legsOf : List (String × Json) → List Leg
  | [] => [[]]
  | f :: fields => (textItems f.2).flatMap fun s => (legsOf fields).map ((f.1, s) :: ·)

/-- A job without a matrix has one leg. -/
def Job.legs (j : Job) : List Leg :=
  match j.strategy.lookup "matrix" with
  | some (.object fields) => legsOf fields
  | _ => [[]]

namespace Step

/-- Whether the step runs, if its condition has a value. -/
def enabled? (ctx : Context) (s : Step) : Option Bool :=
  match s.condition with
  | none => some true
  | some text => evaluate (valuation ctx) text

/-- The step sets the environment of a build. -/
def setsNodeEnv (s : Step) : Bool := (s.env.lookup "NODE_ENV").isSome

end Step

/-! ## Build steps -/

theorem Toolchain.not_setsNodeEnv_of_mem_setupSteps {t : Toolchain} {nodeVersion : String}
    {caching : Bool} {s : Step} (hs : s ∈ t.setupSteps nodeVersion caching) :
    s.setsNodeEnv = false := by
  have hmanager : ∀ s ∈ t.setupManager, s.setsNodeEnv = false := by
    rw [setupManager]
    cases t.setupAction <;> simp [Step.setsNodeEnv, Step.action]
  exact forall_mem_setupSteps (P := fun s => s.setsNodeEnv = false) rfl hmanager rfl rfl rfl s hs

theorem not_setsNodeEnv_of_mem_buildPreparation {s : Step} (hs : s ∈ buildPreparation) :
    s.setsNodeEnv = false := by
  simp only [buildPreparation, List.mem_cons, List.not_mem_nil, or_false] at hs
  rcases hs with rfl | rfl | rfl | rfl <;> rfl

theorem Channel.not_setsNodeEnv_step (ch : Channel) : ch.step.setsNodeEnv = false := by
  cases ch <;> decide

namespace Config

variable {c : Config}

theorem not_setsNodeEnv_of_mem_publicationSteps {s : Step} (hs : s ∈ c.publicationSteps) :
    s.setsNodeEnv = false :=
  forall_mem_publicationSteps (P := fun s => s.setsNodeEnv = false) rfl (fun _ _ => rfl)
    (fun _ _ _ _ => rfl) rfl rfl rfl s hs

theorem not_setsNodeEnv_of_mem_storeSteps {s : Step} (hs : s ∈ c.storeSteps) :
    s.setsNodeEnv = false :=
  forall_mem_storeSteps (P := fun s => s.setsNodeEnv = false) (fun _ => rfl) (fun _ => rfl)
    (fun _ => rfl) s hs

/-- The steps of the build job that a rule of the table makes are those of the selected rules. -/
theorem filter_setsNodeEnv (c : Config) :
    c.buildJob.steps.filter Step.setsNodeEnv = c.builds.map c.buildStep := by
  have hnone : ∀ {steps : List Step}, (∀ s ∈ steps, s.setsNodeEnv = false) →
      steps.filter Step.setsNodeEnv = [] :=
    fun h => List.filter_eq_nil_iff.2 fun s hs => Bool.eq_false_iff.1 (h s hs)
  have hbuilds : (c.builds.map c.buildStep).filter Step.setsNodeEnv = c.builds.map c.buildStep :=
    List.filter_eq_self.2 (List.forall_mem_map.2 fun _ _ => rfl)
  have hinstall : (c.packageManager.tools.installStep
      [c.packageManager.tools.globalCliInstall]).setsNodeEnv = false := rfl
  have hchannels : ∀ s ∈ c.options.channels.map Channel.step, s.setsNodeEnv = false :=
    List.forall_mem_map.2 fun ch _ => ch.not_setsNodeEnv_step
  simp only [buildJob, buildJobSteps, buildSteps, List.filter_append, List.filter_cons, hinstall,
    hnone fun s hs => Toolchain.not_setsNodeEnv_of_mem_setupSteps hs,
    hnone fun s hs => not_setsNodeEnv_of_mem_buildPreparation hs,
    hnone fun s hs => not_setsNodeEnv_of_mem_publicationSteps hs,
    hnone fun s hs => not_setsNodeEnv_of_mem_storeSteps hs, hnone hchannels, hbuilds]
  simp

end Config

/-! ## Comparisons of guards -/

def onEvent (name : String) : Comparison := ⟨"github.event_name", true, name⟩

def offEvent (name : String) : Comparison := ⟨"github.event_name", false, name⟩

def picksType (value : String) : Comparison := ⟨"github.event.inputs.buildType", true, value⟩

def picksPlatform (p : Platform) : Comparison := ⟨"github.event.inputs.platform", true, p.name⟩

def onLeg (p : Platform) : Comparison := ⟨"matrix.platform", true, p.name⟩

/-- Some of them holds where a build with these types is picked. -/
def typeComparisons (types : List BuildType) : List Comparison :=
  picksType "all" :: types.map (fun t => picksType (Choice.name t)) ++ [onEvent "push"]

theorem isPlain_typeComparisons (types : List BuildType) :
    ∀ k ∈ typeComparisons types, k.IsPlain := by
  intro k hk
  simp only [typeComparisons, List.cons_append, List.mem_cons, List.mem_append, List.mem_map,
    List.not_mem_nil, or_false] at hk
  rcases hk with rfl | ⟨t, _, rfl⟩ | rfl
  · exact ⟨by decide, by decide, by decide⟩
  · cases t <;> exact ⟨by decide, by decide, by decide⟩
  · exact ⟨by decide, by decide, by decide⟩

theorem isPlain_onLeg (p : Platform) : (onLeg p).IsPlain := by
  cases p <;> exact ⟨by decide, by decide, by decide⟩

theorem isPlain_picksPlatform (p : Platform) : (picksPlatform p).IsPlain := by
  cases p <;> exact ⟨by decide, by decide, by decide⟩

theorem isPlain_offEvent_manual : (offEvent "workflow_dispatch").IsPlain :=
  ⟨by decide, by decide, by decide⟩

/-! ## What guards decide -/

/-- A build with these types is picked. -/
def picked (types : List BuildType) (ctx : Context) : Bool :=
  (typeComparisons types).any (·.holds ctx)

/-- The leg is that of the platform, which a manual run has to pick. -/
def onPlatform (p : Platform) (ctx : Context) : Bool :=
  (onLeg p).holds ctx && ((offEvent "workflow_dispatch").holds ctx || (picksPlatform p).holds ctx)

theorem decides_buildTypeGuard (types : List BuildType) :
    Decides (buildTypeGuard types) (picked types) := by
  have htexts : (typeComparisons types).map Comparison.text
      = pickedInput "all" :: types.map (fun t => pickedInput (Choice.name t)) ++ [pushEvent] := by
    rw [typeComparisons, List.map_append, List.map_cons, List.map_map]
    rfl
  have h := decides_comparisons (isPlain_typeComparisons types) (List.cons_ne_nil _ _)
  rw [htexts] at h
  exact h

theorem decides_platformGuard {c : Config} (hios : c.options.iosSupport = true) (p : Platform) :
    ∃ text, c.platformGuard p = some text ∧ Decides text (onPlatform p) := by
  have hplain : ∀ k ∈ [offEvent "workflow_dispatch", picksPlatform p], k.IsPlain :=
    List.forall_mem_cons.2
      ⟨isPlain_offEvent_manual, List.forall_mem_singleton.2 (isPlain_picksPlatform p)⟩
  have hpicks : Decides
      (anyOf ["github.event_name != 'workflow_dispatch'",
        "github.event.inputs.platform == '" ++ p.name ++ "'"])
      fun ctx => (offEvent "workflow_dispatch").holds ctx || (picksPlatform p).holds ctx := by
    refine (decides_comparisons hplain (List.cons_ne_nil _ _)).congr fun ctx => ?_
    rw [List.any_cons, List.any_cons, List.any_nil, Bool.or_false]
  rw [Config.platformGuard, if_pos hios]
  exact decides_both (decides_comparison (isPlain_onLeg p)) hpicks

namespace Config

/-- The guard of the build holds. -/
def enables (c : Config) (b : Build) (ctx : Context) : Bool :=
  (!c.options.iosSupport || onPlatform b.platform ctx) && picked b.buildTypes ctx

theorem decides_buildGuard (c : Config) (b : Build) :
    ∃ text, c.buildGuard b = some text ∧ Decides text (c.enables b) := by
  have hpicked := decides_buildTypeGuard b.buildTypes
  cases hios : c.options.iosSupport with
  | false =>
    have hguard : c.platformGuard b.platform = none := by
      rw [platformGuard, hios, if_neg Bool.false_ne_true]
    rw [buildGuard, hguard]
    have hgiven : [none, some (buildTypeGuard b.buildTypes)].filterMap id
        = [buildTypeGuard b.buildTypes] := rfl
    obtain ⟨text, htext, hdecides⟩ :=
      decides_allOf hgiven (.cons hpicked .nil) (List.cons_ne_nil _ _)
    refine ⟨text, htext, hdecides.congr fun ctx => ?_⟩
    rw [enables, hios, List.all_cons, List.all_nil, Bool.and_true]
    rfl
  | true =>
    obtain ⟨guard, hguard, hplatform⟩ := decides_platformGuard hios b.platform
    rw [buildGuard, hguard]
    obtain ⟨text, htext, hdecides⟩ := decides_both hplatform hpicked
    refine ⟨text, htext, hdecides.congr fun ctx => ?_⟩
    rw [enables, hios]
    rfl

theorem enabled?_buildStep (c : Config) (b : Build) (ctx : Context) :
    (c.buildStep b).enabled? ctx = some (c.enables b ctx) := by
  obtain ⟨text, hguard, hdecides⟩ := c.decides_buildGuard b
  show (match c.buildGuard b with
    | none => some true
    | some text => evaluate (valuation ctx) text) = _
  rw [hguard]
  exact hdecides.evaluate_eq ctx

end Config

/-! ## Where guards hold -/

section

variable {ctx : Context} {p q : Platform} {t : BuildType} {types : List BuildType}

theorem picked_push (h : ctx.read "github.event_name" = "push") : picked types ctx = true := by
  refine List.any_eq_true.2 ⟨onEvent "push", by simp [typeComparisons], ?_⟩
  rw [Comparison.holds, onEvent, h]
  rfl

theorem picked_all (h : ctx.read "github.event.inputs.buildType" = "all") :
    picked types ctx = true := by
  refine List.any_eq_true.2 ⟨picksType "all", by simp [typeComparisons], ?_⟩
  rw [Comparison.holds, picksType, h]
  rfl

/-- Of the types, the one that is picked decides. -/
theorem picked_buildType (hevent : ctx.read "github.event_name" = "workflow_dispatch")
    (h : ctx.read "github.event.inputs.buildType" = Choice.name t) :
    picked types ctx = types.contains t := by
  have hpush : (onEvent "push").holds ctx = false := by
    rw [Comparison.holds, onEvent, hevent]
    decide
  have hall : (picksType "all").holds ctx = false := by
    rw [Comparison.holds, picksType, h]
    cases t <;> decide
  have htype : ∀ u, (picksType (Choice.name u)).holds ctx = (t == u) := by
    intro u
    rw [Comparison.holds, picksType, h]
    cases t <;> cases u <;> decide
  rw [picked, typeComparisons, List.any_append, List.any_cons, List.any_map, hall, List.any_cons,
    hpush, List.any_nil, Bool.false_or, Bool.or_false, Bool.or_false, List.contains_eq_any_beq]
  exact congrArg types.any (funext htype)

theorem holds_onLeg (h : ctx.read "matrix.platform" = q.name) :
    (onLeg p).holds ctx = (p == q) := by
  rw [Comparison.holds, onLeg, h]
  cases p <;> cases q <;> decide

theorem onPlatform_push (hevent : ctx.read "github.event_name" = "push")
    (hleg : ctx.read "matrix.platform" = q.name) : onPlatform p ctx = (p == q) := by
  have hmanual : (offEvent "workflow_dispatch").holds ctx = true := by
    rw [Comparison.holds, offEvent, hevent]
    decide
  rw [onPlatform, holds_onLeg hleg, hmanual, Bool.true_or, Bool.and_true]

theorem onPlatform_manual {r : Platform}
    (hevent : ctx.read "github.event_name" = "workflow_dispatch")
    (hleg : ctx.read "matrix.platform" = q.name)
    (hpicked : ctx.read "github.event.inputs.platform" = r.name) :
    onPlatform p ctx = (p == q && p == r) := by
  have hmanual : (offEvent "workflow_dispatch").holds ctx = false := by
    rw [Comparison.holds, offEvent, hevent]
    decide
  have hpick : (picksPlatform p).holds ctx = (p == r) := by
    rw [Comparison.holds, picksPlatform, hpicked]
    cases p <;> cases r <;> decide
  rw [onPlatform, holds_onLeg hleg, hmanual, Bool.false_or, hpick]

end

/-! ## Legs and inputs -/

/-- The options that an input offers. -/
def offeredOptions (input : Json) : List String :=
  ((input.field? "options").map textItems).getD []

/-- Every declared input has a value, which is one of its options. -/
def IsFilledIn (inputs : List (String × String)) (declared : List (String × Json)) : Prop :=
  List.Forall₂ (fun i d => i.1 = d.1 ∧ i.2 ∈ offeredOptions d.2) inputs declared

namespace Config

/-- The platforms that the build job builds for. -/
def platforms (c : Config) : List Platform :=
  if c.options.iosSupport then Platform.all else [.android]

/-- The leg of a platform; without support for iOS it has no values. -/
def legFor (c : Config) (p : Platform) : Leg :=
  if c.options.iosSupport then [("platform", p.name)] else []

/-- The inputs of a manual run; without support for iOS there is none for the platform. -/
def inputsFor (c : Config) (t : String) (p : Platform) : List (String × String) :=
  ("buildType", t) :: if c.options.iosSupport then [("platform", p.name)] else []

/-- What a manual run may pick as its build type. -/
def offeredPicks (c : Config) : List String := "all" :: c.offeredTypes.map Choice.name

def buildsFor (c : Config) (p : Platform) : List Build := c.builds.filter (·.platform == p)

theorem legs_eq (c : Config) : c.buildJob.legs = c.platforms.map c.legFor := by
  have hleg : c.legFor = fun p =>
      if c.options.iosSupport then [("platform", p.name)] else [] := rfl
  rw [Job.legs, buildJob, platforms, hleg]
  cases c.options.iosSupport <;> rfl

end Config

theorem offeredOptions_choiceInput (description default : String) (options : List String) :
    offeredOptions (choiceInput description default options) = options := by
  show (options.map Json.str).filterMap
    (fun j => match j with | .str s => some s | _ => none) = options
  rw [List.filterMap_map]
  exact List.filterMap_some

namespace Config

/-- The inputs of a manual run are a pick of build types and, if there are legs for platforms, a
platform. -/
theorem isFilledIn_iff (c : Config) (inputs : List (String × String)) :
    IsFilledIn inputs c.dispatchInputs
      ↔ ∃ t ∈ c.offeredPicks, ∃ p ∈ c.platforms, inputs = c.inputsFor t p := by
  simp only [IsFilledIn, dispatchInputs, inputsFor, platforms, List.forall₂_cons_right_iff]
  cases c.options.iosSupport with
  | false => simp [offeredOptions_choiceInput, offeredPicks]
  | true =>
    simp [offeredOptions_choiceInput, offeredPicks, Platform.all, List.forall₂_cons_right_iff]

end Config

/-! ## Selected builds of a platform -/

/-- The rules for a platform. -/
def Platform.table : Platform → List Build
  | .android => Build.androidBuilds
  | .ios => Build.iosBuilds

theorem Platform.platform_of_mem_table {p : Platform} : ∀ b ∈ p.table, b.platform = p := by
  cases p <;> decide

namespace Config

variable {c : Config} {p q : Platform} {t : BuildType} {b : Build}

theorem platform_mem_platforms (hb : b ∈ c.builds) : b.platform ∈ c.platforms := by
  rw [builds] at hb
  rw [platforms]
  cases hios : c.options.iosSupport with
  | false =>
    rw [hios, if_neg Bool.false_ne_true, List.append_nil, List.mem_filter] at hb
    exact List.mem_singleton.2 (Platform.platform_of_mem_table (p := .android) b hb.1)
  | true => cases b.platform <;> decide

theorem buildsFor_eq (hp : p ∈ c.platforms) :
    c.buildsFor p = p.table.filter (Build.selectedBy c.buildTypes) := by
  have hkeep : ∀ p : Platform, (p.table.filter (Build.selectedBy c.buildTypes)).filter
      (·.platform == p) = p.table.filter (Build.selectedBy c.buildTypes) := fun p =>
    List.filter_eq_self.2 fun b hb =>
      beq_iff_eq.2 (Platform.platform_of_mem_table b (List.mem_of_mem_filter hb))
  have hdrop : ∀ p q : Platform, q ≠ p → (q.table.filter (Build.selectedBy c.buildTypes)).filter
      (·.platform == p) = [] := fun p q hne =>
    List.filter_eq_nil_iff.2 fun b hb he => hne
      ((Platform.platform_of_mem_table b (List.mem_of_mem_filter hb)).symm.trans (eq_of_beq he))
  have hbuilds : c.builds = Platform.android.table.filter (Build.selectedBy c.buildTypes)
      ++ if c.options.iosSupport then
          Platform.ios.table.filter (Build.selectedBy c.buildTypes) else [] := rfl
  rw [platforms] at hp
  rw [buildsFor, hbuilds, List.filter_append]
  cases hios : c.options.iosSupport with
  | false =>
    rw [hios, if_neg Bool.false_ne_true, List.mem_singleton] at hp
    rw [hp, hkeep, if_neg Bool.false_ne_true, List.filter_nil, List.append_nil]
  | true =>
    rw [if_pos rfl]
    cases p with
    | android => rw [hkeep, hdrop _ _ (by decide), List.append_nil]
    | ios => rw [hkeep, hdrop _ _ (by decide), List.nil_append]

/-- Every platform has one rule for a build type, which is selected where the type is. -/
theorem exists_rule (hp : p ∈ c.platforms) (ht : t ∈ c.buildTypes) :
    ∃ b, (c.buildsFor p).filter (fun b => b.buildTypes.contains t) = [b] := by
  have hselected : ∀ b : Build, (b.buildTypes.contains t && b.selectedBy c.buildTypes)
      = b.buildTypes.contains t := by
    intro b
    cases hb : b.buildTypes.contains t with
    | false => rfl
    | true =>
      exact List.any_eq_true.2 ⟨t, List.contains_iff_mem.1 hb, List.contains_iff_mem.2 ht⟩
  rw [buildsFor_eq hp, List.filter_filter]
  simp only [hselected]
  cases p <;> cases t <;> exact ⟨_, rfl⟩

/-! ## Enabled builds -/

/-- The step is made by a rule of the table. -/
def isBuildStep (c : Config) (s : Step) : Bool :=
  (Build.androidBuilds ++ Build.iosBuilds).any fun b => s == c.buildStep b

/-- The build steps that run on a leg, if the conditions of all have a value. -/
def enabledBuilds (c : Config) (e : Event) (leg : Leg) : Option (List Step) :=
  let steps := c.buildJob.steps.filter c.isBuildStep
  if steps.all fun s => (s.enabled? (contextOn e leg)).isSome then
    some (steps.filter fun s => s.enabled? (contextOn e leg) == some true)
  else none

theorem filter_isBuildStep (c : Config) :
    c.buildJob.steps.filter c.isBuildStep = c.builds.map c.buildStep := by
  rw [← filter_setsNodeEnv]
  refine List.filter_congr fun s hs => ?_
  rw [Bool.eq_iff_iff, isBuildStep, List.any_eq_true]
  constructor
  · rintro ⟨b, _, hb⟩
    rw [eq_of_beq hb]
    rfl
  · intro h
    have hmem : s ∈ c.buildJob.steps.filter Step.setsNodeEnv := List.mem_filter.2 ⟨hs, h⟩
    rw [filter_setsNodeEnv, List.mem_map] at hmem
    obtain ⟨b, hb, rfl⟩ := hmem
    exact ⟨b, mem_table_of_mem_builds hb, beq_self_eq_true _⟩

theorem enabledBuilds_eq (c : Config) (e : Event) (leg : Leg) :
    c.enabledBuilds e leg
      = some ((c.builds.filter fun b => c.enables b (contextOn e leg)).map c.buildStep) := by
  have hall : (c.builds.map c.buildStep).all
      (fun s => (s.enabled? (contextOn e leg)).isSome) = true := by
    rw [List.all_map, List.all_eq_true]
    intro b _
    rw [Function.comp_apply, enabled?_buildStep]
    rfl
  have hholds : ∀ b, ((c.buildStep b).enabled? (contextOn e leg) == some true)
      = c.enables b (contextOn e leg) := by
    intro b
    rw [enabled?_buildStep]
    cases c.enables b (contextOn e leg) <;> rfl
  rw [enabledBuilds, filter_isBuildStep, if_pos hall, List.filter_map]
  exact congrArg (fun f => some ((c.builds.filter f).map c.buildStep)) (funext hholds)

/-- Without support for iOS all builds are for the only platform, and no guard asks for it. -/
theorem enables_eq {ctx : Context} (hb : b ∈ c.builds) {ps : List Platform}
    (hps : ∀ p ∈ ps, p ∈ c.platforms)
    (hon : c.options.iosSupport = true →
      onPlatform b.platform ctx = ps.all (b.platform == ·)) :
    c.enables b ctx = (ps.all (b.platform == ·) && picked b.buildTypes ctx) := by
  rw [enables]
  cases hios : c.options.iosSupport with
  | false =>
    have hone : ∀ p ∈ c.platforms, p = .android := by
      intro p hp
      rw [platforms, hios, if_neg Bool.false_ne_true] at hp
      exact List.mem_singleton.1 hp
    have hall : ps.all (b.platform == ·) = true := by
      rw [List.all_eq_true]
      intro p hp
      rw [hone p (hps p hp), hone _ (platform_mem_platforms hb)]
      rfl
    rw [hall]
    rfl
  | true =>
    rw [hon hios]
    rfl

theorem enables_push (hb : b ∈ c.builds) (hq : q ∈ c.platforms) :
    c.enables b (contextOn .push (c.legFor q)) = (b.platform == q) := by
  have hon : c.options.iosSupport = true →
      onPlatform b.platform (contextOn .push (c.legFor q)) = [q].all (b.platform == ·) := by
    intro hios
    have hleg : (contextOn .push (c.legFor q)).read "matrix.platform" = q.name := by
      rw [legFor, if_pos hios]
      rfl
    rw [onPlatform_push rfl hleg, List.all_cons, List.all_nil, Bool.and_true]
  rw [enables_eq hb (List.forall_mem_singleton.2 hq) hon, picked_push rfl, Bool.and_true,
    List.all_cons, List.all_nil, Bool.and_true]

theorem enables_manual {value : String} (hb : b ∈ c.builds) (hp : p ∈ c.platforms)
    (hq : q ∈ c.platforms) :
    c.enables b (contextOn (.manual (c.inputsFor value p)) (c.legFor q))
      = (b.platform == q && b.platform == p
        && picked b.buildTypes (contextOn (.manual (c.inputsFor value p)) (c.legFor q))) := by
  have hon : c.options.iosSupport = true →
      onPlatform b.platform (contextOn (.manual (c.inputsFor value p)) (c.legFor q))
        = [q, p].all (b.platform == ·) := by
    intro hios
    have hleg : (contextOn (.manual (c.inputsFor value p)) (c.legFor q)).read "matrix.platform"
        = q.name := by
      rw [legFor, inputsFor, if_pos hios, if_pos hios]
      rfl
    have hinput : (contextOn (.manual (c.inputsFor value p)) (c.legFor q)).read
        "github.event.inputs.platform" = p.name := by
      rw [inputsFor, if_pos hios]
      rfl
    rw [onPlatform_manual rfl hleg hinput, List.all_cons, List.all_cons, List.all_nil,
      Bool.and_true]
  rw [enables_eq hb (List.forall_mem_cons.2 ⟨hq, List.forall_mem_singleton.2 hp⟩) hon,
    List.all_cons, List.all_cons, List.all_nil, Bool.and_true]

/-- The guards of the build job enable the selected builds of the platform that is picked, and
those alone; a pick of a build type leaves one of them. -/
theorem enabled_builds (c : Config) :
    c.buildJob.legs = c.platforms.map c.legFor ∧
    (c.options.iosSupport = false → c.platforms = [.android] ∧ c.buildJob.legs = [[]] ∧
      c.dispatchInputs.map Prod.fst = ["buildType"]) ∧
    (∀ inputs, IsFilledIn inputs c.dispatchInputs
      ↔ ∃ t ∈ c.offeredPicks, ∃ p ∈ c.platforms, inputs = c.inputsFor t p) ∧
    (∀ p ∈ c.platforms,
      c.enabledBuilds .push (c.legFor p) = some ((c.buildsFor p).map c.buildStep)) ∧
    ∀ t ∈ c.offeredPicks, ∀ p ∈ c.platforms,
      (t = "all" → c.enabledBuilds (.manual (c.inputsFor t p)) (c.legFor p)
        = some ((c.buildsFor p).map c.buildStep)) ∧
      (t ≠ "all" → ∃ b ∈ c.buildsFor p, t ∈ b.buildTypes.map Choice.name ∧
        c.enabledBuilds (.manual (c.inputsFor t p)) (c.legFor p) = some [c.buildStep b]) ∧
      ∀ q ∈ c.platforms, q ≠ p →
        c.enabledBuilds (.manual (c.inputsFor t p)) (c.legFor q) = some [] := by
  refine ⟨c.legs_eq, fun hios => ?_, c.isFilledIn_iff, fun p hp => ?_,
    fun t ht p hp => ⟨?_, ?_, ?_⟩⟩
  · have hplatforms : c.platforms = [.android] := by
      rw [platforms, hios]
      rfl
    refine ⟨hplatforms, ?_, ?_⟩
    · rw [legs_eq, hplatforms, List.map_singleton, legFor, hios]
      rfl
    · rw [dispatchInputs, hios]
      rfl
  · rw [enabledBuilds_eq, buildsFor]
    exact congrArg (fun bs => some (bs.map c.buildStep))
      (List.filter_congr fun b hb => enables_push hb hp)
  · rintro rfl
    rw [enabledBuilds_eq, buildsFor]
    refine congrArg (fun bs => some (bs.map c.buildStep)) (List.filter_congr fun b hb => ?_)
    rw [enables_manual hb hp hp, picked_all rfl, Bool.and_true, Bool.and_self]
  · intro hne
    obtain ⟨u, hu, rfl⟩ := List.mem_map.1 ((List.mem_cons.1 ht).resolve_left hne)
    obtain ⟨b, hrule⟩ := exists_rule hp (List.contains_iff_mem.1 (List.mem_filter.1 hu).2)
    obtain ⟨hb, hlists⟩ := List.mem_filter.1 (hrule ▸ List.mem_singleton.2 rfl)
    refine ⟨b, hb, List.mem_map_of_mem (List.contains_iff_mem.1 hlists), ?_⟩
    have henables : ∀ b ∈ c.builds,
        c.enables b (contextOn (.manual (c.inputsFor (Choice.name u) p)) (c.legFor p))
          = (b.buildTypes.contains u && b.platform == p) := by
      intro b hb
      rw [enables_manual hb hp hp, picked_buildType rfl rfl, Bool.and_self, Bool.and_comm]
    rw [enabledBuilds_eq, List.filter_congr henables, ← List.filter_filter]
    exact congrArg (fun bs => some (bs.map c.buildStep)) hrule
  · intro q hq hne
    have hnone : ∀ b ∈ c.builds,
        ¬ c.enables b (contextOn (.manual (c.inputsFor t p)) (c.legFor q)) = true := by
      intro b hb h
      rw [enables_manual hb hp hq, Bool.and_eq_true, Bool.and_eq_true, beq_iff_eq,
        beq_iff_eq] at h
      exact hne (h.1.1.symm.trans h.1.2)
    rw [enabledBuilds_eq, List.filter_eq_nil_iff.2 hnone]
    rfl

/-- One rule for iOS lists two build types; a pick of either enables it. -/
theorem enabled_builds_shared :
    let c : Config := { buildTypes := [.prodApk, .prodAab], options := { iosSupport := true } }
    "prod-aab" ∈ c.offeredPicks ∧ Platform.ios ∈ c.platforms ∧
      (∃ b ∈ c.buildsFor .ios, "prod-aab" ∈ b.buildTypes.map Choice.name ∧
        c.enabledBuilds (.manual (c.inputsFor "prod-aab" .ios)) (c.legFor .ios)
          = some [c.buildStep b]) ∧
      c.enabledBuilds (.manual (c.inputsFor "prod-aab" .ios)) (c.legFor .android) = some [] := by
  intro c
  have hpick : "prod-aab" ∈ c.offeredPicks := by decide
  have hios : Platform.ios ∈ c.platforms := by decide
  obtain ⟨_, _, _, _, hmanual⟩ := c.enabled_builds
  obtain ⟨_, hone, hother⟩ := hmanual "prod-aab" hpick .ios hios
  exact ⟨hpick, hios, hone (by decide), hother .android (by decide) (by decide)⟩

end Config

end AppPipeline
