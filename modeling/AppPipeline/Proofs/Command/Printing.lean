import AppPipeline.Command.Basic
import AppPipeline.Console
import AppPipeline.Proofs.Command.Local
import AppPipeline.Proofs.Text.Whole
import AppPipeline.Proofs.Workflow.Emitted

/-!
# Commands can be printed

A transcript is printed to its end exactly when every text of it for the output is whole
(`Transcript.printable_snd_eq_none_iff`). The names, the texts and the categories of the commands of
a configuration are whole, whatever its version of Node is (`Config.isWhole_of_mem_commands`).
-/

namespace AppPipeline

open Text (Whole whole_ofList)

/-! ## Transcripts -/

/-- The output takes whole texts only, the error stream takes every text. -/
def Printed.IsPrintable (p : Printed) : Prop := p.stream = .out → Whole p.text

def Transcript.IsPrintable (t : Transcript) : Prop := ∀ p ∈ t, p.IsPrintable

namespace Transcript

theorem isPrintable_append {t u : Transcript} :
    IsPrintable (t ++ u) ↔ IsPrintable t ∧ IsPrintable u := List.forall_mem_append

theorem IsPrintable.append {t u : Transcript} (ht : IsPrintable t) (hu : IsPrintable u) :
    IsPrintable (t ++ u) := isPrintable_append.2 ⟨ht, hu⟩

theorem printable_eq {t : Transcript} (h : t.IsPrintable) : t.printable = (t, none) := by
  induction t with
  | nil => rfl
  | cons p rest ih =>
    obtain ⟨hp, hrest⟩ := List.forall_mem_cons.1 h
    have hfault : (if p.stream = .out then Text.halfFault? p.text else none) = none := by
      split
      · next hs => exact (Text.halfFault?_eq_none_iff _).2 (hp hs)
      · rfl
    rw [printable, hfault, ih hrest]

theorem printable_snd_eq_none_iff (t : Transcript) : t.printable.2 = none ↔ t.IsPrintable := by
  refine ⟨fun h => ?_, fun h => by rw [printable_eq h]⟩
  induction t with
  | nil => exact List.forall_mem_nil _
  | cons p rest ih =>
    rw [printable] at h
    split at h
    · cases h
    · next hfault =>
      refine List.forall_mem_cons.2 ⟨fun hs => ?_, ih h⟩
      rw [if_pos hs] at hfault
      exact (Text.halfFault?_eq_none_iff _).1 hfault

end Transcript

namespace Console

variable {s : String} {c : Command}

theorem isPrintable_out (h : Whole s) : (out s).IsPrintable :=
  fun _ => h.append (by decide)

theorem isPrintable_err (s : String) : (err s).IsPrintable := nofun

theorem isPrintable_line (h : Whole s) : Transcript.IsPrintable [out s] :=
  List.forall_mem_singleton.2 (isPrintable_out h)

theorem whole_rule {c : Char} (h : Text.isHalf c = false) (n : Nat) : Whole (rule c n) :=
  whole_ofList fun d hd => by rwa [List.eq_of_mem_replicate hd]

theorem isPrintable_header (h : Whole s) : (header s).IsPrintable :=
  List.forall_mem_cons.2 ⟨isPrintable_out (.append (by decide) h),
    isPrintable_line (whole_rule (by decide) _)⟩

theorem isPrintable_debug (on : Bool) (message : String) : (debug on message).IsPrintable := by
  cases on
  · exact List.forall_mem_nil _
  · exact List.forall_mem_singleton.2 (isPrintable_err _)

theorem isPrintable_exception (debug : Bool) (calls : String) (fault : Raised) :
    (exception debug calls fault).IsPrintable := by
  cases debug
  · exact List.forall_mem_singleton.2 (isPrintable_err _)
  · exact List.forall_mem_singleton.2 nofun

theorem isPrintable_error (title message : String) (details : List String) (suggestion : String) :
    (error title message details suggestion).IsPrintable := by
  refine Transcript.IsPrintable.append (.append (List.forall_mem_cons.2 ⟨isPrintable_err _,
    List.forall_mem_singleton.2 (isPrintable_err _)⟩)
    (List.forall_mem_map.2 fun d _ => isPrintable_err _)) ?_
  split
  · exact List.forall_mem_nil _
  · exact List.forall_mem_singleton.2 (isPrintable_err _)

end Console

/-! ## Steps -/

/-- The name and the text to run of the step are whole. -/
structure Step.IsWhole (s : Step) : Prop where
  name : ∀ t ∈ s.name, Whole t
  run : ∀ t ∈ s.run, Whole t

theorem Step.Ordinary.isWhole {s : Step} (h : s.Ordinary) : s.IsWhole where
  name t ht := (h.name t ht).whole
  run t ht := (h.run t ht).whole

theorem Toolchain.isWhole_of_mem_setupSteps {t : Toolchain} (ht : t.Ordinary)
    {nodeVersion : String} {caching : Bool} {s : Step}
    (h : s ∈ t.setupSteps nodeVersion caching) : s.IsWhole := by
  have hcache : ∀ s ∈ [t.cacheLookup, t.cacheRestore], s.IsWhole :=
    fun s hs => (ordinary_of_mem_cacheSteps ht hs).isWhole
  refine forall_mem_setupSteps ?_ (fun s hs => (ordinary_of_mem_setupManager ht hs).isWhole) ?_
    (hcache _ List.mem_cons_self) (hcache _ (List.mem_cons_of_mem _ List.mem_cons_self)) s h
  · exact ⟨by rintro t ⟨⟩; decide, by rintro t ⟨⟩⟩
  · exact ⟨by rintro t ⟨⟩; decide, by rintro t ⟨⟩⟩

namespace Config

variable {c : Config} {s : Step}

theorem isWhole_of_mem_testSteps (h : s ∈ c.testSteps) : s.IsWhole := by
  have ht := c.packageManager.ordinary_tools
  exact forall_mem_testSteps (fun _ => Toolchain.isWhole_of_mem_setupSteps ht)
    (Toolchain.ordinary_installStep ht (List.forall_mem_nil _)).isWhole
    (fun _ h => (ordinary_of_mem_checkSteps h).isWhole) s h

theorem isWhole_of_mem_buildJobSteps (h : s ∈ c.buildJobSteps) : s.IsWhole := by
  have ht := c.packageManager.ordinary_tools
  have hinstall := Toolchain.ordinary_installStep ht
    (List.forall_mem_singleton.2 ht.globalCliInstall)
  exact forall_mem_buildJobSteps (fun _ => Toolchain.isWhole_of_mem_setupSteps ht) hinstall.isWhole
    (fun _ h => (ordinary_of_mem_buildPreparation h).isWhole)
    (fun _ hb => (ordinary_buildStep hb).isWhole)
    (fun _ h => (ordinary_of_mem_publicationSteps h).isWhole)
    (fun _ h => (ordinary_of_mem_storeSteps h).isWhole)
    (fun channel => channel.ordinary_step.isWhole) s h

end Config

/-! ## Commands -/

/-- All that is printed of the command is whole. -/
structure Command.IsWhole (c : Command) : Prop where
  stepName : Whole c.stepName
  text : Whole c.text
  category : Whole c.category

theorem Category.whole_name (c : Category) : Whole c.name := by
  cases c <;> decide

theorem Step.IsWhole.command {s : Step} (hs : s.IsWhole) {k : Command} (h : k ∈ s.command?) :
    k.IsWhole := by
  obtain ⟨text, hrun, rfl⟩ := exists_of_mem_command? h
  rw [Command.ofTexts]
  generalize Category.classify (s.name.getD "") text = category
  refine ⟨?_, hs.run text hrun, category.whole_name⟩
  dsimp only
  split
  · decide
  · cases hname : s.name with
    | none => decide
    | some name => exact hs.name name hname

theorem Job.isWhole_of_mem_commands {j : Job} (h : ∀ s ∈ j.steps, s.IsWhole) {k : Command}
    (hk : k ∈ j.commands) : k.IsWhole := by
  obtain ⟨s, hs, hsk⟩ := List.mem_filterMap.1 hk
  exact (h s hs).command hsk

namespace Config

variable {c : Config} {k : Command}

theorem isWhole_of_mem_testCommands (h : k ∈ c.testCommands) : k.IsWhole := by
  rw [testCommands, testJob?] at h
  split at h
  · exact Job.isWhole_of_mem_commands (fun s => isWhole_of_mem_testSteps) h
  · cases h

theorem isWhole_of_mem_commands {expressions builds : Bool}
    (h : k ∈ c.commands expressions builds) : k.IsWhole := by
  have hall : ∀ k ∈ c.testCommands ++ c.buildCommands builds, k.IsWhole := by
    refine List.forall_mem_append.2 ⟨fun k => isWhole_of_mem_testCommands, fun k hk => ?_⟩
    have hk' : k ∈ c.buildJob.commands := by
      rw [buildCommands] at hk
      split at hk
      · exact hk
      · exact List.mem_of_mem_filter hk
    exact Job.isWhole_of_mem_commands (fun s => isWhole_of_mem_buildJobSteps) hk'
  rw [commands] at h
  split at h
  · exact hall k h
  · exact hall k (List.mem_of_mem_filter h)

end Config

theorem Console.whole_firstLine {text : String} (h : Whole text) : Whole (firstLine text) := by
  rw [firstLine, List.headD_eq_head?_getD]
  cases hhead : (Text.lines (Text.strip text)).head? with
  | none => decide
  | some line => exact h.strip.of_mem_lines (List.mem_of_mem_head? hhead)

theorem Console.whole_commandLine {c : Command} (h : c.IsWhole) : Whole (commandLine c) := by
  obtain ⟨hname, htext, hcategory⟩ := h
  rw [commandLine]
  refine .append (.append (.append (.append (.append (.append (by decide) hcategory) (by decide))
    hname) (by decide)) (whole_firstLine htext)) ?_
  split
  · decide
  · decide

theorem Console.isPrintable_commands {cs : List Command} (h : ∀ c ∈ cs, c.IsWhole) :
    (commands cs).IsPrintable :=
  List.forall_mem_map.2 fun c hc => isPrintable_out (whole_commandLine (h c hc))

end AppPipeline
