import AppPipeline.CommandLine.Request
import AppPipeline.Proofs.Pairs

/-!
# What a command line gives

* `exists_option_of_switch`: a switch is given only by an option of that name,
  which stands among the arguments unless it can share a dash;
* `words_subset`: the words are arguments;
* `skipBuild_of_ofArgs`: runs of matrix entries skip builds unless the argument
  that says otherwise is given.
-/

namespace AppPipeline.CommandLine

/-! ## Reading one argument -/

/-- A short option, which can share a dash with others. -/
def OptionName.IsShort (o : OptionName) : Prop := ∃ c, o.name.toList = ['-', c]

theorem splitAssignment_none {s name : List Char} (h : splitAssignment s = (name, none)) :
    name = s := by
  fun_induction splitAssignment s generalizing name with
  | case1 => exact (Prod.mk.inj h).1.symm
  | case2 s => cases h
  | case3 c s hc before value hsplit ih =>
    obtain ⟨rfl, rfl⟩ := Prod.mk.inj h
    rw [ih hsplit]

theorem find?_eq_some {options : List OptionName} {name : List Char} {o : OptionName}
    (h : find? options name = some o) : o ∈ options ∧ o.name.toList = name :=
  ⟨List.mem_of_find?_eq_some h, by simpa using List.find?_some h⟩

section

variable {options : List OptionName} {key : String} {on : Bool} {next : Option String}
  {given : List Given} {used : Bool}

theorem not_switch_of_readNext {o : OptionName} (h : readNext o next = .ok (given, used)) :
    .switch key on ∉ given := by
  cases next with
  | none => cases h
  | some text =>
    cases h
    simp

theorem exists_short_of_switch {s : List Char} (h : readShort options next s = .ok (given, used))
    (hg : .switch key on ∈ given) :
    ∃ o ∈ options, o.key = key ∧ o.form = .switch on ∧ o.IsShort := by
  induction s generalizing given used with
  | nil =>
    cases h
    cases hg
  | cons c s ih =>
    rw [readShort] at h
    split at h
    · cases h
    · next o ho =>
      obtain ⟨hmem, hname⟩ := find?_eq_some ho
      split at h
      · split at h
        · exact absurd hg (not_switch_of_readNext h)
        · cases h
          simp at hg
      · next on' hform =>
        split at h
        · next given' used' hrest =>
          cases h
          rcases List.mem_cons.1 hg with hg | hg
          · cases hg
            exact ⟨o, hmem, rfl, hform, c, hname⟩
          · exact ih hrest hg
        · cases h

theorem exists_option_of_readOption {arg : String}
    (h : readOption options arg.toList next = .ok (given, used)) (hg : .switch key on ∈ given) :
    ∃ o ∈ options, o.key = key ∧ o.form = .switch on ∧ (o.IsShort ∨ o.name = arg) := by
  rw [readOption] at h
  cases hsplit : splitAssignment arg.toList with
  | mk name value =>
    rw [hsplit] at h
    dsimp only at h
    split at h
    · next o ho =>
      obtain ⟨hmem, hname⟩ := find?_eq_some (Option.filter_eq_some_iff.1 ho).1
      split at h
      · cases h
        simp at hg
      · exact absurd hg (not_switch_of_readNext h)
      · next on' hform =>
        cases h
        cases List.mem_singleton.1 hg
        rw [splitAssignment_none hsplit] at hname
        exact ⟨o, hmem, rfl, hform, .inr (String.toList_inj.1 hname)⟩
      · cases h
    · split at h
      · cases h
      · obtain ⟨o, hmem, hkey, hform, hshort⟩ := exists_short_of_switch h hg
        exact ⟨o, hmem, hkey, hform, .inl hshort⟩

end

/-! ## Reading all arguments -/

theorem exists_of_map_eq_ok {ε α β : Type} {x : Except ε α} {f : α → β} {b : β}
    (h : x.map f = .ok b) : ∃ a, x = .ok a ∧ f a = b := by
  cases x with
  | error e => cases h
  | ok a => exact ⟨a, rfl, Except.ok.inj h⟩

section

variable {options : List OptionName} {mixed : Bool} {args : List String} {p : Parsed}

theorem exists_option_of_switch (h : parse options mixed args = .ok p) {key : String} {on : Bool}
    (hg : .switch key on ∈ p.given) :
    ∃ o ∈ options, o.key = key ∧ o.form = .switch on ∧ (o.IsShort ∨ o.name ∈ args) := by
  fun_induction parse options mixed args generalizing p with
  | case1 => cases h; cases hg
  | case2 rest => cases h; cases hg
  | case3 arg rest hend hoption f hread => cases h
  | case4 arg rest hend hoption given used hread ih =>
    obtain ⟨q, hq, rfl⟩ := exists_of_map_eq_ok h
    rcases List.mem_append.1 hg with hg | hg
    · obtain ⟨o, hmem, hkey, hform, hname⟩ := exists_option_of_readOption hread hg
      refine ⟨o, hmem, hkey, hform, hname.imp_right fun (hname : o.name = arg) => ?_⟩
      exact hname ▸ List.mem_cons_self
    · obtain ⟨o, hmem, hkey, hform, hname⟩ := ih hq hg
      refine ⟨o, hmem, hkey, hform, hname.imp_right fun h => List.mem_cons_of_mem arg ?_⟩
      split at h
      · exact List.mem_of_mem_tail h
      · exact h
  | case5 arg rest hend hoption hmixed ih =>
    obtain ⟨q, hq, rfl⟩ := exists_of_map_eq_ok h
    obtain ⟨o, hmem, hkey, hform, hname⟩ := ih hq hg
    exact ⟨o, hmem, hkey, hform, hname.imp_right (List.mem_cons_of_mem arg)⟩
  | case6 arg rest hend hoption hmixed => cases h; cases hg

theorem words_subset (h : parse options mixed args = .ok p) : p.words ⊆ args := by
  fun_induction parse options mixed args generalizing p with
  | case1 => cases h; exact List.Subset.refl _
  | case2 rest => cases h; exact List.subset_cons_self _ _
  | case3 arg rest hend hoption f hread => cases h
  | case4 arg rest hend hoption given used hread ih =>
    obtain ⟨q, hq, rfl⟩ := exists_of_map_eq_ok h
    intro w hw
    have hrest := ih hq hw
    split at hrest
    · exact List.mem_cons_of_mem arg (List.mem_of_mem_tail hrest)
    · exact List.mem_cons_of_mem arg hrest
  | case5 arg rest hend hoption hmixed ih =>
    obtain ⟨q, hq, rfl⟩ := exists_of_map_eq_ok h
    exact List.cons_subset_cons arg (ih hq)
  | case6 arg rest hend hoption hmixed => cases h; exact List.Subset.refl _

end

/-- A switch that is on from the start stays on if nothing turns it off. -/
theorem isOn_of_not_mem {p : Parsed} {key : String} (h : .switch key false ∉ p.given) :
    p.isOn key true = true := by
  rw [Parsed.isOn]
  cases hlast : (p.given.filterMap (Parsed.switchOf? key)).getLast? with
  | none => rfl
  | some on =>
    obtain ⟨g, hg, hswitch⟩ := List.mem_filterMap.1 (List.mem_of_getLast? hlast)
    cases g with
    | value k text => cases hswitch
    | switch k on' =>
      rw [Parsed.switchOf?] at hswitch
      split at hswitch
      · next hk =>
        cases hswitch
        subst hk
        cases on
        · exact absurd hg h
        · rfl
      · cases hswitch

/-! ## Requests -/

theorem exists_of_bind_eq_ok {ε α β : Type} {x : Except ε α} {f : α → Except ε β} {b : β}
    (h : (x >>= f) = .ok b) : ∃ a, x = .ok a ∧ f a = .ok b := by
  cases x with
  | error e => cases h
  | ok a => exact ⟨a, rfl, h⟩

theorem skipBuild_of_read {env : Environment} {p : Parsed} {r : EntryRun}
    (h : runEntryForm.read env p = .ok (.runEntry r)) :
    r.settings.skipBuild = p.isOn "skip" true := by
  obtain ⟨_, _, h⟩ := exists_of_bind_eq_ok h
  obtain ⟨_, _, h⟩ := exists_of_bind_eq_ok h
  obtain ⟨_, _, h⟩ := exists_of_bind_eq_ok h
  obtain ⟨_, _, h⟩ := exists_of_bind_eq_ok h
  obtain ⟨settings, hsettings, h⟩ := exists_of_bind_eq_ok h
  obtain ⟨_, _, hsettings⟩ := exists_of_bind_eq_ok hsettings
  cases hsettings
  cases h
  rfl

/-- Only one of the commands runs matrix entries. -/
theorem eq_runEntryForm {env : Environment} {p : Parsed} {r : EntryRun} {name : String}
    {form : CommandForm} (hform : forms.lookup name = some form)
    (h : form.read env p = .ok (.runEntry r)) : form = runEntryForm := by
  have hmem := mem_of_lookup hform
  simp only [forms, List.mem_cons, Prod.mk.injEq, List.not_mem_nil, or_false] at hmem
  rcases hmem with ⟨-, rfl⟩ | ⟨-, rfl⟩ | ⟨-, rfl⟩ | ⟨-, rfl⟩ | ⟨-, rfl⟩ | ⟨-, rfl⟩
  · obtain ⟨_, _, h⟩ := exists_of_bind_eq_ok h
    cases h
  · obtain ⟨_, _, h⟩ := exists_of_bind_eq_ok h
    cases h
  · obtain ⟨_, _, h⟩ := exists_of_bind_eq_ok h
    cases h
  · obtain ⟨_, _, h⟩ := exists_of_bind_eq_ok h
    obtain ⟨_, _, h⟩ := exists_of_bind_eq_ok h
    cases h
  · rfl
  · obtain ⟨_, _, h⟩ := exists_of_bind_eq_ok h
    obtain ⟨_, _, h⟩ := exists_of_bind_eq_ok h
    cases h

theorem exists_parsed_of_ofCommand {debug debug' : Bool} {env : Environment} {name : String}
    {args : List String} {r : EntryRun}
    (h : ofCommand debug env name args = .ok (.act debug' (.runEntry r))) :
    ∃ p, parse (helpOption :: runEntryForm.options) true args = .ok p ∧
      r.settings.skipBuild = p.isOn "skip" true := by
  rw [ofCommand] at h
  split at h
  · cases h
  · next form hform =>
    obtain ⟨p, hp, h⟩ := exists_of_bind_eq_ok h
    split at h
    · cases h
    · obtain ⟨action, haction, h⟩ := exists_of_bind_eq_ok h
      cases h
      obtain rfl := eq_runEntryForm hform haction
      exact ⟨p, hp, skipBuild_of_read haction⟩

theorem skipBuild_of_ofArgs {env : Environment} {args : List String} {debug : Bool}
    {r : EntryRun} (h : Request.ofArgs env args = .ok (.act debug (.runEntry r)))
    (hargs : "--no-skip-build" ∉ args) : r.settings.skipBuild = true := by
  obtain ⟨q, hq, h⟩ := exists_of_bind_eq_ok h
  split at h
  · cases h
  · split at h
    · cases h
    · next name rest hwords =>
      obtain ⟨p, hp, hskip⟩ := exists_parsed_of_ofCommand h
      rw [hskip]
      refine isOn_of_not_mem fun hoff => hargs ?_
      obtain ⟨o, ho, hkey, hform, hname⟩ := exists_option_of_switch hp hoff
      have hoption : ∀ o ∈ helpOption :: runEntryForm.options,
          o.key = "skip" → o.form = .switch false → o.name = "--no-skip-build" := by
        decide
      have hlong := hoption o ho hkey hform
      rcases hname with ⟨c, hshort⟩ | hmem
      · rw [hlong] at hshort
        cases hshort
      · rw [hlong] at hmem
        exact words_subset hq (hwords ▸ List.mem_cons_of_mem name hmem)

end AppPipeline.CommandLine
