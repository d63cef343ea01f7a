import Mathlib.Data.List.Perm.Basic
import AppPipeline.Proofs.Config.Record

/-!
# Changes of configurations

A record is changed by writing it out, putting the changed fields in and reading it again.
So a field that is not named keeps its value, and one that is named takes what is read of
the new value (`Record.updated_iff`). A `Change` of a configuration concerns its fields or
its options; what it leaves is found cell by cell (`Config.Change.apply_iff`), and changes
that name different cells can be made in any order.
-/

namespace AppPipeline

/-! ## Values that replace others -/

namespace Field

variable {α : Type}

/-- A value that may be given; null always may. -/
def Accepts (f : Field α) (j : Json) : Prop := j ≠ .null → (f.readValue j).faults = []

/-- What a value is read as; null stands for the default. -/
def valueOf (f : Field α) (j : Json) : α := if j = .null then f.default else (f.readValue j).value

theorem gives_iff {f : Field α} {j : Json} {a : α} :
    f.Gives ((some j).filter (· != .null)) a ↔ f.Accepts j ∧ a = f.valueOf j := by
  rw [Option.filter_some, Accepts, valueOf]
  by_cases hj : j = .null
  · rw [if_neg (fun he => bne_iff_ne.1 he hj), if_pos hj]
    exact ⟨fun h => ⟨fun hne => absurd hj hne, h.symm⟩, fun h => h.2.symm⟩
  · rw [if_pos (bne_iff_ne.2 hj), if_neg hj]
    have hread := Reading.toExcept_eq_ok_iff (f.readValue j) a
    exact ⟨fun h => ⟨fun _ => (hread.1 h).1, (hread.1 h).2.symm⟩,
      fun h => hread.2 ⟨h.1 hj, h.2.symm⟩⟩

theorem Gives.eq {f : Field α} {given : Option Json} {a b : α} (ha : f.Gives given a)
    (hb : f.Gives given b) : a = b := by
  cases given with
  | none => exact ha.symm.trans hb
  | some j => exact Except.ok.inj (ha.symm.trans hb)

end Field

/-! ## Records -/

namespace Record

variable {ρ Slot : Type} {Value : Slot → Type} {R : Record ρ Slot Value}
  {changes : List (String × Json)}

/-- The record with some fields replaced. -/
def updated (R : Record ρ Slot Value) (r : ρ) (changes : List (String × Json)) : Reading ρ :=
  R.read (changes.foldl (fun acc f => Json.put f.1 f.2 acc) (R.entries r))

/-- Every changed value may be given for its field. -/
def Accepts (R : Record ρ Slot Value) (changes : List (String × Json)) : Prop :=
  ∀ s, ∀ j ∈ changes.lookup (R.field s).plainName, (R.field s).Accepts j

/-- The value that the changes give to a field, if they name it. -/
def change? (R : Record ρ Slot Value) (changes : List (String × Json)) (s : Slot) :
    Option (Value s) :=
  (changes.lookup (R.field s).plainName).map (R.field s).valueOf

theorem IsPlain.put {fields : List (String × Json)} (h : R.IsPlain fields) (s : Slot) (j : Json) :
    R.IsPlain (Json.put (R.field s).plainName j fields) := by
  by_cases hmem : (R.field s).plainName ∈ fields.map Prod.fst
  · exact ⟨by rw [Json.keys_put hmem]; exact h.nodup, by rw [Json.keys_put hmem]; exact h.plain⟩
  · have hkeys : (Json.put (R.field s).plainName j fields).map Prod.fst
        = fields.map Prod.fst ++ [(R.field s).plainName] := by
      rw [Json.put_of_not_mem hmem, List.map_append, List.map_singleton]
    constructor
    · rw [hkeys, ← List.concat_eq_append]
      exact h.nodup.concat hmem
    · rw [hkeys]
      exact List.forall_mem_append.2 ⟨h.plain, List.forall_mem_singleton.2 ⟨s, rfl⟩⟩

theorem IsPlain.puts (hchanges : ∀ key ∈ changes.map Prod.fst, ∃ s, key = (R.field s).plainName)
    {fields : List (String × Json)} (h : R.IsPlain fields) :
    R.IsPlain (changes.foldl (fun acc f => Json.put f.1 f.2 acc) fields) := by
  induction changes generalizing fields with
  | nil => exact h
  | cons f rest ih =>
    obtain ⟨⟨s, hs⟩, hrest⟩ := List.forall_mem_cons.1 hchanges
    rw [List.foldl_cons, hs]
    exact ih hrest (h.put s f.2)

/-- What is given for a field after the changes. -/
theorem gives_updated (h : R.IsPlain changes) (r : ρ) (s : Slot) (v : Value s) :
    (R.field s).Gives ((R.field s).given?
        (changes.foldl (fun acc f => Json.put f.1 f.2 acc) (R.entries r))) v
      ↔ (∀ j ∈ changes.lookup (R.field s).plainName, (R.field s).Accepts j)
        ∧ v = (R.change? changes s).getD (R.get s r) := by
  rw [(IsPlain.puts h.plain (isPlain_entries r)).given?_eq, Json.lookup_puts,
    ← lookup_perm (List.reverse_perm changes).symm h.nodup, lookup_entries,
    change?]
  cases changes.lookup (R.field s).plainName with
  | none =>
    have hdump := R.gives_dump s (R.get s r)
    exact ⟨fun hv => ⟨nofun, hv.eq hdump⟩, fun hv => hv.2 ▸ hdump⟩
  | some j =>
    rw [Option.some_or, Field.gives_iff]
    exact and_congr_left fun _ => ⟨fun ha j hj => Option.some.inj hj ▸ ha, fun ha => ha j rfl⟩

/-- A change succeeds with the record that has the new values where there are any. -/
theorem updated_iff (h : R.IsPlain changes) {r r' : ρ} :
    (R.updated r changes).toExcept = .ok r'
      ↔ R.Accepts changes ∧ ∀ s, R.get s r' = (R.change? changes s).getD (R.get s r) := by
  rw [updated, read_eq_ok_iff]
  simp only [Field.holds_iff_gives, gives_updated h, forall_and, Accepts]

/-- What is given is accepted if something is read of every field. -/
theorem exists_read_iff {fields : List (String × Json)} :
    (∃ r, (R.read fields).toExcept = .ok r) ↔ ∀ s, ∃ v, (R.field s).Holds fields v := by
  constructor
  · rintro ⟨r, h⟩ s
    exact ⟨_, read_eq_ok_iff.1 h s⟩
  · intro h
    refine ⟨(R.read fields).value, read_eq_ok_iff.2 fun s => ?_⟩
    obtain ⟨v, hv⟩ := h s
    obtain ⟨hfaults, -⟩ := (Reading.toExcept_eq_ok_iff _ _).1 hv
    exact (Reading.toExcept_eq_ok_iff _ _).2 ⟨hfaults, (R.get_read fields s).symm⟩

theorem exists_updated_iff (h : R.IsPlain changes) (r : ρ) :
    (∃ r', (R.updated r changes).toExcept = .ok r') ↔ R.Accepts changes := by
  rw [updated, exists_read_iff]
  simp only [Field.holds_iff_gives, gives_updated h, exists_and_left, exists_eq, and_true, Accepts]

theorem change?_eq_none {s : Slot} (h : (R.field s).plainName ∉ changes.map Prod.fst) :
    R.change? changes s = none := by
  rw [change?, lookup_eq_none h, Option.map_none]

/-- A field is not named by both of two changes that have no name in common. -/
theorem change?_eq_none_or {others : List (String × Json)}
    (h : (changes.map Prod.fst).Disjoint (others.map Prod.fst)) (s : Slot) :
    R.change? changes s = none ∨ R.change? others s = none := by
  by_cases hs : (R.field s).plainName ∈ changes.map Prod.fst
  · exact .inr (change?_eq_none fun ho => h hs ho)
  · exact .inl (change?_eq_none hs)

end Record

/-! ## Configurations -/

namespace Config

variable {c c' : Config} {changes : List (String × Json)}

/-- Options that were read replace those of the configuration. -/
theorem updated_options_iff (o : Options) :
    (c.updated [("advanced_options", .object o.entries)]).toExcept = .ok c'
      ↔ c'.options = o ∧ ∀ s : Slot, s ≠ .options → s.get c' = s.get c := by
  have hplain : record.IsPlain [("advanced_options", .object o.entries)] :=
    ⟨List.nodup_singleton _, List.forall_mem_singleton.2 ⟨.options, rfl⟩⟩
  obtain ⟨hfaults, hvalue⟩ : (optionsField.readValue (.object o.entries)).faults = [] ∧
      (optionsField.readValue (.object o.entries)).value = o :=
    (Reading.toExcept_eq_ok_iff _ _).1 (Options.record.read_entries o)
  have hnone {s : Slot} (hs : s ≠ .options) :
      record.change? [("advanced_options", .object o.entries)] s = none :=
    Record.change?_eq_none fun h => hs (Record.eq_of_mem_names (R := record) (t := Slot.options)
      Field.plainName_mem_names (List.mem_singleton.1 h ▸ Field.plainName_mem_names))
  have hsome : record.change? [("advanced_options", .object o.entries)] .options = some o :=
    congrArg some hvalue
  have haccepts : record.Accepts [("advanced_options", .object o.entries)] := by
    intro s j hj
    by_cases hs : s = .options
    · subst hs
      obtain rfl := Option.some.inj hj
      exact fun _ => hfaults
    · have hchange := hnone hs
      rw [Record.change?, Option.map_eq_none_iff] at hchange
      rw [hchange] at hj
      cases hj
  refine (Record.updated_iff hplain).trans
    ⟨fun h => ⟨?_, fun s hs => ?_⟩, fun h => ⟨haccepts, fun s => ?_⟩⟩
  · have hget := h.2 .options
    rw [hsome] at hget
    exact hget
  · have hget := h.2 s
    rw [hnone hs] at hget
    exact hget
  · by_cases hs : s = .options
    · subst hs
      rw [hsome]
      exact h.1
    · rw [hnone hs]
      exact h.2 s hs

theorem withOptions_iff (h : Options.record.IsPlain changes) :
    (c.withOptions changes).toExcept = .ok c'
      ↔ Options.record.Accepts changes
        ∧ (∀ s : Options.Slot, s.get c'.options
            = (Options.record.change? changes s).getD (s.get c.options))
        ∧ ∀ s : Slot, s ≠ .options → s.get c' = s.get c := by
  have hupdated {o : Options} : (c.options.updated changes).toExcept = .ok o ↔
      Options.record.Accepts changes ∧ ∀ s : Options.Slot, s.get o
        = (Options.record.change? changes s).getD (s.get c.options) :=
    Record.updated_iff h
  have hoptions : (c.withOptions changes).toExcept = .ok c'
      ↔ (c.options.updated changes).toExcept = .ok c'.options
        ∧ ∀ s : Slot, s ≠ .options → s.get c' = s.get c := by
    rw [withOptions, Reading.toExcept_eq_ok_iff (c.options.updated changes)]
    by_cases hfaults : (c.options.updated changes).faults = []
    · rw [if_pos (List.isEmpty_iff.2 hfaults), updated_options_iff]
      exact and_congr_left fun _ => ⟨fun he => ⟨hfaults, he.symm⟩, fun he => he.2.symm⟩
    · rw [if_neg fun he => hfaults (List.isEmpty_iff.1 he), Reading.toExcept_eq_ok_iff]
      exact ⟨fun he => absurd he.1 hfaults, fun he => absurd he.1.1 hfaults⟩
  rw [hoptions, hupdated, and_assoc]

theorem exists_withOptions_iff (h : Options.record.IsPlain changes) (c : Config) :
    (∃ c', (c.withOptions changes).toExcept = .ok c') ↔ Options.record.Accepts changes := by
  constructor
  · rintro ⟨c', hc'⟩
    exact ((withOptions_iff h).1 hc').1
  · intro haccepts
    obtain ⟨o, ho⟩ := (Record.exists_updated_iff h c.options).2 haccepts
    refine ⟨{ c with options := o }, (withOptions_iff h).2 ⟨haccepts, ?_, fun s hs => ?_⟩⟩
    · exact ((Record.updated_iff h).1 ho).2
    · cases s with
      | options => exact absurd rfl hs
      | _ => rfl

/-! ## Chains of changes -/

/-- What is changed on its own: a field apart from the options, or an option. -/
inductive Cell where
  | field (s : Slot) (h : s ≠ .options)
  | option (s : Options.Slot)

namespace Cell

def Value : Cell → Type
  | .field s _ => s.Value
  | .option s => s.Value

def get : (x : Cell) → Config → x.Value
  | .field s _ => s.get
  | .option s => fun c => s.get c.options

end Cell

/-- New values for fields, or for options. -/
inductive Change where
  | fields (changes : List (String × Json))
  | options (changes : List (String × Json))

namespace Change

/-- The changes name fields or options, each at most once. -/
def IsPlain : Change → Prop
  | .fields changes => record.IsPlain changes
  | .options changes => Options.record.IsPlain changes

def Accepts : Change → Prop
  | .fields changes => record.Accepts changes
  | .options changes => Options.record.Accepts changes

def apply (c : Config) : Change → Except (List Fault) Config
  | .fields changes => (c.updated changes).toExcept
  | .options changes => (c.withOptions changes).toExcept

/-- The value that a cell is given, if the change concerns it. -/
def value? : Change → (x : Cell) → Option x.Value
  | .fields changes, .field s _ => record.change? changes s
  | .fields changes, .option s => (record.change? changes .options).map s.get
  | .options _, .field _ _ => none
  | .options changes, .option s => Options.record.change? changes s

/-- The changes name different fields or options, and none replaces the options as a whole
of which the other names one. -/
def Apart : Change → Change → Prop
  | .fields changes, .fields others => (changes.map Prod.fst).Disjoint (others.map Prod.fst)
  | .options changes, .options others => (changes.map Prod.fst).Disjoint (others.map Prod.fst)
  | .fields changes, .options others => "advanced_options" ∈ changes.map Prod.fst → others = []
  | .options others, .fields changes => "advanced_options" ∈ changes.map Prod.fst → others = []

variable {a b : Change}

theorem apply_iff (h : a.IsPlain) :
    a.apply c = .ok c' ↔ a.Accepts ∧ ∀ x : Cell, x.get c' = (a.value? x).getD (x.get c) := by
  cases a with
  | fields changes =>
    refine (Record.updated_iff h).trans (and_congr_right fun _ => ⟨fun hget x => ?_, fun hget s => ?_⟩)
    · cases x with
      | field s hs => exact hget s
      | option s =>
        have hoptions : c'.options = (record.change? changes .options).getD c.options :=
          hget .options
        show s.get c'.options = ((record.change? changes .options).map s.get).getD (s.get c.options)
        rw [hoptions]
        cases record.change? changes .options <;> rfl
    · by_cases hs : s = .options
      · subst hs
        refine Options.ext_get fun t => (hget (.option t)).trans ?_
        show ((record.change? changes .options).map t.get).getD (t.get c.options) = _
        cases record.change? changes .options <;> rfl
      · exact hget (.field s hs)
  | options changes =>
    refine (withOptions_iff h).trans (and_congr_right fun _ => ⟨fun hget x => ?_, fun hget => ?_⟩)
    · cases x with
      | field s hs => exact hget.2 s hs
      | option s => exact hget.1 s
    · exact ⟨fun s => hget (.option s), fun s hs => hget (.field s hs)⟩

/-- Whether a change succeeds does not depend on the configuration. -/
theorem exists_apply_iff (h : a.IsPlain) (c : Config) : (∃ c', a.apply c = .ok c') ↔ a.Accepts := by
  cases a with
  | fields changes => exact Record.exists_updated_iff h c
  | options changes => exact exists_withOptions_iff h c

theorem option_eq_none_or {changes others : List (String × Json)}
    (h : "advanced_options" ∈ changes.map Prod.fst → others = []) (s : Options.Slot) :
    (fields changes).value? (.option s) = none ∨ (options others).value? (.option s) = none := by
  by_cases hoptions : "advanced_options" ∈ changes.map Prod.fst
  · rw [h hoptions]
    exact .inr rfl
  · have hnone : record.change? changes .options = none := Record.change?_eq_none hoptions
    exact .inl (congrArg (Option.map s.get) hnone)

/-- A cell is not concerned by both of two changes that are apart. -/
theorem Apart.value?_eq_none_or (h : a.Apart b) (x : Cell) :
    a.value? x = none ∨ b.value? x = none := by
  cases a with
  | fields changes =>
    cases b with
    | fields others =>
      cases x with
      | field s hs => exact Record.change?_eq_none_or h s
      | option s =>
        exact (Record.change?_eq_none_or (R := record) h .options).imp
          (congrArg (Option.map s.get)) (congrArg (Option.map s.get))
    | options others =>
      cases x with
      | field s hs => exact .inr rfl
      | option s => exact option_eq_none_or h s
  | options changes =>
    cases b with
    | fields others =>
      cases x with
      | field s hs => exact .inl rfl
      | option s => exact (option_eq_none_or h s).symm
    | options others =>
      cases x with
      | field s hs => exact .inl rfl
      | option s => exact Record.change?_eq_none_or h s

theorem Apart.symm (h : a.Apart b) : b.Apart a := by
  cases a <;> cases b
  · exact fun _ hb ha => h ha hb
  · exact h
  · exact h
  · exact fun _ hb ha => h ha hb

/-- Two changes that are apart leave the same in either order. -/
theorem Apart.swap (h : a.Apart b) (ha : a.IsPlain) (hb : b.IsPlain) {c₁ c₂ : Config}
    (h₁ : a.apply c = .ok c₁) (h₂ : b.apply c₁ = .ok c₂) :
    ∃ c₁', b.apply c = .ok c₁' ∧ a.apply c₁' = .ok c₂ := by
  obtain ⟨hacc, hget⟩ := (apply_iff ha).1 h₁
  obtain ⟨hacc', hget'⟩ := (apply_iff hb).1 h₂
  obtain ⟨c₁', hc₁'⟩ := (exists_apply_iff hb c).2 hacc'
  refine ⟨c₁', hc₁', (apply_iff ha).2 ⟨hacc, fun x => ?_⟩⟩
  rw [hget', hget, ((apply_iff hb).1 hc₁').2 x]
  rcases h.value?_eq_none_or x with hnone | hnone <;> rw [hnone] <;> rfl

end Change

/-- One change after another, as long as they succeed. -/
def run (c : Config) (steps : List Change) : Except (List Fault) Config :=
  steps.foldlM Change.apply c

theorem run_cons_eq_ok_iff {a : Change} {rest : List Change} :
    run c (a :: rest) = .ok c' ↔ ∃ c₁, a.apply c = .ok c₁ ∧ run c₁ rest = .ok c' := by
  have hrun : run c (a :: rest) = (a.apply c).bind fun c₁ => run c₁ rest := List.foldlM_cons
  rw [hrun]
  cases a.apply c with
  | error faults =>
    rw [Except.bind]
    exact ⟨fun h => (nomatch h), fun ⟨_, h, _⟩ => (nomatch h)⟩
  | ok c₁ =>
    rw [Except.bind]
    exact ⟨fun h => ⟨c₁, rfl, h⟩, fun ⟨_, he, h⟩ => Except.ok.inj he ▸ h⟩

theorem run_append_eq_ok_iff {steps rest : List Change} :
    run c (steps ++ rest) = .ok c' ↔ ∃ c₁, run c steps = .ok c₁ ∧ run c₁ rest = .ok c' := by
  induction steps generalizing c with
  | nil => exact ⟨fun h => ⟨c, rfl, h⟩, fun ⟨_, he, h⟩ => Except.ok.inj he ▸ h⟩
  | cons a steps ih =>
    simp only [List.cons_append, run_cons_eq_ok_iff, ih]
    constructor
    · rintro ⟨c₁, ha, c₂, hsteps, hrest⟩
      exact ⟨c₂, ⟨c₁, ha, hsteps⟩, hrest⟩
    · rintro ⟨c₂, ⟨c₁, ha, hsteps⟩, hrest⟩
      exact ⟨c₁, ha, c₂, hsteps, hrest⟩

/-- What no step of a chain names stays as it was. -/
theorem run_frame {steps : List Change} (hplain : ∀ a ∈ steps, a.IsPlain)
    (h : run c steps = .ok c') {x : Cell} (hx : ∀ a ∈ steps, a.value? x = none) :
    x.get c' = x.get c := by
  induction steps generalizing c with
  | nil => rw [Except.ok.inj h]
  | cons a rest ih =>
    obtain ⟨ha, hrest⟩ := List.forall_mem_cons.1 hplain
    obtain ⟨hxa, hxrest⟩ := List.forall_mem_cons.1 hx
    obtain ⟨c₁, h₁, h₂⟩ := run_cons_eq_ok_iff.1 h
    rw [ih hrest h₂ hxrest, ((Change.apply_iff ha).1 h₁).2 x, hxa, Option.getD_none]

/-- Neighbours in a chain that are apart can change places. -/
theorem run_swap {a b : Change} (h : a.Apart b) (ha : a.IsPlain) (hb : b.IsPlain)
    {before after : List Change} (hrun : run c (before ++ a :: b :: after) = .ok c') :
    run c (before ++ b :: a :: after) = .ok c' := by
  obtain ⟨c₀, hbefore, hrun⟩ := run_append_eq_ok_iff.1 hrun
  obtain ⟨c₁, h₁, hrun⟩ := run_cons_eq_ok_iff.1 hrun
  obtain ⟨c₂, h₂, hafter⟩ := run_cons_eq_ok_iff.1 hrun
  obtain ⟨c₁', hb', ha'⟩ := h.swap ha hb h₁ h₂
  exact run_append_eq_ok_iff.2 ⟨c₀, hbefore, run_cons_eq_ok_iff.2
    ⟨c₁', hb', run_cons_eq_ok_iff.2 ⟨c₂, ha', hafter⟩⟩⟩

/-- An update succeeds exactly if every changed value may be given for its field; then the
changed fields have the new values and the others keep theirs. So it is for options, beside
fields that stay. Without changes nothing changes, what no step of a chain names stays as it
was, and steps that are apart can change places. -/
theorem updates_frame :
    (∀ (c : Config) (changes : List (String × Json)), record.IsPlain changes →
      ((∃ c', (c.updated changes).toExcept = .ok c') ↔ record.Accepts changes) ∧
      ∀ c', (c.updated changes).toExcept = .ok c' →
        ∀ s : Slot, s.get c' = (record.change? changes s).getD (s.get c)) ∧
    (∀ (c : Config) (changes : List (String × Json)), Options.record.IsPlain changes →
      ((∃ c', (c.withOptions changes).toExcept = .ok c') ↔ Options.record.Accepts changes) ∧
      ∀ c', (c.withOptions changes).toExcept = .ok c' →
        (∀ s : Options.Slot,
          s.get c'.options = (Options.record.change? changes s).getD (s.get c.options)) ∧
        ∀ s : Slot, s ≠ .options → s.get c' = s.get c) ∧
    (∀ c : Config, (c.updated []).toExcept = .ok c) ∧
    (∀ steps : List Change, (∀ a ∈ steps, a.IsPlain) → ∀ c c', run c steps = .ok c' →
      ∀ x : Cell, (∀ a ∈ steps, a.value? x = none) → x.get c' = x.get c) ∧
    ∀ a b : Change, a.IsPlain → b.IsPlain → a.Apart b → ∀ (before after : List Change) c c',
      run c (before ++ a :: b :: after) = .ok c' ↔ run c (before ++ b :: a :: after) = .ok c' := by
  refine ⟨fun c changes h => ?_, fun c changes h => ?_, Record.read_entries (R := record),
    fun steps hplain c c' h x => run_frame hplain h, fun a b ha hb h before after c c' => ?_⟩
  · exact ⟨Record.exists_updated_iff h c, fun c' hc' => ((Record.updated_iff h).1 hc').2⟩
  · exact ⟨exists_withOptions_iff h c, fun c' hc' => ((withOptions_iff h).1 hc').2⟩
  · exact ⟨run_swap h ha hb, run_swap h.symm hb ha⟩

/-- A version that is a number and a name that is unset, beside an option. -/
theorem updates_frame_version :
    let c : Config := { projectName := some "demo", buildTypes := [.dev] }
    let fields : List (String × Json) := [("node_version", .int 18), ("project_name", .null)]
    let options : List (String × Json) := [("caching", .bool false)]
    let named : Config := { nodeVersion := "18", buildTypes := [.dev] }
    let both : Config := { nodeVersion := "18", buildTypes := [.dev], options.caching := false }
    (c.updated fields).toExcept = .ok named ∧ record.Accepts fields ∧
      (∀ s : Slot, s.get named = (record.change? fields s).getD (s.get c)) ∧
      Options.record.Accepts options ∧ both.buildTypes = c.buildTypes ∧
      run c [.options options, .fields fields] = .ok both ∧
      run c [.fields fields, .options options] = .ok both := by
  intro c fields options named both
  obtain ⟨hfields, hoptions, -, hframe, hswap⟩ := updates_frame
  have hplain : record.IsPlain fields :=
    ⟨by decide, List.forall_mem_cons.2 ⟨⟨.nodeVersion, rfl⟩,
      List.forall_mem_singleton.2 ⟨.projectName, rfl⟩⟩⟩
  have hplain' : Options.record.IsPlain options :=
    ⟨by decide, List.forall_mem_singleton.2 ⟨.caching, rfl⟩⟩
  have hnamed : (c.updated fields).toExcept = .ok named := by decide +kernel
  have hcaching : (c.withOptions options).toExcept = .ok { c with options.caching := false } := by
    decide +kernel
  have hrun : run c [.options options, .fields fields] = .ok both := by decide +kernel
  have hsteps : ∀ a ∈ [Change.options options, Change.fields fields], a.IsPlain :=
    List.forall_mem_cons.2 ⟨hplain', List.forall_mem_singleton.2 hplain⟩
  have hkept := hframe _ hsteps _ _ hrun (.field .buildTypes nofun)
    (List.forall_mem_cons.2 ⟨rfl, List.forall_mem_singleton.2 rfl⟩)
  exact ⟨hnamed, (hfields c fields hplain).1.1 ⟨_, hnamed⟩, (hfields c fields hplain).2 _ hnamed,
    (hoptions c options hplain').1.1 ⟨_, hcaching⟩, hkept, hrun,
    (hswap (.options options) (.fields fields) hplain' hplain
      (fun h => absurd h (by decide)) [] [] c both).1 hrun⟩

end Config

end AppPipeline
