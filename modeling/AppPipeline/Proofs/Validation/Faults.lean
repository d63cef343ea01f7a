import AppPipeline.Proofs.Needs.Depth
import AppPipeline.Proofs.Validation.Order
import AppPipeline.Validation.Text

/-!
# Documents that cannot be checked

Some job ids have to be put in order: those of jobs without needs, those of jobs from which a
cycle is reached, and those of jobs that need the same job. Where two of them are of kinds without
a common order, the check fails (`relationProblems_eq_error_iff`). It fails too if an id or a need
that a problem names has no text, and if the text has a scalar without a value. In all other cases
the check ends with a list of problems (`textProblems_ends`).
-/

namespace AppPipeline.Validation

open Needs Relation

/-! ## Ids without a common order -/

/-- Two of the jobs, which differ, have ids without a common order. -/
def Clash (ids : JobId → Prop) : Prop :=
  ∃ a b, ids a ∧ ids b ∧ a ≠ b ∧ ¬ Comparable a.value b.value

theorem Clash.congr {p q : JobId → Prop} (h : ∀ a, p a ↔ q a) : Clash p ↔ Clash q := by
  rw [show p = q from funext fun a => propext (h a)]

theorem sortable_eq_false_iff {ids : List JobId} (h : ids.Nodup) :
    JobId.sortable ids = false ↔ Clash (· ∈ ids) := by
  cases ids with
  | nil => exact iff_of_false nofun fun ⟨_, _, ha, _⟩ => absurd ha List.not_mem_nil
  | cons v rest =>
    cases rest with
    | nil =>
      refine iff_of_false nofun fun ⟨a, b, ha, hb, hne, _⟩ => hne ?_
      rw [List.mem_singleton.1 ha, List.mem_singleton.1 hb]
    | cons w rest =>
      have hfirst : ∀ l ∈ w :: rest, v ≠ l := fun l hl he => (List.nodup_cons.1 h).1 (he ▸ hl)
      rw [JobId.sortable, List.map_cons, Value.sortable, Bool.and_eq_false_iff, List.all_map,
        List.all_eq_false]
      · constructor
        · rintro (hnone | ⟨l, hl, hother⟩)
          · exact ⟨v, w, List.mem_cons_self, List.mem_cons_of_mem _ List.mem_cons_self,
              hfirst w List.mem_cons_self, fun hv => Bool.noConfusion (hnone.symm.trans hv.1)⟩
          · exact ⟨v, l, List.mem_cons_self, List.mem_cons_of_mem _ hl, hfirst l hl,
              fun hv => hother (beq_iff_eq.2 hv.2)⟩
        · rintro ⟨a, b, ha, hb, -, hnot⟩
          by_contra hall
          rw [not_or, Bool.not_eq_false, not_exists] at hall
          -- all of them are of the kind of the first one
          have hkind : ∀ l ∈ v :: w :: rest, l.value.keyOrder? = v.value.keyOrder? := by
            refine List.forall_mem_cons.2 ⟨rfl, fun l hl => ?_⟩
            by_contra hother
            exact hall.2 l ⟨hl, fun he => hother (beq_iff_eq.1 he)⟩
          exact hnot ⟨by rw [hkind a ha]; exact hall.1, by rw [hkind a ha, hkind b hb]⟩
      · intro hrest
        cases hrest

/-- Somewhere ids without a common order have to be put in order. -/
inductive MixedIds (relation : List (JobId × List JobId)) : Prop
  /-- among jobs that need no job -/
  | free (clash : Clash fun a => a ∈ relation.map Prod.fst ∧ ∀ d, ¬ Needing relation a d)
  /-- among jobs that wait for a cycle -/
  | waiting (clash : Clash (ReachesCycle relation))
  /-- among jobs that need the same job, which waits for no cycle -/
  | freed (d : JobId) (mem : d ∈ relation.map Prod.fst) (runs : ¬ ReachesCycle relation d)
      (clash : Clash fun a => Needing relation a d)

section

variable {relation : List (JobId × List JobId)} {g : Graph JobId} (hg : g.Coherent)
  (hjobs : g.jobs = relation.map Prod.fst)
  (hneeds : ∀ j d, j ∈ g.childrenOf d ↔ Needing relation j d)

include hg hjobs hneeds

theorem mem_roots_iff (a : JobId) :
    a ∈ g.roots JobId.le ↔ a ∈ relation.map Prod.fst ∧ ∀ d, ¬ Needing relation a d := by
  rw [(Graph.reached_roots hg JobId.le).level.mem, hjobs, Graph.within_succ_iff hg]
  simp [Graph.within, hneeds]

theorem mem_flatten_levels_iff (d : JobId) :
    d ∈ (g.leveling JobId.le).levels.flatten
      ↔ d ∈ relation.map Prod.fst ∧ ¬ ReachesCycle relation d := by
  rw [← Graph.mem_stuck_iff_reachesCycle hg hjobs hneeds JobId.le, Graph.mem_stuck_iff hg,
    ← hjobs, List.mem_flatten]
  constructor
  · rintro ⟨level, hlevel, hd⟩
    obtain ⟨i, hi⟩ := List.mem_iff_getElem?.1 hlevel
    obtain ⟨hmem, hwithin, -⟩ := ((Graph.isLevel_of_leveling hg JobId.le hi).mem d).1 hd
    exact ⟨hmem, fun hstuck => by rw [hstuck.2] at hwithin; cases hwithin⟩
  · rintro ⟨hmem, hfree⟩
    rw [not_and] at hfree
    obtain ⟨n, hn⟩ := not_forall.1 (hfree hmem)
    obtain ⟨i, level, hi, hd⟩ := Graph.exists_level_of_within hg JobId.le hmem
      (Bool.eq_true_of_not_eq_false hn)
    exact ⟨level, List.mem_of_getElem? hi, hd⟩

theorem all_sortable_eq_false_iff :
    (orderings g (g.leveling JobId.le)).all JobId.sortable = false ↔ MixedIds relation := by
  have hroots : JobId.sortable (g.roots JobId.le) = false ↔ Clash fun a =>
      a ∈ relation.map Prod.fst ∧ ∀ d, ¬ Needing relation a d := by
    rw [sortable_eq_false_iff (Graph.reached_roots hg JobId.le).level.nodup]
    exact Clash.congr (mem_roots_iff hg hjobs hneeds)
  have hstuck : JobId.sortable (g.leveling JobId.le).stuck = false
      ↔ Clash (ReachesCycle relation) := by
    rw [sortable_eq_false_iff (Graph.nodup_stuck hg JobId.le)]
    exact Clash.congr (Graph.mem_stuck_iff_reachesCycle hg hjobs hneeds JobId.le)
  have hchildren (d : JobId) : JobId.sortable (g.childrenOf d) = false
      ↔ Clash fun a => Needing relation a d := by
    rw [sortable_eq_false_iff (hg.children_nodup d)]
    exact Clash.congr fun a => hneeds a d
  rw [orderings, List.all_cons, List.all_cons, Bool.and_eq_false_iff, Bool.and_eq_false_iff,
    hroots, hstuck, List.all_map, List.all_eq_false]
  constructor
  · rintro (hfree | hwaiting | ⟨d, hd, hfreed⟩)
    · exact .free hfree
    · exact .waiting hwaiting
    · obtain ⟨hmem, hruns⟩ := (mem_flatten_levels_iff hg hjobs hneeds d).1 hd
      exact .freed d hmem hruns ((hchildren d).1 (Bool.eq_false_iff.2 hfreed))
  · intro h
    cases h with
    | free clash => exact .inl clash
    | waiting clash => exact .inr (.inl clash)
    | freed d mem runs clash =>
      exact .inr (.inr ⟨d, (mem_flatten_levels_iff hg hjobs hneeds d).2 ⟨mem, runs⟩,
        Bool.eq_false_iff.1 ((hchildren d).2 clash)⟩)

end

/-- The ids of a closed relation cannot be put in order exactly if they clash somewhere. -/
theorem relationProblems_eq_error_iff {relation : List (JobId × List JobId)}
    (hids : (relation.map Prod.fst).Nodup)
    (hclosed : ∀ p ∈ relation, ∀ d ∈ p.2, d ∈ relation.map Prod.fst) :
    relationProblems relation = .error .mixedIds ↔ MixedIds relation := by
  obtain ⟨g, hbuild, hg, hjobs, hneeds⟩ := Graph.build_of_closed hids hclosed
  rw [← all_sortable_eq_false_iff hg hjobs hneeds, relationProblems, hbuild]
  dsimp only
  split
  · next hall => exact iff_of_false (by simp) (by rw [hall]; decide)
  · next hall => exact iff_of_true rfl (Bool.eq_false_iff.2 hall)

/-- Ids of one kind clash nowhere. -/
theorem not_mixedIds {relation : List (JobId × List JobId)}
    (h : ∀ a ∈ relation.map Prod.fst, ∀ b ∈ relation.map Prod.fst, Comparable a.value b.value) :
    ¬ MixedIds relation := by
  have hclash {ids : JobId → Prop} (hids : ∀ a, ids a → a ∈ relation.map Prod.fst) :
      ¬ Clash ids :=
    fun ⟨a, b, ha, hb, _, hnot⟩ => hnot (h a (hids a ha) b (hids b hb))
  rintro (clash | clash | ⟨d, _, _, clash⟩)
  · exact hclash (fun a ha => ha.1) clash
  · exact hclash (fun a ha => ha.mem_jobs) clash
  · exact hclash (fun a ⟨needs, hmem, _⟩ => List.mem_map_of_mem (f := Prod.fst) hmem) clash

/-! ## The needs of a document -/

/-- All jobs are mappings, and their ids clash somewhere. -/
def HasMixedIds (knots : Knots) (jobs : List (Value × Value)) : Prop :=
  ∃ relation, relation? knots jobs = some relation ∧ MixedIds relation

theorem orderProblems_eq_error_iff (knots : Knots) (jobs : List (Value × Value)) :
    orderProblems knots jobs = .error .mixedIds ↔ HasMixedIds knots jobs := by
  rw [orderProblems, HasMixedIds]
  cases hrelation : relation? knots jobs with
  | none => exact iff_of_false (by simp) (by simp)
  | some relation =>
    obtain ⟨-, hnodup, hclosed⟩ := closed_of_relation? hrelation
    simp only [Option.some.injEq, exists_eq_left']
    exact relationProblems_eq_error_iff hnodup hclosed

/-- Two jobs without needs are enough, if their ids have no common order. -/
theorem hasMixedIds_of_free {knots : Knots} {jobs : List (Value × Value)}
    {relation : List (JobId × List JobId)} (h : relation? knots jobs = some relation)
    {a b : JobId} (ha : (a, []) ∈ relation) (hb : (b, []) ∈ relation) (hne : a ≠ b)
    (hkinds : ¬ Comparable a.value b.value) : HasMixedIds knots jobs := by
  obtain ⟨-, hnodup, -⟩ := closed_of_relation? h
  have hfree {v : JobId} (hv : (v, []) ∈ relation) :
      v ∈ relation.map Prod.fst ∧ ∀ d, ¬ Needing relation v d := by
    refine ⟨List.mem_map_of_mem (f := Prod.fst) hv, ?_⟩
    rintro d ⟨needs, hneeds, hd⟩
    cases List.inj_on_of_nodup_map hnodup hneeds hv rfl
    cases hd
  exact ⟨relation, h, .free ⟨a, b, hfree ha, hfree hb, hne, hkinds⟩⟩

theorem not_hasMixedIds {knots : Knots} {jobs : List (Value × Value)}
    (h : ∀ a ∈ jobs.map Prod.fst, ∀ b ∈ jobs.map Prod.fst, Comparable a b) :
    ¬ HasMixedIds knots jobs := by
  rintro ⟨relation, hrelation, hmixed⟩
  obtain ⟨hkeys, -, -⟩ := closed_of_relation? hrelation
  have hvalue (a : JobId) (ha : a ∈ relation.map Prod.fst) : a.value ∈ jobs.map Prod.fst := by
    rw [← values_placedJobs jobs, ← hkeys]
    exact List.mem_map_of_mem ha
  exact not_mixedIds (fun a ha b hb => h _ (hvalue a ha) _ (hvalue b hb)) hmixed

/-! ## Documents -/

/-- The jobs of a document, none if it is no mapping or has no mapping of jobs. -/
def documentJobs (knots : Knots) (document : Value) : List (Value × Value) :=
  match document.resolve knots with
  | .map entries => jobsOf knots entries
  | _ => []

/-- Every id and every need that a problem of the document can name has a text. -/
def HasWording (knots : Knots) (document : Value) : Prop :=
  ∀ j ∈ documentJobs knots document, namesJob knots (documentJobs knots document) j.2 = true →
    j.1.displayFault? knots = none
      ∧ ∀ need, .unknownNeed need ∈ jobProblems knots (documentJobs knots document) j.2 →
        need.displayFault? knots = none

theorem jobDisplayFault?_eq_none_iff (knots : Knots) (jobs : List (Value × Value))
    (j : Value × Value) :
    jobDisplayFault? knots jobs j = none ↔ (namesJob knots jobs j.2 = true →
      j.1.displayFault? knots = none ∧ ∀ need, .unknownNeed need ∈ jobProblems knots jobs j.2 →
        need.displayFault? knots = none) := by
  have hneeds : (∀ p ∈ jobProblems knots jobs j.2, p.displayFault? knots = none)
      ↔ ∀ need, .unknownNeed need ∈ jobProblems knots jobs j.2 →
        need.displayFault? knots = none := by
    constructor
    · exact fun h need hneed => h _ hneed
    · intro h p hp
      cases p with
      | unknownNeed need => exact h need hp
      | _ => rfl
  rw [jobDisplayFault?]
  split
  · next hnames => rw [Option.or_eq_none_iff, List.findSome?_eq_none_iff, hneeds,
      forall_prop_of_true hnames]
  · next hnames => exact iff_of_true rfl fun h => absurd h hnames

theorem displayFault?_eq_none_iff (knots : Knots) (document : Value) :
    displayFault? knots document = none ↔ HasWording knots document := by
  rw [displayFault?, HasWording, documentJobs]
  cases document.resolve knots with
  | map entries =>
    rw [List.findSome?_eq_none_iff]
    exact forall₂_congr fun j _ => jobDisplayFault?_eq_none_iff knots _ j
  | _ => exact iff_of_true rfl (List.forall_mem_nil _)

theorem problems_eq_error_iff (knots : Knots) (document : Value) (f : OrderFault) :
    problems knots document = .error f
      ↔ orderProblems knots (documentJobs knots document) = .error f := by
  have hempty : orderProblems knots [] = .ok [] := by
    have hnone : relationProblems [] = .ok [] := by decide +kernel
    exact hnone
  rw [problems, documentJobs]
  cases document.resolve knots with
  | map entries =>
    dsimp only
    cases orderProblems knots (jobsOf knots entries) with
    | error g => exact ⟨fun h => by cases h; rfl, fun h => by cases h; rfl⟩
    | ok ps => exact iff_of_false (by simp) (by simp)
  | _ => exact iff_of_false (fun h => by cases h) (by simp [hempty])

/-- A document whose problems have a wording is checked, unless the check of the order fails. -/
theorem exists_problemTexts_iff (knots : Knots) (document : Value) :
    (∃ texts, problemTexts knots document = .ok texts) ↔ HasWording knots document
      ∧ orderProblems knots (documentJobs knots document) ≠ .error .mixedIds := by
  rw [← displayFault?_eq_none_iff, Ne, ← problems_eq_error_iff, problemTexts]
  cases displayFault? knots document with
  | some f => exact iff_of_false (by simp) (by simp)
  | none =>
    cases problems knots document with
    | ok ps => exact iff_of_true ⟨_, rfl⟩ ⟨rfl, by simp⟩
    | error f =>
      cases f
      exact iff_of_false (by simp) fun h => h.2 rfl

/-! ## Texts -/

/-- A text that is no YAML is reported as such, and any other fault of reading escapes. A document
that was read is checked to its end exactly if all that its problems name has a text and the ids
of its jobs do not clash; and they do not if all of them are of one ordered kind. -/
theorem textProblems_ends (text : String) :
    (Yaml.read text = .error .malformed → textProblems text = .ok ["invalid YAML"]) ∧
    (∀ f, f ≠ .malformed → Yaml.read text = .error f → textProblems text = .error (.value f)) ∧
    ∀ d, Yaml.read text = .ok d →
      let jobs := documentJobs d.knots d.value
      ((∃ problems, textProblems text = .ok problems)
        ↔ HasWording d.knots d.value ∧ ¬ HasMixedIds d.knots jobs) ∧
      ((∀ a ∈ jobs.map Prod.fst, ∀ b ∈ jobs.map Prod.fst, Comparable a b) →
        ¬ HasMixedIds d.knots jobs) := by
  refine ⟨fun h => ?_, fun f hf h => ?_, fun d h => ⟨?_, not_hasMixedIds⟩⟩
  · rw [textProblems, h]
    rfl
  · rw [textProblems, h]
    cases f with
    | malformed => exact absurd rfl hf
    | _ => rfl
  · rw [← orderProblems_eq_error_iff, ← Ne, ← exists_problemTexts_iff, textProblems, h,
      readProblems]
    cases problemTexts d.knots d.value with
    | ok texts => exact iff_of_true ⟨_, rfl⟩ ⟨_, rfl⟩
    | error f => exact iff_of_false nofun nofun

instance : DecidableEq Yaml.Meaning := fun d e =>
  decidable_of_iff (d.value = e.value ∧ d.knots = e.knots)
    ⟨fun h => by cases d; cases e; cases h.1; cases h.2; rfl, fun h => h ▸ ⟨rfl, rfl⟩⟩

/-- No YAML, a month that is none, two texts as ids, an integer and a text as ids, and a text
beside two ids that are not numbers, of which only the second one waits for no job. -/
theorem textProblems_ends_mixed :
    textProblems "[" = .ok ["invalid YAML"] ∧
    textProblems "2001-13-01" = .error (.value (.calendar .month)) ∧
    (∃ problems, textProblems "jobs: {a: {}, b: {}}" = .ok problems) ∧
    (¬ ∃ problems, textProblems "jobs: {1: {}, b: {}}" = .ok problems) ∧
    ¬ ∃ problems,
      textProblems "jobs: {c: {}, !!float nan: {needs: c}, !!float NaN: {}}" = .ok problems := by
  have hbroken : Yaml.read "[" = .error .malformed := by decide +kernel
  have hmonth : Yaml.read "2001-13-01" = .error (.calendar .month) := by decide +kernel
  have htexts : Yaml.read "jobs: {a: {}, b: {}}"
      = .ok ⟨.map [(.text "jobs", .map [(.text "a", .map []), (.text "b", .map [])])], #[]⟩ := by
    decide +kernel
  have hmixed : Yaml.read "jobs: {1: {}, b: {}}"
      = .ok ⟨.map [(.text "jobs", .map [(.int 1, .map []), (.text "b", .map [])])], #[]⟩ := by
    decide +kernel
  have hnumbers : Yaml.read "jobs: {c: {}, !!float nan: {needs: c}, !!float NaN: {}}"
      = .ok ⟨.map [(.text "jobs", .map [(.text "c", .map []),
          (.float .nan, .map [(.text "needs", .text "c")]), (.float .nan, .map [])])], #[]⟩ := by
    decide +kernel
  obtain ⟨hreported, -, -⟩ := textProblems_ends "["
  obtain ⟨-, hescaped, -⟩ := textProblems_ends "2001-13-01"
  obtain ⟨-, -, hkinds⟩ := textProblems_ends "jobs: {a: {}, b: {}}"
  obtain ⟨-, -, hclash⟩ := textProblems_ends "jobs: {1: {}, b: {}}"
  obtain ⟨-, -, hclash'⟩ :=
    textProblems_ends "jobs: {c: {}, !!float nan: {needs: c}, !!float NaN: {}}"
  refine ⟨hreported hbroken, hescaped _ nofun hmonth, ?_, fun hends => ?_, fun hends => ?_⟩
  · obtain ⟨hends, hordered⟩ := hkinds _ htexts
    refine hends.2 ⟨(displayFault?_eq_none_iff _ _).1 (by decide +kernel), hordered ?_⟩
    have hids : ∀ v ∈ [Value.text "a", Value.text "b"], ∃ s, v = .text s :=
      List.forall_mem_cons.2 ⟨⟨_, rfl⟩, List.forall_mem_singleton.2 ⟨_, rfl⟩⟩
    exact fun a ha b hb => comparable_of_texts (hids a ha) (hids b hb)
  · have hrelation : relation? #[] [(.int 1, .map []), (.text "b", .map [])]
        = some [(⟨.int 1, 0⟩, []), (⟨.text "b", 1⟩, [])] := rfl
    exact ((hclash _ hmixed).1.1 hends).2 (hasMixedIds_of_free hrelation List.mem_cons_self
      (List.mem_cons_of_mem _ List.mem_cons_self) nofun fun h => absurd h.2 (by decide))
  · have hrelation : relation? #[] [(.text "c", .map []),
          (.float .nan, .map [(.text "needs", .text "c")]), (.float .nan, .map [])]
        = some [(⟨.text "c", 0⟩, []), (⟨.float .nan, 1⟩, [⟨.text "c", 0⟩]),
          (⟨.float .nan, 2⟩, [])] := rfl
    exact ((hclash' _ hnumbers).1.1 hends).2 (hasMixedIds_of_free hrelation List.mem_cons_self
      (List.mem_cons_of_mem _ (List.mem_cons_of_mem _ List.mem_cons_self)) nofun
      fun h => absurd h.2 (by decide))

end AppPipeline.Validation
