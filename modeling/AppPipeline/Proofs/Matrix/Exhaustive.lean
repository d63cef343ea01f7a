import Mathlib.Data.List.ProdSigma
import AppPipeline.Matrix.Generation
import AppPipeline.Proofs.Command.TestPhase
import AppPipeline.Proofs.Matrix.FirstSeen

/-!
# The exhaustive matrix

The points of the matrix are the product of six axes, less those whose caching
does not matter (`enumerated`); `candidates_own` makes the candidates their entries.

* `signature_pointOf`, `pointOf_mem_enumerated`: every configuration of a listed
  package manager has the signature of a point;
* `signature_eq_of_name_eq`: points with one name have one signature;
* `exhaustive_spec`: one entry for every signature, under distinct names and in
  the order of the points.
-/

namespace AppPipeline.Matrix

open scoped SProd

/-! ## Points -/

structure Point where
  manager : PackageManager
  tests : List TestKind
  options : Options
  deriving DecidableEq, Repr

namespace Point

def config (p : Point) : Config :=
  { base with packageManager := p.manager, tests := p.tests, options := p.options }

def name (p : Point) : String :=
  pointName (Choice.name p.manager) (p.tests.map Choice.name) p.options

def entry (p : Point) : Entry := Entry.make p.name p.config

def signature (p : Point) : String := p.config.signature

end Point

/-- Off before on, except for caching. -/
def optionAxes : List (Bool × Bool × Bool × Bool) :=
  [false, true] ×ˢ [false, true] ×ˢ [false, true] ×ˢ [true, false]

def optionsAt (v : Bool × Bool × Bool × Bool) : Options :=
  { jestTests := v.1, rntlTests := v.2.1, renderHookTests := v.2.2.1, caching := v.2.2.2 }

/-- All points in order: package manager, static checks, the three suites, caching. -/
def space (managers : List PackageManager) : List Point :=
  (managers ×ˢ subsets (Choice.members : List TestKind) ×ˢ optionAxes).map fun v =>
    ⟨v.1, v.2.1, optionsAt v.2.2⟩

/-- The points whose caching matters. -/
def enumerated (managers : List PackageManager) : List Point :=
  (space managers).filter fun p => cachingMatters p.tests p.options

theorem pointOptions_eq : pointOptions = optionAxes.map optionsAt := by decide

/-- The candidates are the entries of the points. -/
theorem candidates_own (managers : List PackageManager) :
    candidates (managers.map Labelled.own) = (enumerated managers).map Point.entry := by
  simp only [candidates, enumerated, space, pointOptions_eq, SProd.sprod, List.product,
    List.flatMap_map, List.map_flatMap, List.filter_flatMap, List.filter_map, List.map_map]
  rfl

theorem mem_optionAxes (v : Bool × Bool × Bool × Bool) : v ∈ optionAxes := by
  obtain ⟨jest, rntl, hooks, caching⟩ := v
  cases jest <;> cases rntl <;> cases hooks <;> cases caching <;> decide

theorem mem_space_iff (managers : List PackageManager) (p : Point) :
    p ∈ space managers ↔ p.manager ∈ managers ∧ p.tests.Sublist Choice.members ∧
      ∃ v, optionsAt v = p.options := by
  rw [space, List.mem_map]
  constructor
  · rintro ⟨⟨m, tests, v⟩, h, rfl⟩
    obtain ⟨hm, h⟩ := List.mem_product.1 h
    exact ⟨hm, mem_subsets.1 (List.mem_product.1 h).1, v, rfl⟩
  · rintro ⟨hm, ht, v, hv⟩
    refine ⟨(p.manager, p.tests, v), List.mem_product.2 ⟨hm, List.mem_product.2 ?_⟩, ?_⟩
    · exact ⟨mem_subsets.2 ht, mem_optionAxes v⟩
    · rw [hv]

/-! ## Every signature has a point -/

theorem testsSomething_iff (c : Config) :
    testsSomething c.tests c.options = true ↔ c.TestsSomething := by
  rw [← Config.hasTestWork_iff]
  simp [testsSomething, Config.hasTestWork, Options.anyTestFlag, Suite.all, Suite.selected,
    or_assoc]

/-- The point of a configuration: what it selects, with caching where nothing is tested. -/
def pointOf (c : Config) : Point :=
  { manager := c.packageManager
    tests := Choice.members.filter fun k => c.tests.contains k
    options := optionsAt (c.options.jestTests, c.options.rntlTests, c.options.renderHookTests,
      c.options.caching || !c.hasTestWork) }

theorem mem_tests_pointOf (c : Config) (k : TestKind) : k ∈ (pointOf c).tests ↔ k ∈ c.tests := by
  have hk : k ∈ (Choice.members : List TestKind) := by cases k <;> decide
  simp [pointOf, hk]

theorem testsSomething_pointOf (c : Config) :
    (pointOf c).config.TestsSomething ↔ c.TestsSomething := by
  have ht : (pointOf c).tests ≠ [] ↔ c.tests ≠ [] := by
    rw [Ne, Ne, List.eq_nil_iff_forall_not_mem, List.eq_nil_iff_forall_not_mem]
    simp only [mem_tests_pointOf]
  exact or_congr ht Iff.rfl

theorem signature_pointOf (c : Config) : (pointOf c).signature = c.signature := by
  by_cases hc : c.TestsSomething
  · have hp := (testsSomething_pointOf c).2 hc
    refine (Config.signature_eq_iff_sameTestWork hp hc).2
      ⟨rfl, mem_tests_pointOf c, rfl, rfl, rfl, ?_⟩
    have hw := (Config.hasTestWork_iff c).2 hc
    show (c.options.caching || !c.hasTestWork) = c.options.caching
    rw [hw, Bool.not_true, Bool.or_false]
  · have hp : ¬ (pointOf c).config.TestsSomething := fun h => hc ((testsSomething_pointOf c).1 h)
    rw [Point.signature, (Config.signature_eq_empty_iff _).2 hp,
      (Config.signature_eq_empty_iff c).2 hc]

theorem pointOf_mem_enumerated {managers : List PackageManager} {c : Config}
    (h : c.packageManager ∈ managers) : pointOf c ∈ enumerated managers := by
  rw [enumerated, List.mem_filter, mem_space_iff]
  refine ⟨⟨h, List.filter_sublist, _, rfl⟩, ?_⟩
  rw [cachingMatters, Bool.or_eq_true]
  by_cases hc : c.TestsSomething
  · exact .inr ((testsSomething_iff (pointOf c).config).2 ((testsSomething_pointOf c).2 hc))
  · have hw : c.hasTestWork = false := by
      rw [← Bool.not_eq_true, Config.hasTestWork_iff]
      exact hc
    left
    show (c.options.caching || !c.hasTestWork) = true
    rw [hw, Bool.not_false, Bool.or_true]

/-! ## Names -/

/-- What a point tests, in words. -/
def Point.parts (p : Point) : List String :=
  p.tests.map Choice.name ++ (Suite.all.filter (Suite.selected p.options)).map suiteLabel

/-- The words of a name, between which it has dashes. -/
def Point.words (p : Point) : List String :=
  Choice.name p.manager :: ((if p.parts = [] then ["no", "tests"] else p.parts)
    ++ if p.options.caching then [] else ["nocache"])

theorem name_eq (p : Point) :
    p.name = Choice.name p.manager ++ "-"
      ++ (if p.parts.isEmpty then "no-tests" else String.intercalate "-" p.parts)
      ++ (if p.options.caching then "" else "-nocache") := rfl

theorem name_eq_intercalate (p : Point) : p.name = String.intercalate "-" p.words := by
  have hd : (if p.parts = [] then ["no", "tests"] else p.parts) ≠ [] := by
    split
    · simp
    · assumption
  have hi : (if p.parts.isEmpty then "no-tests" else String.intercalate "-" p.parts)
      = String.intercalate "-" (if p.parts = [] then ["no", "tests"] else p.parts) := by
    by_cases h : p.parts = []
    · simp [h]
    · simp [h]
  rw [name_eq, hi, Point.words, String.intercalate_cons_of_ne_nil (by simp [hd])]
  cases p.options.caching
  · simp only [Bool.false_eq_true, ↓reduceIte]
    rw [String.intercalate_append_of_ne_nil hd (by simp)]
    simp [String.append_assoc]
  · simp

/-- A word that stands for a part stands in a name exactly if the part does. -/
theorem mem_words_iff {p : Point} {w : String} (hm : w ≠ Choice.name p.manager)
    (hn : w ∉ ["no", "tests", "nocache"]) : w ∈ p.words ↔ w ∈ p.parts := by
  simp only [List.mem_cons, List.not_mem_nil, or_false, not_or] at hn
  rw [Point.words, List.mem_cons, List.mem_append]
  by_cases hp : p.parts = [] <;> cases p.options.caching <;> simp [hp, hm, hn]

theorem name_mem_parts (p : Point) (k : TestKind) : Choice.name k ∈ p.parts ↔ k ∈ p.tests := by
  have hs : ∀ s : Suite, suiteLabel s ≠ Choice.name k := by
    intro s
    cases s <;> cases k <;> decide
  simp only [Point.parts, List.mem_append, List.mem_map]
  constructor
  · rintro (⟨l, hl, he⟩ | ⟨s, _, he⟩)
    · rwa [← Choice.name_injective he]
    · exact absurd he (hs s)
  · exact fun h => .inl ⟨k, h, rfl⟩

theorem suiteLabel_mem_parts (p : Point) (s : Suite) :
    suiteLabel s ∈ p.parts ↔ s.selected p.options = true := by
  have hk : ∀ k : TestKind, Choice.name k ≠ suiteLabel s := by
    intro k
    cases k <;> cases s <;> decide
  have hl : ∀ r : Suite, suiteLabel r = suiteLabel s → r = s := by
    intro r
    cases r <;> cases s <;> decide
  have hm : s ∈ Suite.all := by cases s <;> decide
  simp only [Point.parts, List.mem_append, List.mem_map, List.mem_filter]
  constructor
  · rintro (⟨k, _, he⟩ | ⟨r, hr, he⟩)
    · exact absurd he (hk k)
    · exact hl r he ▸ hr.2
  · exact fun h => .inr ⟨s, ⟨hm, h⟩, rfl⟩

theorem nocache_mem_words (p : Point) : "nocache" ∈ p.words ↔ p.options.caching = false := by
  have hm : "nocache" ≠ Choice.name p.manager := by cases p.manager <;> decide
  have hk : ∀ k : TestKind, Choice.name k ≠ "nocache" := by
    intro k
    cases k <;> decide
  have hs : ∀ s : Suite, suiteLabel s ≠ "nocache" := by
    intro s
    cases s <;> decide
  have hp : "nocache" ∉ p.parts := by
    simp [Point.parts, hk, hs]
  rw [Point.words, List.mem_cons, List.mem_append]
  by_cases h : p.parts = [] <;> cases p.options.caching <;> simp [h, hm, hp]

theorem dash_not_mem_words {p : Point} {w : String} (h : w ∈ p.words) : '-' ∉ w.toList := by
  have hm : '-' ∉ (Choice.name p.manager).toList := by cases p.manager <;> decide
  have hk : ∀ k : TestKind, '-' ∉ (Choice.name k).toList := by
    intro k
    cases k <;> decide
  have hs : ∀ s : Suite, '-' ∉ (suiteLabel s).toList := by
    intro s
    cases s <;> decide
  have hp : ∀ v ∈ p.parts, '-' ∉ v.toList := by
    intro v hv
    rcases List.mem_append.1 hv with hv | hv
    · obtain ⟨k, _, rfl⟩ := List.mem_map.1 hv
      exact hk k
    · obtain ⟨s, _, rfl⟩ := List.mem_map.1 hv
      exact hs s
  rw [Point.words, List.mem_cons, List.mem_append] at h
  rcases h with rfl | h | h
  · exact hm
  · split at h
    · revert w
      decide
    · exact hp w h
  · split at h
    · cases h
    · revert w
      decide

/-- The words of a name tell all that a point tests. -/
theorem sameTestWork_of_words {p q : Point} (h : p.words = q.words) :
    p.config.SameTestWork q.config := by
  have hm : p.manager = q.manager := Choice.name_injective (List.cons.inj h).1
  have part : ∀ w : String, (∀ m : PackageManager, w ≠ Choice.name m) →
      w ∉ ["no", "tests", "nocache"] → (w ∈ p.parts ↔ w ∈ q.parts) := by
    intro w hw hn
    rw [← mem_words_iff (hw _) hn, ← mem_words_iff (hw _) hn, h]
  have hk : ∀ k : TestKind, k ∈ p.tests ↔ k ∈ q.tests := by
    intro k
    rw [← name_mem_parts, ← name_mem_parts]
    apply part
    · intro m
      cases m <;> cases k <;> decide
    · cases k <;> decide
  have hs : ∀ s : Suite, s.selected p.options = s.selected q.options := by
    intro s
    rw [Bool.eq_iff_iff, ← suiteLabel_mem_parts, ← suiteLabel_mem_parts]
    apply part
    · intro m
      cases m <;> cases s <;> decide
    · cases s <;> decide
  refine ⟨hm, hk, hs .jest, hs .rntl, hs .hooks, ?_⟩
  have hc : p.options.caching = false ↔ q.options.caching = false := by
    rw [← nocache_mem_words, ← nocache_mem_words, h]
  show p.options.caching = q.options.caching
  cases hp : p.options.caching
  · rw [hc.1 hp]
  · cases hq : q.options.caching
    · rw [hc.2 hq] at hp
      cases hp
    · rfl

theorem signature_eq_of_name_eq {p q : Point} (h : p.name = q.name) :
    p.signature = q.signature := by
  rw [name_eq_intercalate, name_eq_intercalate] at h
  have hw := Text.intercalate_inj (c := '-') (by decide) (List.cons_ne_nil _ _)
    (List.cons_ne_nil _ _) (fun _ => dash_not_mem_words) (fun _ => dash_not_mem_words) h
  exact (sameTestWork_of_words hw).signature_eq

/-! ## Entries -/

/-- The place of the first point with a signature. -/
def firstPoint (managers : List PackageManager) (signature : String) : Nat :=
  placeOf Point.signature (enumerated managers) signature

theorem exhaustive_eq (managers : List PackageManager) :
    exhaustive managers = (firstSeen Point.signature (enumerated managers)).map Point.entry := by
  rw [exhaustive, exhaustiveFor, candidates_own, firstSeen_map]
  rfl

/-- The exhaustive matrix has exactly one entry for the signature of every configuration of its
package managers. The names of the entries are distinct, and every entry is that of the first
point with its signature, in the order of these points. -/
theorem exhaustive_spec (managers : List PackageManager) :
    (∀ c : Config, c.packageManager ∈ managers →
      (exhaustive managers).countP (fun e => e.config.signature = c.signature) = 1) ∧
    ((exhaustive managers).map Entry.name).Nodup ∧
    (∀ e ∈ exhaustive managers, ∃ p, e = p.entry ∧
      (enumerated managers)[firstPoint managers e.config.signature]? = some p) ∧
    (exhaustive managers).Pairwise fun a b =>
      firstPoint managers a.config.signature < firstPoint managers b.config.signature := by
  rw [exhaustive_eq]
  refine ⟨fun c hc => ?_, ?_, ?_, ?_⟩
  · rw [List.countP_map]
    have hmem : c.signature ∈ (enumerated managers).map Point.signature := by
      rw [← signature_pointOf]
      exact List.mem_map_of_mem (pointOf_mem_enumerated hc)
    exact countP_firstSeen Point.signature hmem
  · rw [List.map_map, List.Nodup, List.pairwise_map]
    have hn := nodup_map_firstSeen Point.signature (enumerated managers)
    rw [List.Nodup, List.pairwise_map] at hn
    exact hn.imp fun hs he => hs (signature_eq_of_name_eq he)
  · intro e he
    obtain ⟨p, hp, rfl⟩ := List.mem_map.1 he
    exact ⟨p, rfl, getElem?_placeOf_firstSeen Point.signature hp⟩
  · rw [List.pairwise_map]
    exact pairwise_placeOf_firstSeen Point.signature (enumerated managers)

/-- Neither repeated managers nor repeated tests give a second entry. -/
theorem exhaustive_repeated :
    PackageManager.npm ∈ [PackageManager.npm, .yarn, .npm] ∧
      (exhaustive [.npm, .yarn, .npm]).countP (fun e => e.config.signature =
        Config.signature { packageManager := .npm, tests := [.prettier, .eslint, .prettier] }) = 1 :=
  have hm : PackageManager.npm ∈ [PackageManager.npm, .yarn, .npm] := by decide
  ⟨hm, (exhaustive_spec _).1 _ hm⟩

end AppPipeline.Matrix
