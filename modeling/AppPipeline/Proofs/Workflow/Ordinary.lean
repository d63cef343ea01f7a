import AppPipeline.Proofs.Yaml.RoundTrip
import AppPipeline.Proofs.Workflow.Traces

/-!
# Ordinary texts

A text is ordinary if every character of it stands for itself and comes back when it is
read. `Json.ReadsAs` says as what data are read and how deep they are; it goes through
lists and through objects with different, short keys.
-/

namespace AppPipeline

/-! ## Texts -/

namespace Text

/-- The character is no next line and does not stand for another one. -/
def IsOrdinary (c : Char) : Prop := c.toNat ≠ Yaml.nextLine ∧ c.toNat < 0x10D800

instance (c : Char) : Decidable (IsOrdinary c) :=
  inferInstanceAs (Decidable (c.toNat ≠ Yaml.nextLine ∧ c.toNat < 0x10D800))

/-- All characters of the text are ordinary. -/
def Ordinary (s : String) : Prop := ∀ c ∈ s.toList, IsOrdinary c

/-- For a text given by its characters. -/
theorem ordinary_ofList {cs : List Char} (h : ∀ c ∈ cs, IsOrdinary c) :
    Ordinary (String.ofList cs) := by
  rwa [Ordinary, String.toList_ofList]

theorem coded_of_lt {s : List Char} (h : ∀ c ∈ s, c.toNat < 0x10D800) : Coded s := by
  intro n hn
  rw [codes_eq_map h] at hn
  obtain ⟨c, _, rfl⟩ := List.mem_map.1 hn
  exact toNat_lt c

theorem Ordinary.coded {s : String} (h : Ordinary s) : Coded s.toList :=
  coded_of_lt fun c hc => (h c hc).2

theorem Ordinary.kept {s : String} (h : Ordinary s) : Json.Kept s := fun c hc => (h c hc).1

theorem ordinary_append {s t : String} : Ordinary (s ++ t) ↔ Ordinary s ∧ Ordinary t := by
  rw [Ordinary, String.toList_append]
  exact List.forall_mem_append

theorem Ordinary.append {s t : String} (hs : Ordinary s) (ht : Ordinary t) : Ordinary (s ++ t) :=
  ordinary_append.2 ⟨hs, ht⟩

section

variable {s : String} {first last : List Char} (h : Ordinary s)

include h

/-- After a text given by its characters. -/
theorem Ordinary.after (hfirst : ∀ c ∈ first, IsOrdinary c) : Ordinary (String.ofList first ++ s) :=
  (ordinary_ofList hfirst).append h

theorem Ordinary.before (hlast : ∀ c ∈ last, IsOrdinary c) : Ordinary (s ++ String.ofList last) :=
  h.append (ordinary_ofList hlast)

theorem Ordinary.between (hfirst : ∀ c ∈ first, IsOrdinary c) (hlast : ∀ c ∈ last, IsOrdinary c) :
    Ordinary (String.ofList first ++ s ++ String.ofList last) := (h.after hfirst).before hlast

end

theorem ordinary_intercalate {separator : String} {texts : List String}
    (hseparator : Ordinary separator) (h : ∀ t ∈ texts, Ordinary t) :
    Ordinary (String.intercalate separator texts) := by
  induction texts with
  | nil => exact ordinary_ofList (List.forall_mem_nil _)
  | cons t texts ih =>
    have ht := h t List.mem_cons_self
    cases texts with
    | nil => rwa [String.intercalate_singleton]
    | cons next texts =>
      rw [String.intercalate_cons_cons]
      exact (ht.append hseparator).append (ih fun u hu => h u (List.mem_cons_of_mem t hu))

end Text

open Text (IsOrdinary Ordinary ordinary_ofList ordinary_append ordinary_intercalate)

theorem ordinary_script {lines : List String} (h : ∀ l ∈ lines, Ordinary l) :
    Ordinary (script lines) := ordinary_intercalate (ordinary_ofList (by decide)) h

theorem ordinary_hosted {expression : String} (h : Ordinary expression) :
    Ordinary (hosted expression) := h.between (by decide) (by decide)

theorem Guard.ordinary_anyOf {conditions : List String} (h : ∀ t ∈ conditions, Ordinary t) :
    Ordinary (anyOf conditions) := ordinary_intercalate (ordinary_ofList (by decide)) h

theorem Guard.ordinary_conjunct {p : String} (h : Ordinary p) : Ordinary (conjunct p) := by
  rw [conjunct]
  split
  · exact h.between (by decide) (by decide)
  · exact h

theorem Guard.ordinary_allOf {conditions : List (Option String)}
    (h : ∀ o ∈ conditions, ∀ t ∈ o, Ordinary t) : ∀ t ∈ allOf conditions, Ordinary t := by
  have hparts : ∀ t ∈ conditions.filterMap fun c => c.filter (· != ""), Ordinary t := by
    intro t ht
    obtain ⟨o, ho, hot⟩ := List.mem_filterMap.1 ht
    exact h o ho t (Option.eq_some_of_filter_eq_some hot)
  intro t ht
  rw [allOf] at ht
  split at ht
  · cases ht
  · next p hp =>
    obtain rfl := Option.some.inj ht
    exact hparts _ (by rw [hp]; exact List.mem_cons_self)
  · next parts _ _ =>
    obtain rfl := Option.some.inj ht
    refine ordinary_intercalate (ordinary_ofList (by decide)) fun u hu => ?_
    obtain ⟨p, hp, rfl⟩ := List.mem_map.1 hu
    exact ordinary_conjunct (hparts p hp)

/-! ## Data -/

/-- What follows for the first of two related things holds of all first ones. -/
theorem forall_of_forall₂ {α β : Type} {R : α → β → Prop} {p : α → Prop} {xs : List α}
    {ys : List β} (hp : ∀ x y, R x y → p x) (h : List.Forall₂ R xs ys) : ∀ x ∈ xs, p x := by
  have hboth : List.Forall₂ (fun x y => p x ∧ R x y) xs ys := h.imp fun x y hxy => ⟨hp x y hxy, hxy⟩
  exact ((List.forall₂_and_left xs ys).1 hboth).1

namespace Json

/-- Data of at most so many levels, which can be read back and are read as the others. -/
structure ReadsAs (n : Nat) (j j' : Json) : Prop where
  levels : j.levels ≤ n
  legible : Yaml.Legible j
  readBack : j.readBack = j'

/-- A short key that comes back as it was. -/
def ShortKey (k : String) : Prop := Ordinary k ∧ k.toList.length ≤ Yaml.safeKeySize

theorem shortKey_ofList {cs : List Char}
    (h : (∀ c ∈ cs, IsOrdinary c) ∧ cs.length ≤ Yaml.safeKeySize) :
    ShortKey (String.ofList cs) :=
  ⟨ordinary_ofList h.1, by rw [String.toList_ofList]; exact h.2⟩

/-- Fields under short keys are read as the others. -/
def FieldsReadAs (n : Nat) (es fs : List (String × Json)) : Prop :=
  List.Forall₂ (fun e f => e.1 = f.1 ∧ ShortKey e.1 ∧ ReadsAs n e.2 f.2) es fs

variable {n : Nat} {s k : String} {j j' : Json} {xs ys : List Json}
variable {es fs gs hs : List (String × Json)}

theorem ReadsAs.bare (h : Yaml.IsBare j) : ReadsAs (n + 1) j j := by
  refine ⟨?_, .bare h, ?_⟩
  · cases j <;> first | exact Nat.le_add_left 1 n | exact h.elim
  · cases j <;> first | rfl | exact h.elim

theorem ReadsAs.coded (h : Text.Coded s.toList) :
    ReadsAs (n + 1) (.str s) (.str (readBackText s)) := ⟨Nat.le_add_left 1 n, .text h, rfl⟩

theorem ReadsAs.text (h : Ordinary s) : ReadsAs (n + 1) (.str s) (.str s) := by
  have hread : ReadsAs (n + 1) (.str s) (.str (readBackText s)) := .coded h.coded
  rwa [readBackText_eq_self h.kept] at hread

theorem FieldsReadAs.ite {p : Prop} [Decidable p] (h : FieldsReadAs n es fs) :
    FieldsReadAs n (if p then es else []) (if p then fs else []) := by
  split
  · exact h
  · exact .nil

theorem ReadsAs.list (h : List.Forall₂ (ReadsAs n) xs ys) :
    ReadsAs (n + 1) (.list xs) (.list ys) where
  levels := Nat.succ_le_succ (itemLevels_le (forall_of_forall₂ (fun _ _ hx => hx.levels) h))
  legible := .list (forall_of_forall₂ (fun _ _ hx => hx.legible) h)
  readBack := by
    refine congrArg Json.list ?_
    induction h with
    | nil => rfl
    | cons h _ ih => rw [readBackItems, h.readBack, ih]

theorem ReadsAs.texts {texts : List String} (h : ∀ t ∈ texts, Ordinary t) :
    ReadsAs (n + 2) (textsJson texts) (textsJson texts) := by
  refine .list (List.forall₂_same.2 fun x hx => ?_)
  obtain ⟨t, ht, rfl⟩ := List.mem_map.1 hx
  exact .text (h t ht)

theorem FieldsReadAs.cons (hk : ShortKey k) (h : ReadsAs n j j') (hes : FieldsReadAs n es fs) :
    FieldsReadAs n ((k, j) :: es) ((k, j') :: fs) := List.Forall₂.cons ⟨rfl, hk, h⟩ hes

theorem FieldsReadAs.nil : FieldsReadAs n [] [] := List.Forall₂.nil

theorem FieldsReadAs.single (hk : ShortKey k) (h : ReadsAs n j j') :
    FieldsReadAs n [(k, j)] [(k, j')] := .cons hk h .nil

theorem FieldsReadAs.append (h : FieldsReadAs n es fs) (h' : FieldsReadAs n gs hs) :
    FieldsReadAs n (es ++ gs) (fs ++ hs) := List.rel_append h h'

/-- Short keys come back as they were, so they stay different. -/
theorem FieldsReadAs.nodup_readBack (h : FieldsReadAs n es fs)
    (hkeys : (es.map Prod.fst).Nodup) : (es.map fun e => Yaml.readBack e.1.toList).Nodup := by
  have hkept : es.map (fun e => Yaml.readBack e.1.toList)
      = (es.map Prod.fst).map String.toList := by
    rw [List.map_map]
    exact List.map_congr_left (forall_of_forall₂
      (fun e _ he => Yaml.readBack_eq_self he.2.1.1.kept) h)
  rw [hkept]
  exact List.pairwise_map.2 (hkeys.imp fun hne he => hne (String.toList_inj.1 he))

theorem ShortKey.legible (hk : ShortKey k) : Yaml.LegibleKey k.toList :=
  Yaml.legibleKey_of_length_le hk.1.coded (Nat.le_trans (Yaml.length_codes_le _) hk.2)

theorem ReadsAs.object (h : FieldsReadAs n es fs) (hkeys : (es.map Prod.fst).Nodup) :
    ReadsAs (n + 1) (.object es) (.object fs) where
  levels := Nat.succ_le_succ (fieldLevels_le (forall_of_forall₂ (fun _ _ he => he.2.2.levels) h))
  legible := .object (forall_of_forall₂ (fun _ _ he => he.2.1.legible) h) (h.nodup_readBack hkeys)
    (forall_of_forall₂ (fun _ _ he => he.2.2.legible) h)
  readBack := by
    refine congrArg Json.object ?_
    clear hkeys
    induction h with
    | nil => rfl
    | @cons e f _ _ h _ ih =>
      obtain ⟨k, v⟩ := e
      obtain ⟨k', v'⟩ := f
      obtain ⟨rfl, hk, hv⟩ := h
      rw [readBackFields, ih, readBackText_eq_self hk.1.kept, hv.readBack]

/-- An object of texts. -/
theorem ReadsAs.textFields {entries : List (String × String)}
    (h : ∀ e ∈ entries, ShortKey e.1 ∧ Ordinary e.2) (hkeys : (entries.map Prod.fst).Nodup) :
    ReadsAs (n + 2) (.object (entries.map fun e => (e.1, .str e.2)))
      (.object (entries.map fun e => (e.1, .str e.2))) := by
  refine .object (List.forall₂_same.2 fun e he => ?_) ?_
  · obtain ⟨f, hf, rfl⟩ := List.mem_map.1 he
    exact ⟨rfl, (h f hf).1, .text (h f hf).2⟩
  · rwa [List.map_map]

end Json

end AppPipeline
