import AppPipeline.Proofs.Guard.Formula

/-!
# Conditions that compare names with texts

An atom compares what a name stands for in a run with a quoted text. `valuation`
gives the atoms their values in a `Context`; a name without a value stands for the
empty text, and the case of ASCII letters does not count.

`Decides text p` says that the text is a condition that holds in a context as `p`
says. It holds of comparisons (`decides_comparison`), and `anyOf` and `allOf` carry
it from the parts to the whole (`decides_anyOf`, `decides_allOf`).
-/

namespace AppPipeline.Guard

open Text

/-! ## Comparisons -/

/-- A name is compared with a literal: they are equal, or they are not. -/
structure Comparison where
  name : String
  equal : Bool
  literal : String
  deriving DecidableEq, Repr

def isNameChar (c : Char) : Bool := c.isAlphanum || c == '_' || c == '-' || c == '.'

/-- The character is neither a mark nor a quote. -/
def isLiteralChar (c : Char) : Bool := !(['&', '|', '(', ')', '\''].contains c)

def operator? : List Char → Option (Bool × List Char)
  | '=' :: '=' :: s => some (true, s)
  | '!' :: '=' :: s => some (false, s)
  | _ => none

/-- The text between two quotes, if it has none itself. -/
def literal? : List Char → Option String
  | '\'' :: s =>
    let body := s.takeWhile (· != '\'')
    if s.drop body.length = ['\''] then some (String.ofList body) else none
  | _ => none

/-- The comparison that an atom is. -/
def comparison? (text : String) : Option Comparison :=
  let name := text.toList.takeWhile isNameChar
  if name.isEmpty then none
  else
    match operator? (trimStart (text.toList.drop name.length)) with
    | some (equal, rest) => (literal? (trimStart rest)).map (⟨String.ofList name, equal, ·⟩)
    | none => none

/-! ## Contexts -/

/-- What names stand for. -/
abbrev Context := List (String × String)

def Context.read (ctx : Context) (name : String) : String := (ctx.lookup name).getD ""

/-- The texts are equal apart from the case of ASCII letters. -/
def sameText (s t : String) : Bool := s.toList.map Char.toLower == t.toList.map Char.toLower

namespace Comparison

def holds (ctx : Context) (k : Comparison) : Bool :=
  sameText (ctx.read k.name) k.literal == k.equal

def text (k : Comparison) : String :=
  k.name ++ (if k.equal then " == '" else " != '") ++ k.literal ++ "'"

/-- The text of the comparison is one atom. -/
structure IsPlain (k : Comparison) : Prop where
  name_ne_empty : k.name ≠ ""
  name : k.name.toList.all isNameChar = true
  literal : k.literal.toList.all isLiteralChar = true

end Comparison

/-- The values of atoms in a context. -/
def valuation (ctx : Context) : Valuation := fun atom => (comparison? atom).map (·.holds ctx)

/-! ## Comparisons are read -/

theorem range_of_isNameChar {c : Char} (h : isNameChar c = true) :
    0x2D ≤ c.toNat ∧ c.toNat < 0x7B := by
  have halphanum : c.isAlphanum = (decide (c.val ≥ 'A'.val ∧ c.val ≤ 'Z'.val)
      || (decide (c.val ≥ 'a'.val) && decide (c.val ≤ 'z'.val))
      || (decide (c.val ≥ '0'.val) && decide (c.val ≤ '9'.val))) := rfl
  simp only [isNameChar, halphanum, Bool.or_eq_true, Bool.and_eq_true, decide_eq_true_eq,
    beq_iff_eq, ge_iff_le, UInt32.le_iff_toNat_le] at h
  have hcode : c.val.toNat = c.toNat := rfl
  simp only [Char.reduceVal, UInt32.reduceToNat, hcode] at h
  rcases h with ((h | rfl) | rfl) | rfl
  · omega
  · decide
  · decide
  · decide

theorem isBlank_of_isNameChar {c : Char} (h : isNameChar c = true) : isBlank c = false := by
  have hc := range_of_isNameChar h
  simp only [isBlank, Bool.or_eq_false_iff, Bool.and_eq_false_iff, decide_eq_false_iff_not,
    beq_eq_false_iff_ne]
  omega

theorem unmarked_of_isNameChar {c : Char} (h : isNameChar c = true) :
    c ∉ ['&', '|', '(', ')'] := by
  intro hc
  simp only [List.mem_cons, List.not_mem_nil, or_false] at hc
  rcases hc with rfl | rfl | rfl | rfl <;> exact absurd h (by decide)

theorem literal?_quoted {s : String} (h : '\'' ∉ s.toList) :
    literal? ('\'' :: (s.toList ++ ['\''])) = some s := by
  have hall : ∀ c ∈ s.toList, (c != '\'') = true := fun c hc => bne_iff_ne.2 fun he => h (he ▸ hc)
  have hbody : (s.toList ++ ['\'']).takeWhile (· != '\'') = s.toList := by
    rw [List.takeWhile_append_of_pos hall]
    exact List.append_nil _
  simp only [literal?, hbody, List.drop_left, if_true, String.ofList_toList]

namespace Comparison

variable {k : Comparison}

theorem IsPlain.isNameChar_of_mem (h : k.IsPlain) {c : Char} (hc : c ∈ k.name.toList) :
    isNameChar c = true := List.all_eq_true.1 h.name c hc

theorem IsPlain.unmarked_of_mem (h : k.IsPlain) {c : Char} (hc : c ∈ k.literal.toList) :
    c ∉ ['&', '|', '(', ')', '\''] := by
  have hliteral := List.all_eq_true.1 h.literal c hc
  rwa [isLiteralChar, Bool.not_eq_true', ← Bool.not_eq_true, List.contains_iff_mem] at hliteral

theorem toList_text (k : Comparison) :
    k.text.toList = k.name.toList ++ ' ' :: (if k.equal then '=' else '!') :: '=' :: ' ' ::
      '\'' :: (k.literal.toList ++ ['\'']) := by
  rw [text]
  cases k.equal <;> simp

theorem IsPlain.comparison?_text (h : k.IsPlain) : comparison? k.text = some k := by
  have hname : k.text.toList.takeWhile isNameChar = k.name.toList := by
    rw [toList_text, List.takeWhile_append_of_pos fun _ hc => h.isNameChar_of_mem hc]
    exact List.append_nil _
  have hne : k.name.toList.isEmpty = false :=
    List.isEmpty_eq_false_iff.2 fun he => h.name_ne_empty (String.toList_eq_nil_iff.1 he)
  have hquote : '\'' ∉ k.literal.toList := fun hc => h.unmarked_of_mem hc (by simp)
  have hliteral : literal? (trimStart (' ' :: '\'' :: (k.literal.toList ++ ['\''])))
      = some k.literal :=
    literal?_quoted hquote
  have hoperator : operator? (trimStart (k.text.toList.drop k.name.toList.length))
      = some (k.equal, ' ' :: '\'' :: (k.literal.toList ++ ['\''])) := by
    rw [toList_text, List.drop_left]
    cases k.equal <;> rfl
  simp only [comparison?, hname, hne, hoperator, hliteral, String.ofList_toList]
  rfl

theorem IsPlain.isAtom (h : k.IsPlain) : IsAtom k.text := by
  obtain ⟨c, name, hname⟩ := List.exists_cons_of_ne_nil fun he =>
    h.name_ne_empty (String.toList_eq_nil_iff.1 he)
  have hc : isNameChar c = true :=
    h.isNameChar_of_mem (by rw [hname]; exact List.mem_cons_self)
  constructor
  · intro he
    simpa [toList_text] using congrArg String.toList he
  · intro d hd
    rw [toList_text] at hd
    simp only [List.mem_append, List.mem_cons, List.not_mem_nil, or_false] at hd
    rcases hd with hd | rfl | rfl | rfl | rfl | rfl | hd | rfl
    · exact unmarked_of_isNameChar (h.isNameChar_of_mem hd)
    · decide
    · cases k.equal <;> decide
    · decide
    · decide
    · decide
    · exact fun hm => h.unmarked_of_mem hd (List.mem_append_left ['\''] hm)
    · decide
  · rw [toList_text, hname]
    rintro d ⟨⟩
    exact isBlank_of_isNameChar hc
  · have hlast : k.text.toList.getLast? = some '\'' := by
      rw [text, String.toList_append]
      exact List.getLast?_concat
    rw [hlast]
    rintro d ⟨⟩
    decide

end Comparison

/-! ## What conditions decide -/

/-- The text is a condition that holds in a context as the function says. -/
def Decides (text : String) (p : Context → Bool) : Prop :=
  ∃ m, Means text m ∧ ∀ ctx, m (valuation ctx) = some (p ctx)

theorem Decides.evaluate_eq {text : String} {p : Context → Bool} (h : Decides text p)
    (ctx : Context) : evaluate (valuation ctx) text = some (p ctx) := by
  obtain ⟨m, hm, hp⟩ := h
  rw [hm.evaluate_eq, hp]

theorem Decides.congr {text : String} {p q : Context → Bool} (h : Decides text p)
    (heq : ∀ ctx, p ctx = q ctx) : Decides text q :=
  (funext heq : p = q) ▸ h

theorem decides_comparison {k : Comparison} (h : k.IsPlain) : Decides k.text (k.holds ·) :=
  ⟨_, means_atom h.isAtom, fun ctx => by rw [valuation, h.comparison?_text]; rfl⟩

/-- The meanings of conditions that decide. -/
theorem exists_meanings {texts : List String} {ps : List (Context → Bool)}
    (h : List.Forall₂ Decides texts ps) : ∃ ms : List Meaning, List.Forall₂ Means texts ms ∧
      (∀ ctx, allHold ms (valuation ctx) = some (ps.all (· ctx))) ∧
      ∀ ctx, someHolds ms (valuation ctx) = some (ps.any (· ctx)) := by
  induction h with
  | nil => exact ⟨[], .nil, fun _ => rfl, fun _ => rfl⟩
  | cons hdecides _ ih =>
    obtain ⟨m, hm, hp⟩ := hdecides
    obtain ⟨ms, hms, hall, hany⟩ := ih
    refine ⟨m :: ms, .cons hm hms, fun ctx => ?_, fun ctx => ?_⟩
    · rw [allHold, hp, hall]
      rfl
    · rw [someHolds, hp, hany]
      rfl

theorem decides_anyOf {texts : List String} {ps : List (Context → Bool)}
    (h : List.Forall₂ Decides texts ps) (hne : texts ≠ []) :
    Decides (anyOf texts) fun ctx => ps.any (· ctx) := by
  obtain ⟨ms, hms, _, hany⟩ := exists_meanings h
  exact ⟨someHolds ms, means_anyOf hms hne, hany⟩

/-- Some of the comparisons holds. -/
theorem decides_comparisons {ks : List Comparison} (h : ∀ k ∈ ks, k.IsPlain) (hne : ks ≠ []) :
    Decides (anyOf (ks.map Comparison.text)) fun ctx => ks.any (·.holds ctx) := by
  have hparts : List.Forall₂ Decides (ks.map Comparison.text)
      (ks.map fun k ctx => k.holds ctx) := by
    rw [List.forall₂_map_left_iff, List.forall₂_map_right_iff, List.forall₂_same]
    exact fun k hk => decides_comparison (h k hk)
  have hany := decides_anyOf hparts (by rwa [Ne, List.map_eq_nil_iff])
  simp only [List.any_map] at hany
  exact hany

theorem decides_allOf {conditions : List (Option String)} {texts : List String}
    {ps : List (Context → Bool)} (hgiven : conditions.filterMap id = texts)
    (h : List.Forall₂ Decides texts ps) (hne : texts ≠ []) :
    ∃ text, allOf conditions = some text ∧ Decides text fun ctx => ps.all (· ctx) := by
  obtain ⟨ms, hms, hall, _⟩ := exists_meanings h
  obtain ⟨text, htext, hm⟩ := means_allOf hgiven hms hne
  exact ⟨text, htext, allHold ms, hm, hall⟩

theorem decides_both {a b : String} {p q : Context → Bool} (ha : Decides a p) (hb : Decides b q) :
    ∃ text, allOf [some a, some b] = some text ∧ Decides text fun ctx => p ctx && q ctx := by
  have hgiven : [some a, some b].filterMap id = [a, b] := rfl
  obtain ⟨text, htext, h⟩ :=
    decides_allOf hgiven (.cons ha (.cons hb .nil)) (List.cons_ne_nil _ _)
  refine ⟨text, htext, h.congr fun ctx => ?_⟩
  rw [List.all_cons, List.all_cons, List.all_nil, Bool.and_true]

end AppPipeline.Guard
