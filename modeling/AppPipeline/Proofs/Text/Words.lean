import Mathlib.Data.List.Basic
import AppPipeline.Command.Basic

/-!
# Words in texts

* `mentions_iff_stands`: the search finds the words that stand in a text;
* `Spelled.append`: the characters of a text are put together from those of its
  parts, among which words can be searched without the text;
* `Stands.of_strip`: stripping a text brings no new word;
* `exists_stands_of_intercalate`: a word does not reach over a separator with
  other characters than its own, so texts between separators can be searched one
  by one (`Avoids.intercalate`);
* `holdsExpression_iff`: a text with an expression has an opening mark, and a
  closing one after it.
-/

namespace AppPipeline

namespace Text

/-- The word stands somewhere in the text. -/
def Stands (word text : String) : Prop := word.toList <:+: text.toList

theorem mentions_iff_stands (text word : String) : mentions text word = true ↔ Stands word text :=
  occurs_iff_infix word.toList text.toList

/-! ## Characters of texts -/

/-- The text has these characters. -/
def Spelled (text : String) (cs : List Char) : Prop := text.toList = cs

/-- A text that is given by its characters, as every literal is. -/
theorem spelled_ofList {cs : List Char} : Spelled (String.ofList cs) cs := String.toList_ofList

theorem Spelled.append {s t : String} {a b : List Char} (hs : Spelled s a) (ht : Spelled t b) :
    Spelled (s ++ t) (a ++ b) := by
  rw [Spelled, String.toList_append, hs, ht]

/-! ## Stripped texts -/

theorem trimEnd_isPrefix (s : List Char) : trimEnd s <+: s := by
  have h : s.reverse.dropWhile isBlank <:+ s.reverse := List.dropWhile_suffix isBlank
  rw [trimEnd]
  simpa using List.reverse_prefix.2 h

theorem trim_isInfix (s : List Char) : trim s <:+: s :=
  (trimEnd_isPrefix (trimStart s)).isInfix.trans (List.dropWhile_suffix isBlank).isInfix

theorem Stands.of_strip {word text : String} (h : Stands word (strip text)) : Stands word text := by
  rw [Stands, strip, String.toList_ofList] at h
  exact h.trans (trim_isInfix text.toList)

/-! ## Parts of texts -/

/-- A word without the character stands on one of its sides. -/
theorem isInfix_of_append_cons {c : Char} {w a b : List Char} (hc : c ∉ w)
    (h : w <:+: a ++ c :: b) : w <:+: a ∨ w <:+: b := by
  obtain ⟨x, y, h⟩ := h
  rcases List.append_eq_append_iff.1 h with ⟨t, rfl, -⟩ | ⟨t, hx, ht⟩
  · exact .inl ⟨x, t, rfl⟩
  · cases t with
    | nil => exact .inl ⟨x, [], by simpa using hx⟩
    | cons d t =>
      obtain ⟨rfl, rfl⟩ := List.cons.inj ht
      rcases List.append_eq_append_iff.1 hx with ⟨u, rfl, hu⟩ | ⟨u, rfl, hu⟩
      · exact absurd (hu ▸ by simp) hc
      · cases u with
        | nil =>
          have hw : w = c :: t := hu.symm
          exact absurd (hw ▸ List.mem_cons_self) hc
        | cons e u =>
          obtain ⟨rfl, rfl⟩ := List.cons.inj hu
          exact .inr ⟨u, y, rfl⟩

theorem isInfix_of_foreign_append {sep w b : List Char} (hw : w ≠ []) (hsep : ∀ c ∈ sep, c ∉ w)
    (h : w <:+: sep ++ b) : w <:+: b := by
  induction sep with
  | nil => exact h
  | cons c sep ih =>
    rw [List.forall_mem_cons] at hsep
    rcases isInfix_of_append_cons (a := []) hsep.1 h with h | h
    · exact absurd (List.infix_nil.1 h) hw
    · exact ih hsep.2 h

/-- Neither is empty, and they have no character in common. -/
structure Separates (sep word : String) : Prop where
  sep_ne_empty : sep ≠ ""
  word_ne_empty : word ≠ ""
  disjoint : ∀ c ∈ sep.toList, c ∉ word.toList

instance (sep word : String) : Decidable (Separates sep word) :=
  decidable_of_iff (sep ≠ "" ∧ word ≠ "" ∧ sep.toList.all (!word.toList.contains ·) = true)
    ⟨fun h => ⟨h.1, h.2.1, by simpa using h.2.2⟩, fun h => ⟨h.1, h.2, by simpa using h.3⟩⟩

/-- A word does not reach over a separator. -/
theorem Stands.of_separated {sep word s t : String} (hsep : Separates sep word)
    (h : Stands word (s ++ sep ++ t)) : Stands word s ∨ Stands word t := by
  have hword : word.toList ≠ [] := by simpa using hsep.word_ne_empty
  have hdisjoint := hsep.disjoint
  rw [Stands, String.toList_append, String.toList_append, List.append_assoc] at h
  cases hs : sep.toList with
  | nil => exact absurd (by simpa using hs) hsep.sep_ne_empty
  | cons c rest =>
    rw [hs, List.forall_mem_cons] at hdisjoint
    rw [hs] at h
    exact (isInfix_of_append_cons hdisjoint.1 h).imp_right
      (isInfix_of_foreign_append hword hdisjoint.2)

theorem Stands.of_enclosed {first last word s : String} (hfirst : Separates first word)
    (hlast : Separates last word) (h : Stands word (first ++ s ++ last)) : Stands word s := by
  have hempty : ¬ Stands word "" := by simpa [Stands] using hfirst.word_ne_empty
  have hbehind : Stands word ("" ++ first ++ (s ++ last)) := by
    rwa [String.empty_append, ← String.append_assoc]
  have hinside : Stands word (s ++ last ++ "") := by
    rw [String.append_empty]
    exact (hbehind.of_separated hfirst).resolve_left hempty
  exact (hinside.of_separated hlast).resolve_right hempty

theorem exists_stands_of_intercalate {sep word : String} (hsep : Separates sep word)
    {texts : List String} (h : Stands word (String.intercalate sep texts)) :
    ∃ t ∈ texts, Stands word t := by
  induction texts with
  | nil => exact absurd (by simpa [Stands] using h) hsep.word_ne_empty
  | cons t texts ih =>
    rw [List.exists_mem_cons_iff]
    cases texts with
    | nil => exact .inl (by simpa using h)
    | cons next texts =>
      rw [String.intercalate_cons_cons] at h
      exact (h.of_separated hsep).imp_right ih

theorem Stands.of_append_left {word s : String} (h : Stands word s) (t : String) :
    Stands word (s ++ t) := by
  rw [Stands, String.toList_append]
  exact h.trans (List.prefix_append s.toList t.toList).isInfix

theorem Stands.of_append_right {word t : String} (h : Stands word t) (s : String) :
    Stands word (s ++ t) := by
  rw [Stands, String.toList_append]
  exact h.trans (List.suffix_append s.toList t.toList).isInfix

end Text

theorem script_cons_cons (line next : String) (lines : List String) :
    (script (line :: next :: lines)).toList
      = line.toList ++ '\n' :: (script (next :: lines)).toList := by
  rw [script, String.intercalate_cons_cons, String.toList_append, String.toList_append,
    List.append_assoc]
  rfl

theorem Text.Spelled.script_singleton {line : String} {a : List Char} (h : Spelled line a) :
    Spelled (script [line]) a := by
  rwa [script, String.intercalate_singleton]

theorem Text.Spelled.script_cons {line next : String} {lines : List String} {a b : List Char}
    (hline : Spelled line a) (hlines : Spelled (script (next :: lines)) b) :
    Spelled (script (line :: next :: lines)) (a ++ '\n' :: b) := by
  rw [Spelled, script_cons_cons, hline, hlines]

theorem Text.Spelled.hosted {expression : String} {e : List Char} (h : Spelled expression e) :
    Spelled (hosted expression) (['$', '\x7b', '\x7b', ' '] ++ e ++ [' ', '\x7d', '\x7d']) :=
  (spelled_ofList.append h).append spelled_ofList

/-! ## Texts without words -/

namespace Text

/-- None of the words stands in the text. -/
def Avoids (words : List String) (text : String) : Prop := ∀ w ∈ words, ¬ Stands w text

/-- One of the words stands among the characters. -/
def findsAny (words : List String) (cs : List Char) : Bool :=
  words.any fun w => occurs w.toList cs

variable {words : List String}

theorem avoids_of_spelled {text : String} {cs : List Char} (htext : Spelled text cs)
    (h : findsAny words cs = false) : Avoids words text := by
  intro w hw hstands
  rw [findsAny, List.any_eq_false] at h
  rw [Stands, htext, ← occurs_iff_infix] at hstands
  exact h w hw hstands

theorem Avoids.of_subset {text : String} (h : Avoids words text) {others : List String}
    (hsub : others ⊆ words) : Avoids others text := fun w hw => h w (hsub hw)

theorem Avoids.intercalate {sep : String} (hsep : ∀ w ∈ words, Separates sep w)
    {texts : List String} (h : ∀ t ∈ texts, Avoids words t) :
    Avoids words (String.intercalate sep texts) := by
  intro w hw hstands
  obtain ⟨t, ht, hstands⟩ := exists_stands_of_intercalate (hsep w hw) hstands
  exact h t ht w hw hstands

end Text

/-! ## Expressions -/

/-- An expression that only the hosted runner resolves stands in the text. -/
def HoldsExpression (text : String) : Prop :=
  ∃ inside : String, Text.Stands ("$\x7b\x7b" ++ inside ++ "\x7d\x7d") text

theorem exists_append_prefix_iff {α : Type} (last s : List α) :
    (∃ before, before ++ last <+: s) ↔ last <:+: s := by
  constructor
  · rintro ⟨before, h⟩
    exact (List.suffix_append before last).isInfix.trans h.isInfix
  · rintro ⟨before, behind, h⟩
    exact ⟨before, behind, h⟩

theorem holdsExpression_iff_exists (s : List Char) :
    holdsExpression s = true ↔
      ∃ inside, '$' :: '\x7b' :: '\x7b' :: (inside ++ ['\x7d', '\x7d']) <:+: s := by
  fun_induction holdsExpression s with
  | case1 s ih =>
    rw [Bool.or_eq_true, ih, Text.occurs_iff_infix, ← exists_append_prefix_iff, ← exists_or]
    refine exists_congr fun inside => ?_
    rw [List.infix_cons_iff (a := '$')]
    simp only [List.cons_prefix_cons, true_and]
  | case2 c s hmark ih =>
    rw [ih]
    refine exists_congr fun inside => ?_
    rw [List.infix_cons_iff]
    refine (or_iff_right fun hprefix => ?_).symm
    obtain ⟨rest, hrest⟩ := hprefix
    rw [List.cons_append, List.cons.injEq] at hrest
    obtain ⟨rfl, rfl⟩ := hrest
    exact hmark _ rfl rfl
  | case3 => simp

theorem HoldsExpression.of_strip {text : String} (h : HoldsExpression (Text.strip text)) :
    HoldsExpression text := by
  obtain ⟨inside, hstands⟩ := h
  exact ⟨inside, hstands.of_strip⟩

theorem HoldsExpression.of_append_left {s : String} (h : HoldsExpression s) (t : String) :
    HoldsExpression (s ++ t) := by
  obtain ⟨inside, hstands⟩ := h
  exact ⟨inside, hstands.of_append_left t⟩

theorem HoldsExpression.of_append_right {t : String} (h : HoldsExpression t) (s : String) :
    HoldsExpression (s ++ t) := by
  obtain ⟨inside, hstands⟩ := h
  exact ⟨inside, hstands.of_append_right s⟩

theorem holdsExpression_hosted (expression : String) : HoldsExpression (hosted expression) := by
  refine ⟨" " ++ expression ++ " ", [], [], ?_⟩
  simp [hosted]

theorem holdsExpression_iff (text : String) :
    holdsExpression text.toList = true ↔ HoldsExpression text := by
  rw [holdsExpression_iff_exists]
  constructor
  · rintro ⟨inside, h⟩
    exact ⟨String.ofList inside, by simpa [Text.Stands] using h⟩
  · rintro ⟨inside, h⟩
    exact ⟨inside.toList, by simpa [Text.Stands] using h⟩

end AppPipeline
