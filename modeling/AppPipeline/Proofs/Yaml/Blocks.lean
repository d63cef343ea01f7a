import AppPipeline.Proofs.Yaml.Lines

/-!
# Blocks

What is known of the text of data before a token of it is read: every value ends its line
(`Legible.wholeLines`), and all characters may stand in a document (`Legible.harmless`).
`Legible` says which data can be read back.
-/

namespace AppPipeline

namespace Yaml

variable {s u w r : List Char} {c : Char} {i column k : Nat} {behind : Bool} {j : Json}
variable {xs : List Json} {es : List (String × Json)}

/-! ## Data that can be read back -/

/-- A key that can be read back: if it stands before its colon, the colon is close. -/
structure LegibleKey (s : List Char) : Prop where
  coded : Text.Coded s
  reach : isSimpleKey s = true → (Text.codes (keyText 0 s)).length ≤ keyReach

/-- Data that can be read back: no fractions, no integers of too many digits, and different keys
stay different. -/
inductive Legible : Json → Prop
  | bare {j : Json} (h : IsBare j) : Legible j
  | text {s : String} (h : Text.Coded s.toList) : Legible (.str s)
  | list {xs : List Json} (h : ∀ x ∈ xs, Legible x) : Legible (.list xs)
  | object {es : List (String × Json)} (hkeys : ∀ e ∈ es, LegibleKey e.1.toList)
      (hdistinct : (es.map fun e => readBack e.1.toList).Nodup) (h : ∀ e ∈ es, Legible e.2) :
      Legible (.object es)

theorem LegibleKey.reach_column (h : LegibleKey s) (hs : isSimpleKey s = true) (column : Nat) :
    (Text.codes (keyText column s)).length ≤ keyReach := by
  have hline := not_isMultiline hs
  have hstyle : styleOf true s ≠ .literal := by
    rw [styleOf_key hs]
    exact styleOf_ne_literal hline
  rw [keyText, styled_unfolded h.coded hstyle hline 0 0 column 0]
  exact h.reach hs

/-! ## Short keys -/

theorem length_codes_le (s : List Char) : (Text.codes s).length ≤ s.length := by
  fun_induction Text.codes s with
  | case1 => exact Nat.le_refl 0
  | case2 => exact Nat.le_refl 1
  | case3 c d rest _ ih =>
    rw [List.length_cons, List.length_cons, List.length_cons]
    omega
  | case4 c d rest _ ih =>
    rw [List.length_cons, List.length_cons]
    omega

theorem length_charsOf_le (n : Nat) : (Text.charsOf n).length ≤ 2 := by
  unfold Text.charsOf
  repeat' split
  all_goals exact of_decide_eq_true rfl

theorem Escape.length_le {n : Nat} {e : List Char} (h : Escape n e) : e.length ≤ 10 := by
  cases h with
  | letter => exact of_decide_eq_true rfl
  | code c width _ hwidth =>
    have hle : width ≤ 8 := by
      unfold codeWidth? at hwidth
      split at hwidth <;> first
        | (obtain rfl := Option.some.inj hwidth; decide)
        | cases hwidth
    rw [List.length_cons, List.length_cons, upperHex, List.length_map, Text.length_hexDigits]
    omega

theorem length_plainBody_le (column prev : Nat) (ns : List Nat) :
    (plainBody false i column prev ns).length ≤ 2 * ns.length := by
  induction ns generalizing column prev with
  | nil => exact Nat.le_refl 0
  | cons n ns ih =>
    have hchars := length_charsOf_le n
    have htail := ih (column + 1) n
    simp only [plainBody, Bool.false_and, Bool.false_eq_true, if_false]
    rw [List.length_append, List.length_cons]
    omega

theorem length_singleBody_le (column : Nat) (prev : Option Nat) (ns : List Nat) :
    (singleBody false 0 column prev ns).length ≤ 2 * ns.length := by
  have hlead : ∀ prev : Option Nat, (if prev.any isBreakCode then spaces 0 else []) = [] := by
    intro prev
    split <;> rfl
  induction ns generalizing column prev with
  | nil =>
    rw [singleBody, hlead]
    exact Nat.le_refl 0
  | cons n ns ih =>
    have hbound : ∀ {m k : Nat}, m ≤ 2 → k ≤ 2 * ns.length → m + k ≤ 2 * (ns.length + 1) := by
      omega
    rw [singleBody]
    split
    · rw [List.length_cons, List.length_cons, Nat.add_comm]
      exact hbound (of_decide_eq_true rfl) (ih _ _)
    · simp only [hlead, Bool.false_and, Bool.false_eq_true, if_false, List.nil_append]
      split
      · rw [List.length_cons, List.length_cons, List.length_cons, Nat.add_assoc, Nat.add_comm]
        exact hbound (Nat.le_refl 2) (ih _ _)
      · rw [List.length_append, List.length_cons]
        exact hbound (length_charsOf_le n) (ih _ _)

theorem length_doubleBody_le (column : Nat) (first escaped : Bool) {ns : List Nat}
    (hcoded : ∀ n ∈ ns, n < 0x110000) :
    (doubleBody false i column first escaped ns).length ≤ 10 * ns.length := by
  induction ns generalizing column first escaped with
  | nil => exact Nat.le_refl 0
  | cons n ns ih =>
    have htail := fun column first escaped =>
      ih column first escaped fun m hm => hcoded m (List.mem_cons_of_mem n hm)
    have hbound : ∀ {m k : Nat}, m ≤ 10 → k ≤ 10 * ns.length → m + k ≤ 10 * (ns.length + 1) := by
      omega
    simp only [doubleBody, Bool.false_and, Bool.false_eq_true, if_false]
    split
    · next e he =>
      have hescape := (escape_escape? he (hcoded n List.mem_cons_self)).length_le
      rw [List.length_append, List.length_cons]
      exact hbound hescape (htail _ _ _)
    · rw [List.length_cons, List.length_cons, Nat.add_comm]
      exact hbound (of_decide_eq_true rfl) (htail _ _ _)

/-- The codes of a key whose colon is close however the key is written. -/
def safeKeySize : Nat := 102

/-- A key that is not too long can be read back. -/
theorem legibleKey_of_length_le (hcoded : Text.Coded s)
    (hlength : (Text.codes s).length ≤ safeKeySize) : LegibleKey s := by
  refine ⟨hcoded, fun hs => Nat.le_trans (length_codes_le _) ?_⟩
  have hsize : 10 * safeKeySize + 2 ≤ keyReach := by decide
  rw [keyText]
  cases hstyle : styleOf true s with
  | plain =>
    have hplain := length_plainBody_le (i := 0) 0 spaceCode (Text.codes s)
    rw [styled]
    omega
  | single =>
    have hsingle := length_singleBody_le (0 + 1) none (Text.codes s)
    rw [styled, List.length_append, List.length_cons, List.length_singleton]
    omega
  | double =>
    have hdouble := length_doubleBody_le (i := 0) (0 + 1) true false hcoded
    rw [styled, List.length_append, List.length_cons, List.length_singleton]
    omega
  | literal =>
    rw [styleOf_key hs] at hstyle
    exact absurd hstyle (styleOf_ne_literal (not_isMultiline hs))

/-! ## Shapes of blocks -/

theorem afterMark_bare (h : IsBare j) : afterMark i j = ' ' :: plainScalar j ++ ['\n'] := by
  cases j <;> first | rfl | exact absurd h id

theorem afterKey_bare (h : IsBare j) : afterKey i column j = ' ' :: plainScalar j ++ ['\n'] := by
  cases j <;> first | rfl | exact absurd h id

theorem afterMark_list (hxs : xs ≠ []) : afterMark i (.list xs) = ' ' :: items true i xs := by
  rw [afterMark, if_neg (by rwa [List.isEmpty_iff])]

theorem afterKey_list (hxs : xs ≠ []) :
    afterKey i column (.list xs) = '\n' :: items false i xs := by
  rw [afterKey, if_neg (by rwa [List.isEmpty_iff])]

theorem afterMark_object (hes : es ≠ []) :
    afterMark i (.object es) = ' ' :: entries true i es := by
  rw [afterMark, if_neg (by rwa [List.isEmpty_iff])]

theorem afterKey_object (hes : es ≠ []) :
    afterKey i column (.object es) = '\n' :: entries false (i + 2) es := by
  rw [afterKey, if_neg (by rwa [List.isEmpty_iff])]

theorem items_cons (x : Json) : items behind i (x :: xs)
    = (if behind then [] else spaces i) ++ ('-' :: afterMark (i + 2) x ++ items false i xs) := by
  rw [items, List.append_assoc]

/-! ## Ends of lines -/

/-- The text ends with a line break. -/
def WholeLines (w : List Char) : Prop := w.getLast?.any isBreak = true

theorem WholeLines.append (u : List Char) (h : WholeLines w) : WholeLines (u ++ w) := by
  rw [WholeLines, Option.any_eq_true] at h ⊢
  obtain ⟨c, hc, hbreak⟩ := h
  exact ⟨c, by rw [List.getLast?_append, hc]; rfl, hbreak⟩

theorem WholeLines.cons (c : Char) (h : WholeLines w) : WholeLines (c :: w) := h.append [c]

theorem WholeLines.append_nil_or (h : WholeLines u) (hw : w = [] ∨ WholeLines w) :
    WholeLines (u ++ w) := by
  rcases hw with rfl | hw
  · rwa [List.append_nil]
  · exact hw.append u

/-- Behind a line the column is the number of spaces. -/
theorem WholeLines.column_skip {p : Cursor} (hw : WholeLines w)
    (hp : p.rest = w ++ (spaces k ++ r)) : (p.skip (w.length + k)).column = k := by
  rw [WholeLines, Option.any_eq_true] at hw
  obtain ⟨c, hc, hbreak⟩ := hw
  obtain ⟨u, rfl⟩ := List.getLast?_eq_some_iff.1 hc
  rw [List.length_append, List.length_singleton]
  refine Cursor.column_skip_line (r := r) ?_ hbreak
  rw [hp, List.append_assoc, List.append_assoc]
  rfl

theorem wholeLines_literalBody {start : Bool} (h : start = true → isBreak c = true) :
    WholeLines (c :: literalBody i start s) := by
  induction s generalizing c start with
  | nil =>
    cases start with
    | true => exact h rfl
    | false => exact rfl
  | cons d s ih =>
    rw [literalBody]
    split
    · next hbreak => exact (ih fun _ => hbreak).cons c
    · rw [← List.cons_append]
      exact (ih Bool.noConfusion).append _

theorem wholeLines_textLine : WholeLines (textLine i column s) := by
  rw [textLine]
  split
  · next h =>
    rw [h, List.append_nil]
    exact (wholeLines_literalBody fun _ => rfl).append _
  · exact WholeLines.append (w := ['\n']) _ rfl

theorem wholeLines_items (h : ∀ x ∈ xs, WholeLines (afterMark (i + 2) x)) (hxs : xs ≠ []) :
    WholeLines (items behind i xs) := by
  induction xs generalizing behind with
  | nil => exact absurd rfl hxs
  | cons x xs ih =>
    rw [items_cons]
    refine WholeLines.append _ (((h x List.mem_cons_self).cons '-').append_nil_or ?_)
    by_cases hempty : xs = []
    · exact .inl (by rw [hempty]; rfl)
    · exact .inr (ih (fun y hy => h y (List.mem_cons_of_mem x hy)) hempty)

/-- The text of an entry behind its indentation. -/
def entryText (i : Nat) (e : String × Json) : List Char :=
  if isSimpleKey e.1.toList then
    keyText i e.1.toList
      ++ ':' :: afterKey i (i + (Text.codes (keyText i e.1.toList)).length + 1) e.2
  else
    '?' :: ' ' :: textLine (i + 2) (i + 2) e.1.toList ++ spaces i ++ ':' :: afterMark (i + 2) e.2

theorem entries_cons (e : String × Json) : entries behind i (e :: es)
    = (if behind then [] else spaces i) ++ (entryText i e ++ entries false i es) := by
  rw [entries, List.append_assoc, entryText]

theorem wholeLines_entryText {e : String × Json} (hmark : WholeLines (afterMark (i + 2) e.2))
    (hkey : ∀ column, WholeLines (afterKey i column e.2)) : WholeLines (entryText i e) := by
  rw [entryText]
  split
  · exact ((hkey _).cons ':').append _
  · exact (hmark.cons ':').append _

theorem wholeLines_entries (h : ∀ e ∈ es, WholeLines (entryText i e)) (hes : es ≠ []) :
    WholeLines (entries behind i es) := by
  induction es generalizing behind with
  | nil => exact absurd rfl hes
  | cons e es ih =>
    rw [entries_cons]
    refine WholeLines.append _ ((h e List.mem_cons_self).append_nil_or ?_)
    by_cases hempty : es = []
    · exact .inl (by rw [hempty]; rfl)
    · exact .inr (ih (fun f hf => h f (List.mem_cons_of_mem e hf)) hempty)

/-- Every value ends its line. -/
theorem Legible.wholeLines (h : Legible j) :
    (∀ i, WholeLines (afterMark i j)) ∧ ∀ i column, WholeLines (afterKey i column j) := by
  induction h with
  | bare h =>
    exact ⟨fun i => by rw [afterMark_bare h]; exact WholeLines.append (w := ['\n']) _ rfl,
      fun i column => by rw [afterKey_bare h]; exact WholeLines.append (w := ['\n']) _ rfl⟩
  | text =>
    exact ⟨fun i => wholeLines_textLine.cons ' ', fun i column => wholeLines_textLine.cons ' '⟩
  | @list xs _ ih =>
    by_cases hxs : xs = []
    · subst hxs
      exact ⟨fun i => rfl, fun i column => rfl⟩
    · refine ⟨fun i => ?_, fun i column => ?_⟩
      · rw [afterMark_list hxs]
        exact (wholeLines_items (fun x hx => (ih x hx).1 (i + 2)) hxs).cons ' '
      · rw [afterKey_list hxs]
        exact (wholeLines_items (fun x hx => (ih x hx).1 (i + 2)) hxs).cons '\n'
  | @object es _ _ _ ih =>
    have hentry : ∀ i, ∀ e ∈ es, WholeLines (entryText i e) := fun i e he =>
      wholeLines_entryText ((ih e he).1 (i + 2)) fun column => (ih e he).2 i column
    by_cases hes : es = []
    · subst hes
      exact ⟨fun i => rfl, fun i column => rfl⟩
    · refine ⟨fun i => ?_, fun i column => ?_⟩
      · rw [afterMark_object hes]
        exact (wholeLines_entries (hentry i) hes).cons ' '
      · rw [afterKey_object hes]
        exact (wholeLines_entries (hentry (i + 2)) hes).cons '\n'

/-! ## Characters -/

/-- The text may stand in a document. -/
def Harmless (w : List Char) : Prop := ∀ c ∈ w, IsHarmless c

theorem harmless_append : Harmless (u ++ w) ↔ Harmless u ∧ Harmless w := List.forall_mem_append

theorem harmless_cons : Harmless (c :: w) ↔ IsHarmless c ∧ Harmless w := List.forall_mem_cons

theorem isHarmless_printable (h : 0x20 ≤ c.toNat ∧ c.toNat ≤ 0x7E) : IsHarmless c :=
  have hplaced : IsPlaced false c := .inl h
  hplaced.isHarmless

theorem harmless_printable (h : ∀ c ∈ w, 0x20 ≤ c.toNat ∧ c.toNat ≤ 0x7E) : Harmless w :=
  fun c hc => isHarmless_printable (h c hc)

theorem harmless_spaces : Harmless (spaces k) :=
  harmless_printable fun c hc => by rw [mem_spaces hc]; decide

theorem harmless_feed : Harmless ['\n'] :=
  harmless_cons.2 ⟨IsPlaced.isHarmless (.inr ⟨rfl, rfl⟩), fun _ h => by cases h⟩

theorem harmless_textLine (hcoded : Text.Coded s) : Harmless (textLine i column s) := by
  refine harmless_append.2 ⟨fun c hc => isHarmless_of_mem_styled hcoded (fits_styleOf _ _) hc, ?_⟩
  split
  · exact fun c hc => by cases hc
  · exact harmless_feed

theorem harmless_keyText (hcoded : Text.Coded s) : Harmless (keyText column s) :=
  fun _ hc => isHarmless_of_mem_styled hcoded (fits_styleOf _ _) hc

theorem harmless_plainScalar (h : IsBare j) : Harmless (plainScalar j) := by
  apply harmless_printable
  match j with
  | .null => decide
  | .bool true => decide
  | .bool false => decide
  | .int n =>
    intro c hc
    rcases (integerText_toString n).chars c hc with hdigit | rfl
    · obtain ⟨hlow, hhigh⟩ := toNat_of_isDigit hdigit
      omega
    · decide

theorem harmless_lead : Harmless (if behind then [] else spaces i) := by
  cases behind
  · exact harmless_spaces
  · exact fun c hc => by cases hc

theorem harmless_items (h : ∀ x ∈ xs, Harmless (afterMark (i + 2) x)) :
    Harmless (items behind i xs) := by
  induction xs generalizing behind with
  | nil => exact fun c hc => by cases hc
  | cons x xs ih =>
    rw [items_cons, harmless_append, List.cons_append, harmless_cons, harmless_append]
    exact ⟨harmless_lead, isHarmless_printable (by decide),
      h x List.mem_cons_self, ih fun y hy => h y (List.mem_cons_of_mem x hy)⟩

theorem harmless_entryText {e : String × Json} (hcoded : Text.Coded e.1.toList)
    (hmark : Harmless (afterMark (i + 2) e.2)) (hkey : ∀ column, Harmless (afterKey i column e.2)) :
    Harmless (entryText i e) := by
  have hcolon : IsHarmless ':' := isHarmless_printable (by decide)
  rw [entryText]
  split
  · rw [harmless_append, harmless_cons]
    exact ⟨harmless_keyText hcoded, hcolon, hkey _⟩
  · rw [List.append_assoc, List.cons_append, List.cons_append, harmless_cons, harmless_cons,
      harmless_append, harmless_append, harmless_cons]
    exact ⟨isHarmless_printable (by decide),
      isHarmless_printable (by decide), harmless_textLine hcoded,
      harmless_spaces, hcolon, hmark⟩

theorem harmless_entries (h : ∀ e ∈ es, Harmless (entryText i e)) :
    Harmless (entries behind i es) := by
  induction es generalizing behind with
  | nil => exact fun c hc => by cases hc
  | cons e es ih =>
    rw [entries_cons, harmless_append, harmless_append]
    exact ⟨harmless_lead, h e List.mem_cons_self,
      ih fun f hf => h f (List.mem_cons_of_mem e hf)⟩

theorem Legible.harmless (h : Legible j) :
    (∀ i, Harmless (afterMark i j)) ∧ ∀ i column, Harmless (afterKey i column j) := by
  have hspace : IsHarmless ' ' := isHarmless_printable (by decide)
  have hfeed : IsHarmless '\n' := IsPlaced.isHarmless (.inr ⟨rfl, rfl⟩)
  have hempty : ∀ c d : Char, (∀ e ∈ [' ', c, d], 0x20 ≤ e.toNat ∧ e.toNat ≤ 0x7E) →
      Harmless [' ', c, d, '\n'] :=
    fun c d h => harmless_append.2 ⟨harmless_printable h, harmless_feed⟩
  induction h with
  | bare h =>
    have hword := harmless_append.2
      ⟨harmless_cons.2 ⟨hspace, harmless_plainScalar h⟩, harmless_feed⟩
    exact ⟨fun i => by rw [afterMark_bare h]; exact hword,
      fun i column => by rw [afterKey_bare h]; exact hword⟩
  | text h =>
    exact ⟨fun i => harmless_cons.2 ⟨hspace, harmless_textLine h⟩,
      fun i column => harmless_cons.2 ⟨hspace, harmless_textLine h⟩⟩
  | @list xs _ ih =>
    have hitems : ∀ behind i, Harmless (items behind i xs) := fun behind i =>
      harmless_items fun x hx => (ih x hx).1 (i + 2)
    by_cases hxs : xs = []
    · subst hxs
      exact ⟨fun i => hempty '[' ']' (by decide), fun i column => hempty '[' ']' (by decide)⟩
    · refine ⟨fun i => ?_, fun i column => ?_⟩
      · rw [afterMark_list hxs]
        exact harmless_cons.2 ⟨hspace, hitems true i⟩
      · rw [afterKey_list hxs]
        exact harmless_cons.2 ⟨hfeed, hitems false i⟩
  | @object es hkeys _ _ ih =>
    have hentries : ∀ behind i, Harmless (entries behind i es) := fun behind i =>
      harmless_entries fun e he => harmless_entryText (hkeys e he).coded ((ih e he).1 (i + 2))
        fun column => (ih e he).2 i column
    by_cases hes : es = []
    · subst hes
      exact ⟨fun i => hempty '\x7b' '\x7d' (by decide),
        fun i column => hempty '\x7b' '\x7d' (by decide)⟩
    · refine ⟨fun i => ?_, fun i column => ?_⟩
      · rw [afterMark_object hes]
        exact harmless_cons.2 ⟨hspace, hentries true i⟩
      · rw [afterKey_object hes]
        exact harmless_cons.2 ⟨hfeed, hentries false (i + 2)⟩

end Yaml

end AppPipeline
