import Mathlib.Tactic.Tauto
import AppPipeline.Proofs.Yaml.Plain

/-!
# Characters of written scalars

Every character that is written for a text may stand in a document
(`isHarmless_of_mem_styled`), and no line ends inside a text that stands on one line
(`inline_styled`).
-/

namespace AppPipeline.Yaml

open Text (charsOf codes)

variable {fold : Bool} {indent column n : Nat} {ns : List Nat} {s : List Char} {c : Char}

/-! ## Where the characters come from -/

/-- The character of a mark, or of a new line that was put in. -/
def IsPlaced (fold : Bool) (c : Char) : Prop :=
  (0x20 ≤ c.toNat ∧ c.toNat ≤ 0x7E) ∨ (fold = true ∧ c = '\n')

theorem IsPlaced.or (h : IsPlaced fold c) (other : Bool) : IsPlaced (fold || other) c :=
  h.imp_right fun ⟨hfold, hc⟩ => ⟨by rw [hfold, Bool.true_or], hc⟩

theorem isPlaced_spaces {k : Nat} (h : c ∈ spaces k) : IsPlaced fold c := by
  rw [mem_spaces h]
  exact .inl ⟨by decide, by decide⟩

theorem mem_plainBody {prev : Nat} (h : c ∈ plainBody fold indent column prev ns) :
    IsPlaced fold c ∨ ∃ n ∈ ns, c ∈ charsOf n := by
  induction ns generalizing column prev with
  | nil => cases h
  | cons n ns ih =>
    have htail : ∀ {column prev}, c ∈ plainBody fold indent column prev ns →
        IsPlaced fold c ∨ ∃ m ∈ n :: ns, c ∈ charsOf m := fun h =>
      (ih h).imp_right fun ⟨m, hm, hc⟩ => ⟨m, List.mem_cons_of_mem n hm, hc⟩
    rw [plainBody] at h
    split at h
    · next hfold =>
      simp only [Bool.and_eq_true] at hfold
      rw [List.cons_append, List.mem_cons, List.mem_append] at h
      rcases h with rfl | h | h
      · exact .inl (.inr ⟨hfold.1.1.1.1, rfl⟩)
      · exact .inl (isPlaced_spaces h)
      · exact htail h
    · rcases List.mem_append.1 h with h | h
      · exact .inr ⟨n, List.mem_cons_self, h⟩
      · exact htail h

theorem mem_singleBody {prev : Option Nat} (h : c ∈ singleBody fold indent column prev ns) :
    IsPlaced fold c ∨ ∃ n ∈ ns, c ∈ charsOf n := by
  have hquote : IsPlaced fold '\'' := .inl ⟨by decide, by decide⟩
  have hlead : ∀ prev : Option Nat, c ∈ (if prev.any isBreakCode then spaces indent else []) →
      IsPlaced fold c := by
    intro prev h
    split at h
    · exact isPlaced_spaces h
    · cases h
  induction ns generalizing column prev with
  | nil => exact .inl (hlead prev h)
  | cons n ns ih =>
    have htail : ∀ {column prev}, c ∈ singleBody fold indent column prev ns →
        IsPlaced fold c ∨ ∃ m ∈ n :: ns, c ∈ charsOf m := fun h =>
      (ih h).imp_right fun ⟨m, hm, hc⟩ => ⟨m, List.mem_cons_of_mem n hm, hc⟩
    rw [singleBody] at h
    split at h
    · next hn =>
      rcases List.mem_cons.1 h with rfl | h
      · refine .inr ⟨n, List.mem_cons_self, ?_⟩
        rw [(charsOf_break hn).1]
        exact List.mem_cons_self
      · exact htail h
    · rcases List.mem_append.1 h with h | h
      · exact .inl (hlead prev h)
      · generalize column + List.length _ = behind at h
        split at h
        · rw [List.mem_cons, List.mem_cons] at h
          rcases h with rfl | rfl | h
          · exact .inl hquote
          · exact .inl hquote
          · exact htail h
        · split at h
          · next hfold =>
            simp only [Bool.and_eq_true] at hfold
            rw [List.cons_append, List.mem_cons, List.mem_append] at h
            rcases h with rfl | h | h
            · exact .inl (.inr ⟨hfold.1.1.1.1.1.1, rfl⟩)
            · exact .inl (isPlaced_spaces h)
            · exact htail h
          · rcases List.mem_append.1 h with h | h
            · exact .inr ⟨n, List.mem_cons_self, h⟩
            · exact htail h

/-! ### Escapes -/

theorem isPlaced_hexDigit {d : Nat} (h : d < 16) : IsPlaced fold (Nat.digitChar d).toUpper := by
  have hall : ∀ d < 16, 0x20 ≤ (Nat.digitChar d).toUpper.toNat ∧
      (Nat.digitChar d).toUpper.toNat ≤ 0x7E := by decide
  exact .inl (hall d h)

theorem isPlaced_upperHex {width : Nat} (h : c ∈ upperHex width n) : IsPlaced fold c := by
  induction width generalizing n with
  | zero => cases h
  | succ w ih =>
    rw [upperHex, Text.hexDigits, List.map_append, List.mem_append] at h
    rcases h with h | h
    · exact ih h
    · rw [List.map_singleton, List.mem_singleton] at h
      rw [h]
      exact isPlaced_hexDigit (Nat.mod_lt n (by decide))

/-- An escape is written with marks, letters and digits. -/
theorem Escape.isPlaced {e : List Char} (h : Escape n e) (hc : c ∈ e) : IsPlaced fold c := by
  cases h with
  | letter d _ _ _ hd =>
    rw [List.mem_cons, List.mem_singleton] at hc
    rcases hc with rfl | rfl
    · exact .inl (by decide)
    · exact .inl hd
  | code d width _ _ _ hd =>
    rw [List.mem_cons, List.mem_cons] at hc
    rcases hc with rfl | rfl | hc
    · exact .inl (by decide)
    · exact .inl hd
    · exact isPlaced_upperHex hc

theorem isPlaced_doubleBreak {next : Option Nat} (hfold : fold = true)
    (h : c ∈ doubleBreak indent next) : IsPlaced fold c := by
  rw [doubleBreak, List.cons_append, List.cons_append, List.mem_cons, List.mem_cons,
    List.mem_append] at h
  rcases h with rfl | rfl | h | h
  · exact .inl (by decide)
  · exact .inr ⟨hfold, rfl⟩
  · exact isPlaced_spaces h
  · split at h
    · rw [List.mem_singleton] at h
      rw [h]
      exact .inl (by decide)
    · cases h

theorem mem_doubleBody {first escaped : Bool} (hcoded : ∀ n ∈ ns, n < 0x110000)
    (h : c ∈ doubleBody fold indent column first escaped ns) :
    IsPlaced fold c ∨ ∃ n ∈ ns, escape? n = none ∧ c = Char.ofNat n := by
  induction ns generalizing column first escaped with
  | nil => cases h
  | cons n ns ih =>
    have htail : ∀ {column first escaped}, c ∈ doubleBody fold indent column first escaped ns →
        IsPlaced fold c ∨ ∃ m ∈ n :: ns, escape? m = none ∧ c = Char.ofNat m := fun h =>
      (ih (fun m hm => hcoded m (List.mem_cons_of_mem n hm)) h).imp_right
        fun ⟨m, hm, hc⟩ => ⟨m, List.mem_cons_of_mem n hm, hc⟩
    cases he : escape? n with
    | some e =>
      rw [doubleBody_escape he] at h
      rcases List.mem_append.1 h with h | h
      · exact .inl ((escape_escape? he (hcoded n List.mem_cons_self)).isPlaced h)
      · split at h
        · next hfold =>
          simp only [foldsCode, Bool.and_eq_true] at hfold
          rcases List.mem_append.1 h with h | h
          · exact .inl (isPlaced_doubleBreak hfold.1.1.1 h)
          · exact htail h
        · exact htail h
    | none =>
      rw [doubleBody_char he] at h
      split at h
      · next hfold =>
        simp only [foldsCode, Bool.and_eq_true] at hfold
        rcases List.mem_append.1 h with h | h
        · exact .inl (isPlaced_doubleBreak hfold.1.1.1.1 h)
        · rcases List.mem_cons.1 h with rfl | h
          · exact .inr ⟨n, List.mem_cons_self, he, rfl⟩
          · exact htail h
      · rcases List.mem_cons.1 h with rfl | h
        · exact .inr ⟨n, List.mem_cons_self, he, rfl⟩
        · exact htail h

theorem mem_literalBody {start : Bool} (h : c ∈ literalBody indent start s) :
    IsPlaced true c ∨ c ∈ s := by
  induction s generalizing start with
  | nil =>
    rw [literalBody] at h
    split at h
    · cases h
    · rw [List.mem_singleton] at h
      exact .inl (.inr ⟨rfl, h⟩)
  | cons d s ih =>
    have htail : ∀ {start}, c ∈ literalBody indent start s → IsPlaced true c ∨ c ∈ d :: s :=
      fun h => (ih h).imp_right (List.mem_cons_of_mem d)
    rw [literalBody] at h
    split at h
    · rcases List.mem_cons.1 h with rfl | h
      · exact .inr List.mem_cons_self
      · exact htail h
    · rw [List.mem_append, List.mem_cons] at h
      rcases h with h | rfl | h
      · split at h
        · exact .inl (isPlaced_spaces h)
        · cases h
      · exact .inr List.mem_cons_self
      · exact htail h

/-! ## Styles -/

/-- The text can be written in the style. -/
def Fits (s : List Char) : Style → Prop
  | .plain => Plain.isText s = true ∧ allowsPlain s = true
  | .single => allowsSingle s = true
  | .double => True
  | .literal => allowsBlock s = true

theorem fits_styleOf (key : Bool) (s : List Char) : Fits s (styleOf key s) := by
  rw [styleOf]
  split
  · split
    · next h => exact (Bool.and_eq_true _ _ ▸ h).2
    · trivial
  · split
    · next h =>
      rw [Bool.and_eq_true, Bool.and_eq_true] at h
      exact h.1
    · split
      · next h => exact (Bool.and_eq_true _ _ ▸ h).1
      · trivial

theorem Fits.not_needsDouble {style : Style} (h : Fits s style) (hstyle : style ≠ .double) :
    needsDouble s = false := by
  cases style with
  | plain =>
    have h := h.2
    rw [allowsPlain, Bool.not_eq_true'] at h
    simp only [Bool.or_eq_false_iff] at h
    exact h.1.2
  | single =>
    have h : allowsSingle s = true := h
    rw [allowsSingle, Bool.not_eq_true', Bool.or_eq_false_iff] at h
    exact h.2
  | double => exact absurd rfl hstyle
  | literal =>
    have h : allowsBlock s = true := h
    rw [allowsBlock, Bool.not_eq_true', Bool.or_eq_false_iff] at h
    exact h.2

theorem not_isSpecial_of_mem (h : needsDouble s = false) (hn : n ∈ codes s) :
    isSpecial n = false := by
  rw [needsDouble, Bool.or_eq_false_iff, List.any_eq_false] at h
  exact Bool.not_eq_true (isSpecial n) ▸ h.2 n hn

theorem printable_blockHints : ∀ c ∈ blockHints s, 0x20 ≤ c.toNat ∧ c.toNat ≤ 0x7E := by
  unfold blockHints
  cases s.head?.any (fun c => c == ' ' || isBreak c) <;> cases s.getLast?.any isBreak <;>
    cases keepsBreaks s <;> decide

/-- Where a written character comes from: it was put there, or it is one of the text. -/
theorem mem_styled {style : Style} {fold : Bool} (hcoded : Text.Coded s) (h : Fits s style)
    (hc : c ∈ styled style fold indent column s) :
    IsPlaced (fold || style == .literal) c ∨
      (∃ n ∈ codes s, isSpecial n = false ∧ c ∈ charsOf n) ∨
      (∃ n ∈ codes s, escape? n = none ∧ c = Char.ofNat n) := by
  have hplain : style ≠ .double → ∀ n ∈ codes s, isSpecial n = false :=
    fun hstyle n hn => not_isSpecial_of_mem (h.not_needsDouble hstyle) hn
  cases style with
  | plain =>
    rw [styled] at hc
    rcases mem_plainBody hc with hplaced | ⟨n, hn, hcn⟩
    · exact .inl (hplaced.or _)
    · exact .inr (.inl ⟨n, hn, hplain (by decide) n hn, hcn⟩)
  | single =>
    rw [styled, List.cons_append, List.mem_cons, List.mem_append, List.mem_singleton] at hc
    rcases hc with rfl | hc | rfl
    · exact .inl (.inl (by decide))
    · rcases mem_singleBody hc with hplaced | ⟨n, hn, hcn⟩
      · exact .inl (hplaced.or _)
      · exact .inr (.inl ⟨n, hn, hplain (by decide) n hn, hcn⟩)
    · exact .inl (.inl (by decide))
  | double =>
    rw [styled, List.cons_append, List.mem_cons, List.mem_append, List.mem_singleton] at hc
    rcases hc with rfl | hc | rfl
    · exact .inl (.inl (by decide))
    · rcases mem_doubleBody hcoded hc with hplaced | ⟨n, hn, he, rfl⟩
      · exact .inl (hplaced.or _)
      · exact .inr (.inr ⟨n, hn, he, rfl⟩)
    · exact .inl (.inl (by decide))
  | literal =>
    have hliteral : (fold || Style.literal == .literal) = true := by
      rw [show (Style.literal == .literal) = true from rfl, Bool.or_true]
    rw [styled, List.cons_append, List.mem_cons, List.mem_append, List.mem_cons] at hc
    rw [hliteral]
    rcases hc with rfl | hc | rfl | hc
    · exact .inl (.inl (by decide))
    · exact .inl (.inl (printable_blockHints c hc))
    · exact .inl (.inr ⟨rfl, rfl⟩)
    · rcases mem_literalBody hc with hplaced | hcs
      · exact .inl hplaced
      · obtain ⟨n, hn, hcn⟩ := exists_code hcs
        exact .inr (.inl ⟨n, hn, hplain (by decide) n hn, hcn⟩)

/-- An allowed character that is no byte order mark. -/
def IsHarmless (c : Char) : Prop := isAllowed c = true ∧ c ≠ byteOrderMark

theorem ne_byteOrderMark (h : c.toNat ≠ 0xFEFF) : c ≠ byteOrderMark := by
  rintro rfl
  exact h rfl

theorem IsPlaced.isHarmless (h : IsPlaced fold c) : IsHarmless c := by
  rcases h with hprint | ⟨-, rfl⟩
  · exact ⟨isAllowed_of_toNat (.inr (.inl hprint)), ne_byteOrderMark (by omega)⟩
  · exact ⟨by decide, by decide⟩

/-- Everything that is written may stand in a document. -/
theorem isHarmless_of_mem_styled {style : Style} (hcoded : Text.Coded s) (h : Fits s style)
    (hc : c ∈ styled style fold indent column s) : IsHarmless c := by
  rcases mem_styled hcoded h hc with hplaced | ⟨n, hn, hspecial, hcn⟩ | ⟨n, hn, he, rfl⟩
  · exact hplaced.isHarmless
  · refine ⟨isAllowed_of_mem_charsOf (hcoded n hn) hspecial hcn, ne_byteOrderMark ?_⟩
    rw [isSpecial_eq_false_iff] at hspecial
    rcases toNat_of_mem_charsOf (hcoded n hn) hcn with hcode | ⟨hhigh, -⟩ <;> omega
  · obtain ⟨-, -, -, hrange⟩ := range_of_escape?_eq_none he
    have hcode := (charsOf_of_escape?_eq_none he).2
    have hmark : n ≠ 0xFEFF := by
      rintro rfl
      exact absurd he (by decide)
    refine ⟨isAllowed_of_toNat ?_, ne_byteOrderMark (by rw [hcode]; exact hmark)⟩
    rw [hcode]
    tauto

theorem not_isBreakCode_of_mem (hcoded : Text.Coded s) (hline : isMultiline s = false)
    (hn : n ∈ codes s) : isBreakCode n = false := by
  rw [isMultiline, List.any_eq_false] at hline
  obtain ⟨d, hd⟩ := List.exists_mem_of_ne_nil _ (charsOf_ne_nil n)
  have hds : d ∈ s := by
    rw [← Text.flatMap_codes s]
    exact List.mem_flatMap.2 ⟨n, hn, hd⟩
  rw [← isBreak_of_mem_charsOf (hcoded n hn) hd]
  exact Bool.not_eq_true (isBreak d) ▸ hline d hds

/-- A text without line breaks is written on one line, unless it is folded. -/
theorem inline_styled {style : Style} (hcoded : Text.Coded s) (h : Fits s style)
    (hstyle : style ≠ .literal) (hline : isMultiline s = false) :
    Inline (styled style false indent column s) := by
  intro c hc
  have hbreaks : ∀ n ∈ codes s, isBreakCode n = false :=
    fun n hn => not_isBreakCode_of_mem hcoded hline hn
  have hnone : (false || style == .literal) = false := by
    rw [Bool.false_or]
    exact beq_eq_false_iff_ne.2 hstyle
  rw [← Bool.not_eq_true, endsLine_iff]
  rcases mem_styled hcoded h hc with
    (hprint | ⟨hfold, -⟩) | ⟨n, hn, hspecial, hcn⟩ | ⟨n, hn, he, rfl⟩
  · rw [isBreakCode_iff]
    omega
  · rw [hnone] at hfold
    cases hfold
  · have hbreak := isBreak_of_mem_charsOf (hcoded n hn) hcn
    rw [hbreaks n hn] at hbreak
    rw [isSpecial_eq_false_iff] at hspecial
    rintro (hreturn | hb)
    · rcases toNat_of_mem_charsOf (hcoded n hn) hcn with hcode | ⟨hhigh, -⟩ <;> omega
    · rw [isBreak, hb] at hbreak
      cases hbreak
  · obtain ⟨-, -, hbreak, hrange⟩ := range_of_escape?_eq_none he
    rw [(charsOf_of_escape?_eq_none he).2, hbreak]
    rintro (hreturn | hb)
    · omega
    · cases hb

end AppPipeline.Yaml
