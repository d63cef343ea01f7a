import Mathlib.Tactic.Tauto
import AppPipeline.Proofs.Yaml.Place

/-!
# Characters of codes

A code that needs no double quotes has characters that a text may hold
(`isAllowed_of_mem_charsOf`); unless it is a space or a line break, they are no blanks
and end no line (`isInk_of_mem_charsOf`). `Coded` says of a text that every character
of it belongs to a code.
-/

namespace AppPipeline

theorem Text.eq_iff_toNat {c d : Char} : c = d ↔ c.toNat = d.toNat :=
  ⟨congrArg Char.toNat, fun h => Char.ext (UInt32.toNat_inj.1 h)⟩

/-- Every character of the text belongs to the code of a character or of a half. -/
def Text.Coded (s : List Char) : Prop := ∀ n ∈ Text.codes s, n < 0x110000

instance (s : List Char) : Decidable (Text.Coded s) :=
  inferInstanceAs (Decidable (∀ n ∈ Text.codes s, n < 0x110000))

namespace Yaml

open Text (charsOf codes)

/-! ## Classes of characters -/

/-- The character is no blank and ends no line. -/
def isInk (c : Char) : Bool := !isTabOrSpace c && !endsLine c

theorem isTabOrSpace_iff (c : Char) : isTabOrSpace c = true ↔ c.toNat = 0x20 ∨ c.toNat = 9 := by
  rw [isTabOrSpace, Bool.or_eq_true, beq_iff_eq, beq_iff_eq, Text.eq_iff_toNat, Text.eq_iff_toNat]
  rfl

theorem isBreakCode_iff (n : Nat) :
    isBreakCode n = true ↔ n = 0x0A ∨ n = 0x85 ∨ n = 0x2028 ∨ n = 0x2029 := by
  simp only [isBreakCode, Bool.or_eq_true, beq_iff_eq, or_assoc]

theorem endsLine_iff (c : Char) :
    endsLine c = true ↔ c.toNat = 0x0D ∨ isBreakCode c.toNat = true := by
  rw [endsLine, Bool.or_eq_true, beq_iff_eq, Text.eq_iff_toNat]
  rfl

theorem isInk_iff (c : Char) : isInk c = true ↔
    c.toNat ≠ 0x20 ∧ c.toNat ≠ 9 ∧ c.toNat ≠ 0x0D ∧ isBreakCode c.toNat = false := by
  rw [isInk, Bool.and_eq_true, Bool.not_eq_true', Bool.not_eq_true', ← Bool.not_eq_true,
    ← Bool.not_eq_true, isTabOrSpace_iff, endsLine_iff, ← Bool.not_eq_true]
  tauto

theorem isSpecial_eq_false_iff (n : Nat) : isSpecial n = false ↔
    n = 0x0A ∨ (0x20 ≤ n ∧ n ≤ 0x7E) ∨
      ((n = 0x85 ∨ (0xA0 ≤ n ∧ n ≤ 0xD7FF) ∨ (0xE000 ≤ n ∧ n ≤ 0xFFFD) ∨
        (0x10000 ≤ n ∧ n < 0x10FFFF)) ∧ n ≠ 0xFEFF) := by
  simp only [isSpecial, Bool.not_eq_false', Bool.or_eq_true, Bool.and_eq_true, beq_iff_eq,
    decide_eq_true_eq, bne_iff_ne, or_assoc]

/-! ## Characters of one code -/

theorem charsOf_low {n : Nat} (hn : n < 0x10D800) (hhalf : ¬ Text.isHalfCode n = true) :
    charsOf n = [Char.ofNat n] ∧ (Char.ofNat n).toNat = n := by
  rw [Text.isHalfCode_iff] at hhalf
  have htaken : ¬ Text.isTaken n = true := by
    rw [Text.isTaken_iff]
    omega
  have hvalid : n.isValidChar := by
    by_cases hlow : n < 0xD800
    · exact .inl hlow
    · exact .inr ⟨by omega, by omega⟩
  refine ⟨?_, Text.toNat_ofNat n hvalid⟩
  rw [charsOf, if_neg (by rwa [Text.isHalfCode_iff]), if_neg htaken,
    if_neg (by unfold Text.bareMark; omega)]

/-- The characters for a code are its own one or lie above those of most codes. -/
theorem toNat_of_mem_charsOf {n : Nat} {c : Char} (hn : n < 0x110000) (hc : c ∈ charsOf n) :
    c.toNat = n ∨ (0x10D800 ≤ c.toNat ∧ (0x10D800 ≤ n ∨ Text.isHalfCode n = true)) := by
  by_cases hhalf : Text.isHalfCode n = true
  · have hrange := (Text.isHalfCode_iff n).1 hhalf
    rw [charsOf, if_pos hhalf, List.mem_singleton] at hc
    rw [hc, Text.halfShift, Text.toNat_ofNat (n + 0x100000) (.inr ⟨by omega, by omega⟩)]
    exact .inr ⟨by omega, .inr hhalf⟩
  · by_cases hlow : n < 0x10D800
    · obtain ⟨hchars, hcode⟩ := charsOf_low hlow hhalf
      rw [hchars, List.mem_singleton] at hc
      rw [hc]
      exact .inl hcode
    · rw [charsOf, if_neg hhalf] at hc
      split at hc
      · next ht =>
        rw [Text.isTaken_iff] at ht
        rw [List.mem_cons, List.mem_singleton] at hc
        rcases hc with rfl | hc
        · have hmark := Text.toNat_takenMark
          exact .inr ⟨by omega, .inl (by omega)⟩
        · rw [hc, Text.takenShift, Text.toNat_ofNat (n + 0x801) (.inr ⟨by omega, by omega⟩)]
          exact .inr ⟨by omega, .inl (by omega)⟩
      · rw [if_neg (by unfold Text.bareMark; omega), List.mem_singleton] at hc
        rw [hc, Text.toNat_ofNat n (.inr ⟨by omega, by omega⟩)]
        exact .inl rfl

theorem isInk_of_mem_charsOf {n : Nat} {c : Char} (hn : n < 0x110000)
    (hspecial : isSpecial n = false) (hspace : n ≠ spaceCode) (hbreak : isBreakCode n = false)
    (hc : c ∈ charsOf n) : isInk c = true := by
  rw [isInk_iff]
  rcases toNat_of_mem_charsOf hn hc with he | ⟨hhigh, _⟩
  · rw [isSpecial_eq_false_iff] at hspecial
    rw [he]
    unfold spaceCode at hspace
    have h := hbreak
    rw [← Bool.not_eq_true, isBreakCode_iff] at h
    exact ⟨hspace, by omega, by omega, hbreak⟩
  · refine ⟨by omega, by omega, by omega, ?_⟩
    rw [← Bool.not_eq_true, isBreakCode_iff]
    omega

theorem isAllowed_of_toNat {c : Char} (h : c.toNat = 0x0A ∨ (0x20 ≤ c.toNat ∧ c.toNat ≤ 0x7E)
    ∨ c.toNat = 0x85 ∨ (0xA0 ≤ c.toNat ∧ c.toNat ≤ 0xD7FF)
    ∨ (0xE000 ≤ c.toNat ∧ c.toNat ≤ 0xFFFD)
    ∨ (0x10000 ≤ c.toNat ∧ Text.isHalf c = false)) : isAllowed c = true := by
  have hfeed : (c == '\n') = decide (c.toNat = 0x0A) := by
    rw [Bool.eq_iff_iff, beq_iff_eq, decide_eq_true_eq, Text.eq_iff_toNat]
    rfl
  simp only [isAllowed, hfeed, Bool.or_eq_true, Bool.and_eq_true, decide_eq_true_eq, beq_iff_eq,
    Bool.not_eq_true']
  tauto

/-- Codes without need of double quotes stand for characters that a text may hold. -/
theorem isAllowed_of_mem_charsOf {n : Nat} {c : Char} (hn : n < 0x110000)
    (hspecial : isSpecial n = false) (hc : c ∈ charsOf n) : isAllowed c = true := by
  rw [isSpecial_eq_false_iff] at hspecial
  have hhalf : ¬ Text.isHalfCode n = true := by
    rw [Text.isHalfCode_iff]
    omega
  apply isAllowed_of_toNat
  by_cases hlow : n < 0x10D800
  · have hcode : c.toNat = n := by
      rcases toNat_of_mem_charsOf hn hc with h | ⟨_, h | h⟩
      · exact h
      · omega
      · exact absurd h hhalf
    have hnot : 0x10000 ≤ c.toNat → Text.isHalf c = false := by
      intro _
      rw [← Bool.not_eq_true, Text.isHalf_iff]
      omega
    rw [← hcode] at hspecial
    tauto
  · -- above the halves there are marks, what follows them and characters of their own
    have hchar : 0x10DFFF < c.toNat := by
      rw [charsOf, if_neg hhalf] at hc
      split at hc
      · next ht =>
        rw [Text.isTaken_iff] at ht
        rw [List.mem_cons, List.mem_singleton] at hc
        rcases hc with rfl | hc
        · have hmark := Text.toNat_takenMark
          omega
        · rw [hc, Text.takenShift, Text.toNat_ofNat (n + 0x801) (.inr ⟨by omega, by omega⟩)]
          omega
      · next ht =>
        rw [Text.isTaken_iff] at ht
        rw [if_neg (by unfold Text.bareMark; omega), List.mem_singleton] at hc
        rw [hc, Text.toNat_ofNat n (.inr ⟨by omega, by omega⟩)]
        omega
    have hnot : Text.isHalf c = false := by
      rw [← Bool.not_eq_true, Text.isHalf_iff]
      omega
    exact .inr (.inr (.inr (.inr (.inr ⟨by omega, hnot⟩))))

/-! ## Breaks and spaces -/

theorem charsOf_space : charsOf spaceCode = [' '] := by decide

theorem charsOf_break {n : Nat} (h : isBreakCode n = true) :
    charsOf n = [Char.ofNat n] ∧ isBreak (Char.ofNat n) = true := by
  rw [isBreakCode_iff] at h
  rcases h with rfl | rfl | rfl | rfl <;> decide

theorem isBreak_of_mem_charsOf {n : Nat} {c : Char} (hn : n < 0x110000) (hc : c ∈ charsOf n) :
    isBreak c = isBreakCode n := by
  cases hbreak : isBreakCode n
  · rw [isBreak, ← Bool.not_eq_true, isBreakCode_iff]
    rw [← Bool.not_eq_true, isBreakCode_iff] at hbreak
    rcases toNat_of_mem_charsOf hn hc with h | ⟨h, _⟩
    · rwa [h]
    · omega
  · obtain ⟨hchars, hb⟩ := charsOf_break hbreak
    rw [hchars, List.mem_singleton] at hc
    rw [hc, hb]

end Yaml

end AppPipeline
