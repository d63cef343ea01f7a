import Mathlib.Data.List.TakeWhile
import AppPipeline.Number.Decimal
import AppPipeline.Proofs.Text.Separated
import AppPipeline.Proofs.Workflow.Ordinary
import AppPipeline.Text.Half
import AppPipeline.Text.Lines
import AppPipeline.Text.Utf8

/-!
# Whole texts

A text is whole if it holds no half of a pair. Exactly the whole texts can be encoded
(`halfFault?_eq_none_iff`). Texts joined from whole texts are whole, and so are their lines
and what is left of them when they are stripped; numbers, and what bytes are read as, have
whole texts (`whole_generalText`, `whole_ofCodes_decodeLossy`).
-/

namespace AppPipeline.Text

/-! ## Halves among codes -/

theorem isHalfCode_codeOf (c : Char) : isHalfCode (codeOf c) = isHalf c := by
  rw [codeOf]
  split
  · next h =>
    rw [h, isHalfCode_iff, halfShift]
    rw [isHalf_iff] at h
    omega
  · next h =>
    rw [Bool.eq_false_iff.2 h]
    split
    · rfl
    · exact Bool.eq_false_iff.2 (not_isHalfCode_toNat c)

/-- What follows a mark stands for no half, and the mark is none. -/
theorem not_isHalf_of_marked {c d : Char} (h : (c = takenMark && followsMark d) = true) :
    isHalf c = false ∧ isHalf d = false ∧ isHalfCode (d.toNat - takenShift) = false := by
  rw [Bool.and_eq_true, decide_eq_true_eq, followsMark_iff] at h
  obtain ⟨rfl, hlow, hhigh⟩ := h
  have hmark : isHalf takenMark = false := by
    rw [Bool.eq_false_iff, Ne, isHalf_iff, toNat_takenMark]
    omega
  refine ⟨hmark, ?_, ?_⟩
  · rw [Bool.eq_false_iff, Ne, isHalf_iff]
    omega
  · rw [Bool.eq_false_iff, Ne, isHalfCode_iff, takenShift]
    omega

/-- The halves of a text are the characters that stand for them. -/
theorem forall_codes_iff (s : List Char) :
    (∀ n ∈ codes s, isHalfCode n = false) ↔ ∀ c ∈ s, isHalf c = false := by
  fun_induction codes s with
  | case1 => exact iff_of_true (List.forall_mem_nil _) (List.forall_mem_nil _)
  | case2 c => rw [List.forall_mem_singleton, List.forall_mem_singleton, isHalfCode_codeOf]
  | case3 c d rest h ih =>
    obtain ⟨hc, hd, hcode⟩ := not_isHalf_of_marked h
    rw [List.forall_mem_cons, List.forall_mem_cons, List.forall_mem_cons, ih]
    exact ⟨fun hrest => ⟨hc, hd, hrest.2⟩, fun hrest => ⟨hcode, hrest.2.2⟩⟩
  | case4 c d rest h ih =>
    rw [List.forall_mem_cons, List.forall_mem_cons, ih, isHalfCode_codeOf]

theorem firstHalves?_eq_none_iff (ns : List Nat) :
    firstHalves? ns = none ↔ ∀ n ∈ ns, isHalfCode n = false := by
  have hrest : firstHalves? ns = none
      ↔ ns.drop (ns.takeWhile fun n => !isHalfCode n).length = [] := by
    rw [firstHalves?]
    cases ns.drop (ns.takeWhile fun n => !isHalfCode n).length <;> simp
  have hall : (∀ n ∈ ns, isHalfCode n = false) ↔ (ns.takeWhile fun n => !isHalfCode n) = ns := by
    simp [List.takeWhile_eq_self_iff]
  rw [hrest, hall, List.drop_eq_nil_iff]
  exact ⟨(List.takeWhile_prefix _).eq_of_length_le, fun h => by rw [h]⟩

/-! ## Whole texts -/

/-- The text holds no half of a pair. -/
def Whole (s : String) : Prop := ∀ c ∈ s.toList, isHalf c = false

instance (s : String) : Decidable (Whole s) :=
  inferInstanceAs (Decidable (∀ c ∈ s.toList, isHalf c = false))

/-- Exactly the whole texts can be encoded. -/
theorem halfFault?_eq_none_iff (s : String) : halfFault? s = none ↔ Whole s := by
  rw [halfFault?, firstHalves?_eq_none_iff, forall_codes_iff, Whole]

theorem whole_ofList {cs : List Char} (h : ∀ c ∈ cs, isHalf c = false) :
    Whole (String.ofList cs) := by
  rwa [Whole, String.toList_ofList]

theorem Ordinary.whole {s : String} (h : Ordinary s) : Whole s := by
  intro c hc
  have hlow := (h c hc).2
  rw [Bool.eq_false_iff, Ne, isHalf_iff]
  omega

theorem whole_append {s t : String} : Whole (s ++ t) ↔ Whole s ∧ Whole t := by
  rw [Whole, String.toList_append]
  exact List.forall_mem_append

theorem Whole.append {s t : String} (hs : Whole s) (ht : Whole t) : Whole (s ++ t) :=
  whole_append.2 ⟨hs, ht⟩

section

variable {s t : String} (h : Whole s)

include h

/-- A text whose characters are all there is whole. -/
theorem Whole.of_subset (ht : ∀ c ∈ t.toList, c ∈ s.toList) : Whole t := fun c hc => h c (ht c hc)

theorem Whole.strip : Whole (strip s) := h.of_subset fun _ => mem_toList_strip

theorem Whole.stripEnd : Whole (stripEnd s) := by
  refine h.of_subset fun c hc => ?_
  rw [Text.stripEnd, String.toList_ofList, trimEnd, List.mem_reverse] at hc
  exact List.mem_reverse.1 ((List.dropWhile_sublist isBlank).subset hc)

end

/-! ## Numbers -/

theorem isHalf_of_isDigit {c : Char} (h : c.isDigit = true) : isHalf c = false := by
  have := toNat_of_isDigit h
  rw [Bool.eq_false_iff, Ne, isHalf_iff]
  omega

theorem whole_toString_int (n : Int) : Whole (toString n) := by
  intro c hc
  rcases (Yaml.integerText_toString n).chars c hc with hdigit | rfl
  · exact isHalf_of_isDigit hdigit
  · decide

theorem whole_toString_nat (n : Nat) : Whole (toString n) := whole_toString_int (n : Int)

theorem isHalf_of_mem_toDigits (n : Nat) : ∀ c ∈ Nat.toDigits 10 n, isHalf c = false :=
  fun _ hc => isHalf_of_isDigit (isDigit_of_mem_toDigits hc)

theorem isHalf_of_mem_exponentText (e : Int) : ∀ c ∈ exponentText e, isHalf c = false := by
  have hdigits := isHalf_of_mem_toDigits e.natAbs
  refine List.forall_mem_cons.2 ⟨by split <;> decide, ?_⟩
  split
  · exact List.forall_mem_cons.2 ⟨by decide, hdigits⟩
  · exact hdigits

theorem isHalf_of_mem_significant (n : Nat) :
    ∀ c ∈ (if n = 0 then ['0'] else dropTrailingZeros (Nat.toDigits 10 n)), isHalf c = false := by
  split
  · decide
  · intro c hc
    rw [dropTrailingZeros, List.mem_reverse] at hc
    exact isHalf_of_mem_toDigits n c (List.mem_reverse.1 ((List.dropWhile_sublist _).subset hc))

theorem isHalf_of_mem_zeros (n : Nat) : ∀ c ∈ List.replicate n '0', isHalf c = false :=
  fun c hc => by rw [List.eq_of_mem_replicate hc]; decide

theorem isHalf_of_mem_digitText (l : Layout) (d : Decimal) :
    ∀ c ∈ l.digitText d, isHalf c = false := by
  have hzeros := isHalf_of_mem_zeros
  have hdigits := isHalf_of_mem_significant d.digits
  rw [Layout.digitText]
  generalize (if d.digits = 0 then ['0'] else dropTrailingZeros (Nat.toDigits 10 d.digits)) = ds
    at hdigits
  dsimp only
  generalize (if d.digits = 0 then (0 : Int)
    else (Nat.toDigits 10 d.digits).length + d.exponent - 1) = e
  have htake (n : Nat) : ∀ c ∈ ds.take n, isHalf c = false :=
    fun c hc => hdigits c (List.mem_of_mem_take hc)
  have hdrop (n : Nat) : ∀ c ∈ ds.drop n, isHalf c = false :=
    fun c hc => hdigits c (List.mem_of_mem_drop hc)
  have hmark (b : Bool) : ∀ c ∈ (if b then ['.', '0'] else []), isHalf c = false := by
    cases b <;> decide
  split
  · split
    · exact List.forall_mem_append.2 ⟨List.forall_mem_cons.2 ⟨by decide,
        List.forall_mem_cons.2 ⟨by decide, hzeros _⟩⟩, hdigits⟩
    · split
      · exact List.forall_mem_append.2 ⟨List.forall_mem_append.2 ⟨htake _, hzeros _⟩, hmark _⟩
      · exact List.forall_mem_append.2 ⟨List.forall_mem_append.2 ⟨htake _, hzeros _⟩,
          List.forall_mem_cons.2 ⟨by decide, hdrop _⟩⟩
  · refine List.forall_mem_append.2 ⟨List.forall_mem_append.2 ⟨htake _, ?_⟩,
      List.forall_mem_cons.2 ⟨by decide, isHalf_of_mem_exponentText _⟩⟩
    split
    · exact hmark _
    · exact List.forall_mem_cons.2 ⟨by decide, hdrop _⟩

theorem whole_generalText (x : Double) : Whole x.generalText := by
  have hsign (negative : Bool) : Whole (if negative then "-" else "") := by
    cases negative <;> decide
  cases x with
  | nan => decide
  | infinite negative => exact (hsign negative).append (by decide)
  | finite negative m e =>
    exact (hsign negative).append (whole_ofList (isHalf_of_mem_digitText _ _))

/-! ## Lines -/

theorem mem_of_mem_linesFrom {line cs l : List Char} (hl : l ∈ linesFrom line cs) {c : Char}
    (hc : c ∈ l) : c ∈ line ∨ c ∈ cs := by
  have hline {line : List Char} (h : l = line.reverse) : c ∈ line :=
    List.mem_reverse.1 (h ▸ hc)
  fun_induction linesFrom line cs with
  | case1 line => cases hl
  | case2 line => exact .inl (hline (List.mem_singleton.1 hl))
  | case3 line s ih =>
    rcases List.mem_cons.1 hl with h | h
    · exact .inl (hline h)
    · exact .inr (List.mem_cons_of_mem _ (List.mem_cons_of_mem _ ((ih h).resolve_left nofun)))
  | case4 line d s _ _ ih =>
    rcases List.mem_cons.1 hl with h | h
    · exact .inl (hline h)
    · exact .inr (List.mem_cons_of_mem _ ((ih h).resolve_left nofun))
  | case5 line d s _ _ ih =>
    have hmem := ih hl
    rw [List.mem_cons] at hmem ⊢
    exact or_left_comm.1 (or_assoc.1 hmem)

theorem Whole.of_mem_lines {s l : String} (h : Whole s) (hl : l ∈ lines s) : Whole l := by
  obtain ⟨cs, hcs, rfl⟩ := List.mem_map.1 hl
  refine h.of_subset fun c hc => ?_
  rw [String.toList_ofList] at hc
  exact (mem_of_mem_linesFrom hcs hc).resolve_left nofun

/-! ## Codes -/

theorem not_isHalf_of_mem_charsOf {n : Nat} (h : isHalfCode n = false) {c : Char}
    (hc : c ∈ charsOf n) : isHalf c = false := by
  have hmark : isHalf takenMark = false := by
    rw [Bool.eq_false_iff, Ne, isHalf_iff, toNat_takenMark]
    omega
  rw [charsOf, if_neg (Bool.eq_false_iff.1 h)] at hc
  split at hc
  · next htaken =>
    rw [isTaken_iff] at htaken
    have hnext : (Char.ofNat (n + takenShift)).toNat = n + takenShift :=
      toNat_ofNat _ (.inr ⟨by unfold takenShift; omega, by unfold takenShift; omega⟩)
    rcases List.mem_pair.1 hc with h | h
    · rw [h]
      exact hmark
    · rw [h, Bool.eq_false_iff, Ne, isHalf_iff, hnext, takenShift]
      omega
  · next htaken =>
    rw [isTaken_iff] at htaken
    split at hc
    · rw [List.mem_singleton.1 hc]
      exact hmark
    · rw [List.mem_singleton.1 hc, Bool.eq_false_iff, Ne, isHalf_iff]
      by_cases hvalid : n.isValidChar
      · rw [toNat_ofNat n hvalid]
        omega
      · rw [Char.ofNat, dif_neg hvalid]
        decide

theorem whole_ofCodes {ns : List Nat} (h : ∀ n ∈ ns, isHalfCode n = false) :
    Whole (ofCodes ns) := by
  intro c hc
  rw [ofCodes, String.toList_ofList, List.mem_flatMap] at hc
  obtain ⟨n, hn, hcn⟩ := hc
  exact not_isHalf_of_mem_charsOf (h n hn) hcn

/-! ## Bytes -/

/-- A continuation that is not cut off starts with a byte in its range. -/
theorem continuation_succ {n lo hi bits : Nat} {bs : List Nat}
    (h : (continuation (n + 1) lo hi bits bs).2.1 = 0) :
    ∃ b rest, lo ≤ b ∧ b ≤ hi ∧ continuation (n + 1) lo hi bits bs
      = continuation n 0x80 0xBF (bits * 64 + (b - 0x80)) rest := by
  cases bs with
  | nil => cases h
  | cons b rest =>
    rw [continuation] at h ⊢
    split at h
    · next hb =>
      rw [Bool.and_eq_true, decide_eq_true_eq, decide_eq_true_eq] at hb
      exact ⟨b, rest, hb.1, hb.2, if_pos (by simpa using hb)⟩
    · cases h

theorem continuation_zero (lo hi bits : Nat) (bs : List Nat) :
    (continuation 0 lo hi bits bs).1 = bits := by
  cases bs <;> rfl

/-- No bytes of a code make a half. -/
theorem not_isHalfCode_of_leadByte {b more lo hi bits : Nat} {bs : List Nat}
    (hlead : leadByte b = some (more, lo, hi, bits))
    (h : (continuation more lo hi bits bs).2.1 = 0) :
    isHalfCode (continuation more lo hi bits bs).1 = false := by
  rw [Bool.eq_false_iff, Ne, isHalfCode_iff]
  -- halves are just above what the one lead byte with a smaller range leads to
  have hcases : (more = 0 ∧ bits < 0x80) ∨ (more = 1 ∧ bits < 0x20 ∧ hi ≤ 0xBF)
      ∨ (more = 2 ∧ hi ≤ 0xBF ∧ (bits = 0xD → hi ≤ 0x9F))
      ∨ (more = 3 ∧ (0x90 ≤ lo ∨ 0 < bits)) := by
    rcases Nat.lt_or_ge b 0xF0 with hb | hb <;> grind [leadByte]
  rcases hcases with ⟨rfl, hbits⟩ | ⟨rfl, hbits, hhi⟩ | ⟨rfl, hhi, hbits⟩ | ⟨rfl, hbits⟩
  · rw [continuation_zero]
    omega
  · obtain ⟨x, _, hx, hx', he⟩ := continuation_succ h
    rw [he, continuation_zero]
    omega
  · obtain ⟨x, _, hx, hx', he⟩ := continuation_succ h
    rw [he] at h ⊢
    obtain ⟨y, _, hy, hy', he⟩ := continuation_succ h
    rw [he, continuation_zero]
    omega
  · obtain ⟨x, _, hx, hx', he⟩ := continuation_succ h
    rw [he] at h ⊢
    obtain ⟨y, _, hy, hy', he⟩ := continuation_succ h
    rw [he] at h ⊢
    obtain ⟨z, _, hz, hz', he⟩ := continuation_succ h
    rw [he, continuation_zero]
    omega

/-- Bytes are never read as halves. -/
theorem whole_ofCodes_decodeLossy (bs : List Nat) : Whole (ofCodes (decodeLossy bs)) := by
  refine whole_ofCodes fun n hn => ?_
  fun_induction decodeLossy bs with
  | case1 => cases hn
  | case2 b rest hlead ih =>
    rcases List.mem_cons.1 hn with rfl | hn
    · rfl
    · exact ih hn
  | case3 b rest more lo hi bits hlead read ih =>
    rcases List.mem_cons.1 hn with rfl | hn
    · split
      · next hread => exact not_isHalfCode_of_leadByte hlead hread
      · rfl
    · exact ih hn

end AppPipeline.Text
