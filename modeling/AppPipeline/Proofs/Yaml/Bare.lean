import Mathlib.Data.List.TakeDrop
import AppPipeline.Proofs.Yaml.Plain
import AppPipeline.Yaml.Typed
import AppPipeline.Yaml.Writer

/-!
# Scalars that are no texts

Null, truth values and integers are written as single plain words (`wordy_plainScalar`),
whose kinds and values are those that were written (`scalarValue_plainScalar`).
-/

namespace AppPipeline

/-! ## Decimal digits -/

theorem toNat_of_isDigit {c : Char} (h : c.isDigit = true) : 48 ≤ c.toNat ∧ c.toNat ≤ 57 := by
  simp only [Char.isDigit, Bool.and_eq_true, decide_eq_true_eq] at h
  exact ⟨UInt32.le_iff_toNat_le.1 h.1, UInt32.le_iff_toNat_le.1 h.2⟩

theorem isDigit_of_mem_toDigits {n : Nat} {c : Char} (h : c ∈ Nat.toDigits 10 n) :
    c.isDigit = true :=
  Nat.isDigit_of_mem_toDigits (by decide) (by decide) h

/-- Only zero is written with a leading zero. -/
theorem head_toDigits_ne_zero {n : Nat} (hn : 0 < n) : (Nat.toDigits 10 n).head? ≠ some '0' := by
  induction n using Nat.strong_induction_on with
  | _ n ih =>
    by_cases hlt : n < 10
    · rw [Nat.toDigits_of_lt_base hlt, List.head?_cons, Ne, Option.some.injEq,
        Nat.digitChar_eq_zero]
      omega
    · rw [Nat.toDigits_of_base_le (by decide) (by omega),
        List.head?_append_of_ne_nil _ Nat.toDigits_ne_nil]
      exact ih (n / 10) (by omega) (by omega)

theorem length_toDigits_le {n k : Nat} (hk : 0 < k) (hn : n < Nat.pow 10 k) :
    (Nat.toDigits 10 n).length ≤ k :=
  (Nat.length_toDigits_le_iff (by decide) hk).2 hn

namespace Literal

theorem digit?_of_isDigit {c : Char} (h : c.isDigit = true) :
    digit? 10 c = some (c.toNat - 48) := by
  have hrange := toNat_of_isDigit h
  rw [digit?, Text.hexValue?, if_pos h, Option.filter_some, if_pos]
  rw [decide_eq_true_eq]
  omega

theorem digitRun_of_isDigit {ds : List Char} (h : ∀ c ∈ ds, c.isDigit = true) (after : Bool) :
    digitRun 10 after ds = (ds.map fun c => c.toNat - 48, []) := by
  induction ds generalizing after with
  | nil => rfl
  | cons c ds ih =>
    rw [digitRun, digit?_of_isDigit (h c List.mem_cons_self)]
    simp only [ih fun d hd => h d (List.mem_cons_of_mem c hd), List.map_cons]

theorem valueOf_map_digits (ds : List Char) :
    valueOf 10 (ds.map fun c => c.toNat - 48) = Nat.ofDigitChars 10 ds 0 := by
  rw [valueOf, List.foldl_map, Nat.ofDigitChars]
  congr 1
  funext n c
  rw [Nat.mul_comm]
  rfl

theorem dropWhile_digits {ds : List Char} (h : ∀ c ∈ ds, c.isDigit = true) :
    ds.dropWhile isAsciiBlank = ds := by
  cases ds with
  | nil => rfl
  | cons c ds =>
    have hrange := toNat_of_isDigit (h c List.mem_cons_self)
    have hblank : isAsciiBlank c = false := by
      have hspace : (c == ' ') = false := by
        rw [beq_eq_false_iff_ne]
        rintro rfl
        exact absurd hrange.1 (by decide)
      rw [isAsciiBlank, hspace, Bool.or_false, Bool.and_eq_false_iff, decide_eq_false_iff_not,
        decide_eq_false_iff_not]
      omega
    rw [List.dropWhile_cons, hblank]
    rfl

theorem plain_digits {ds : List Char} (h : ∀ c ∈ ds, c.isDigit = true) : plain ds = ds := by
  have hmap : ds.map plainChar = ds := by
    rw [List.map_congr_left (g := id), List.map_id]
    intro c hc
    have hrange := toNat_of_isDigit (h c hc)
    rw [plainChar, if_pos (by omega)]
    rfl
  have hreverse : ∀ c ∈ ds.reverse, c.isDigit = true := fun c hc => h c (List.mem_reverse.1 hc)
  rw [plain, hmap, dropWhile_digits h, dropWhile_digits hreverse, List.reverse_reverse]

theorem leadingSign_digits {ds : List Char} (h : ∀ c ∈ ds, c.isDigit = true) :
    leadingSign ds = (false, ds) := by
  unfold leadingSign
  split
  · exact absurd (h '-' List.mem_cons_self) (by decide)
  · exact absurd (h '+' List.mem_cons_self) (by decide)
  · rfl

/-- The digits of a number are read as the number. -/
theorem integer_toDigits {n : Nat} (hn : n < Nat.pow 10 digitLimit) :
    integer 10 (Nat.toDigits 10 n) = .ok (n : Int) := by
  have hdigits : ∀ c ∈ Nat.toDigits 10 n, c.isDigit = true := fun c hc => isDigit_of_mem_toDigits hc
  have hmark : withoutMark 10 (Nat.toDigits 10 n) = Nat.toDigits 10 n := by
    unfold withoutMark
    split
    · next h =>
      rw [h]
      exact if_neg (by simp [baseMark?])
    · rfl
  have hlength : (Nat.toDigits 10 n).length ≤ digitLimit := length_toDigits_le (by decide) hn
  rw [integer, plain_digits hdigits, leadingSign_digits hdigits]
  simp only [hmark, digitRun_of_isDigit hdigits, valueOf_map_digits, Nat.ofDigitChars_ten_toDigits]
  rw [if_neg (by rw [List.length_map]; omega), if_neg (by simp)]
  rfl

end Literal

namespace Yaml

/-! ## Kinds -/

theorem Plain.isDigit_of_isDigit {c : Char} (h : c.isDigit = true) : Plain.isDigit c = true := by
  obtain ⟨hlow, hhigh⟩ := toNat_of_isDigit h
  rw [Plain.isDigit, Bool.and_eq_true, decide_eq_true_eq, decide_eq_true_eq]
  exact ⟨UInt32.le_iff_toNat_le.2 hlow, UInt32.le_iff_toNat_le.2 hhigh⟩

/-- A text without a point is no decimal number. -/
theorem Plain.isDecimal_eq_false {s : List Char} (h : '.' ∉ s) : Plain.isDecimal s = false := by
  have hunsigned : '.' ∉ Plain.unsigned s := by
    unfold Plain.unsigned
    split
    · exact fun hc => h (List.mem_cons_of_mem _ hc)
    · exact fun hc => h (List.mem_cons_of_mem _ hc)
    · exact h
  have hspan : (Plain.unsigned s).span (· != '.') = (Plain.unsigned s, []) := by
    have hall : ∀ c ∈ Plain.unsigned s, (c != '.') = true := by
      intro c hc
      rw [bne_iff_ne]
      rintro rfl
      exact hunsigned hc
    rw [List.span_eq_takeWhile_dropWhile, List.takeWhile_eq_self_iff.2 hall,
      List.dropWhile_eq_nil_iff.2 hall]
  have hbare : Plain.isBarePoint s = false := by
    unfold Plain.isBarePoint
    split
    · exact absurd List.mem_cons_self h
    · rfl
  have hwords : ∀ words : List (List Char), (∀ w ∈ words, '.' ∈ w) →
      ∀ t : List Char, '.' ∉ t → words.contains t = false := by
    intro words hwords t ht
    rw [← Bool.not_eq_true, List.contains_iff_mem]
    exact fun hmem => ht (hwords t hmem)
  rw [Plain.isDecimal, Plain.isPointed, Plain.isPointedSexagesimal, hspan, hbare,
    hwords Plain.infinityWords (by decide) _ hunsigned,
    hwords Plain.notNumberWords (by decide) _ h]
  rfl

theorem Plain.isUnsignedInteger_toDigits (n : Nat) :
    Plain.isUnsignedInteger (Nat.toDigits 10 n) = true := by
  rcases Nat.eq_zero_or_pos n with rfl | hn
  · rfl
  · have hhead := head_toDigits_ne_zero hn
    have hdigits : ∀ c ∈ Nat.toDigits 10 n, c.isDigit = true :=
      fun c hc => isDigit_of_mem_toDigits hc
    obtain ⟨c, ds, hcs⟩ := List.exists_cons_of_ne_nil (Nat.toDigits_ne_nil (n := n) (b := 10))
    rw [hcs] at hhead hdigits ⊢
    have hzero : c ≠ '0' := fun he => hhead (by rw [he]; rfl)
    have hheaded : Plain.isHeaded Plain.isNonZero Plain.isDigit (c :: ds) = true := by
      rw [Plain.isHeaded, Bool.and_eq_true, List.all_eq_true]
      refine ⟨?_, fun d hd => ?_⟩
      · obtain ⟨hlow, hhigh⟩ := toNat_of_isDigit (hdigits c List.mem_cons_self)
        have hne : c.toNat ≠ 48 := fun he => hzero (Text.eq_iff_toNat.2 he)
        rw [Plain.isNonZero, Bool.and_eq_true, decide_eq_true_eq, decide_eq_true_eq]
        refine ⟨UInt32.le_iff_toNat_le.2 (?_ : 49 ≤ c.toNat), UInt32.le_iff_toNat_le.2 hhigh⟩
        omega
      · rw [Plain.isSpaced, Plain.isDigit_of_isDigit (hdigits d (List.mem_cons_of_mem c hd))]
        rfl
    unfold Plain.isUnsignedInteger
    split
    · rfl
    · next h => exact absurd (List.cons.inj h).1 hzero
    · next h => exact absurd (List.cons.inj h).1 hzero
    · next h => exact absurd (List.cons.inj h).1 hzero
    · rw [hheaded]
      rfl

/-- A sign or none, then the digits of a number. -/
inductive IntegerText : Int → List Char → Prop
  | natural (n : Nat) : IntegerText n (Nat.toDigits 10 n)
  | negative (n : Nat) : IntegerText (-n) ('-' :: Nat.toDigits 10 n)

theorem integerText_toString (n : Int) : IntegerText n (toString n).toList := by
  cases n with
  | ofNat n =>
    have h : (toString (Int.ofNat n)).toList = Nat.toDigits 10 n := Nat.toList_repr
    rw [h]
    exact .natural n
  | negSucc n =>
    have h : (toString (Int.negSucc n)).toList = '-' :: Nat.toDigits 10 (n + 1) := by
      show ("-" ++ Nat.repr (n + 1)).toList = _
      rw [String.toList_append, Nat.toList_repr]
      rfl
    rw [h]
    exact .negative (n + 1)

variable {n : Int} {s : List Char}

theorem IntegerText.chars (h : IntegerText n s) : ∀ c ∈ s, c.isDigit = true ∨ c = '-' := by
  cases h with
  | natural n => exact fun c hc => .inl (isDigit_of_mem_toDigits hc)
  | negative n =>
    rintro c (_ | ⟨_, hc⟩)
    · exact .inr rfl
    · exact .inl (isDigit_of_mem_toDigits hc)

theorem IntegerText.not_mem (h : IntegerText n s) {c : Char} (hdigit : c.isDigit = false)
    (hdash : c ≠ '-') : c ∉ s := by
  intro hc
  rcases h.chars c hc with hd | he
  · rw [hdigit] at hd
    cases hd
  · exact hdash he

theorem IntegerText.ne_nil (h : IntegerText n s) : s ≠ [] := by
  cases h with
  | natural n => exact Nat.toDigits_ne_nil
  | negative n => exact List.cons_ne_nil _ _

theorem IntegerText.unsigned (h : IntegerText n s) :
    ∃ m, Plain.unsigned s = Nat.toDigits 10 m := by
  cases h with
  | natural n =>
    refine ⟨n, ?_⟩
    have hdigits : ∀ c ∈ Nat.toDigits 10 n, c.isDigit = true :=
      fun c hc => isDigit_of_mem_toDigits hc
    unfold Plain.unsigned
    split
    · next h => exact absurd (hdigits '-' (by rw [h]; exact List.mem_cons_self)) (by decide)
    · next h => exact absurd (hdigits '+' (by rw [h]; exact List.mem_cons_self)) (by decide)
    · rfl
  | negative n => exact ⟨n, rfl⟩

/-- What an integer is written as denotes an integer. -/
theorem IntegerText.kind (h : IntegerText n s) : Plain.kind s = .integer := by
  have hbreak : Plain.withoutBreak s = s := by
    rw [Plain.withoutBreak, if_neg]
    rintro ⟨hlast, -⟩
    exact h.not_mem (by decide) (by decide) (List.mem_of_getLast? hlast)
  have htruth : Plain.truthWords.contains s = false := by
    have hwords : ∀ w ∈ Plain.truthWords, ∀ c ∈ w, c.isDigit = false ∧ c ≠ '-' := by decide
    rw [← Bool.not_eq_true, List.contains_iff_mem]
    intro hmem
    obtain ⟨c, t, rfl⟩ := List.exists_cons_of_ne_nil h.ne_nil
    obtain ⟨hdigit, hdash⟩ := hwords _ hmem c List.mem_cons_self
    exact h.not_mem hdigit hdash List.mem_cons_self
  obtain ⟨m, hm⟩ := h.unsigned
  have hinteger : Plain.isInteger s = true := by
    rw [Plain.isInteger, hm, Plain.isUnsignedInteger_toDigits]
  rw [Plain.kind, hbreak, Plain.formKind, htruth,
    Plain.isDecimal_eq_false (h.not_mem (by decide) (by decide)), hinteger]
  rfl

/-! ## Values -/

theorem integerValue_digits {m : Nat} (hm : m < Nat.pow 10 Literal.digitLimit) (negative : Bool)
    (h : signedText s = .ok (negative, Nat.toDigits 10 m)) :
    integerValue s = .ok (Literal.signed negative m) := by
  have hdigits : ∀ c ∈ Nat.toDigits 10 m, c.isDigit = true := fun c hc => isDigit_of_mem_toDigits hc
  have hcolon : (Nat.toDigits 10 m).contains ':' = false := by
    rw [← Bool.not_eq_true, List.contains_iff_mem]
    exact fun hc => absurd (hdigits ':' hc) (by decide)
  have hvalue : radixValue 10 (Nat.toDigits 10 m) = .ok (m : Int) := by
    rw [radixValue, Literal.integer_toDigits hm]
    rfl
  rw [integerValue, h]
  rcases Nat.eq_zero_or_pos m with rfl | hpos
  · rfl
  · have hhead := head_toDigits_ne_zero hpos
    obtain ⟨c, ds, hcs⟩ := List.exists_cons_of_ne_nil (Nat.toDigits_ne_nil (n := m) (b := 10))
    rw [hcs] at hhead hcolon hvalue ⊢
    have hzero : c ≠ '0' := fun he => hhead (by rw [he]; rfl)
    dsimp only [bind, Except.bind]
    split
    · next h => exact absurd h (List.cons_ne_nil c ds)
    · next h => exact absurd (List.cons.inj h).1 hzero
    · next h => exact absurd (List.cons.inj h).1 hzero
    · next h => exact absurd (List.cons.inj h).1 hzero
    · next h => exact absurd (List.cons.inj h).1 hzero
    · rw [hcolon, if_neg Bool.false_ne_true, hvalue]
      rfl

theorem IntegerText.value (h : IntegerText n s) (hn : Literal.isWritable n = true) :
    integerValue s = .ok n := by
  have hunderscore : s.filter (· != '_') = s := by
    rw [List.filter_eq_self]
    intro c hc
    rw [bne_iff_ne]
    rintro rfl
    exact h.not_mem (by decide) (by decide) hc
  rw [Literal.isWritable, decide_eq_true_eq] at hn
  cases h with
  | natural m =>
    have hsigned : signedText (Nat.toDigits 10 m) = .ok (false, Nat.toDigits 10 m) := by
      have hdigits : ∀ c ∈ Nat.toDigits 10 m, c.isDigit = true :=
        fun c hc => isDigit_of_mem_toDigits hc
      rw [signedText, hunderscore]
      split
      · next h => exact absurd h Nat.toDigits_ne_nil
      · next h => exact absurd (hdigits '-' (by rw [h]; exact List.mem_cons_self)) (by decide)
      · next h => exact absurd (hdigits '+' (by rw [h]; exact List.mem_cons_self)) (by decide)
      · rfl
    rw [Int.natAbs_natCast] at hn
    exact integerValue_digits hn false hsigned
  | negative m =>
    have hsigned : signedText ('-' :: Nat.toDigits 10 m) = .ok (true, Nat.toDigits 10 m) := by
      rw [signedText, hunderscore]
      rfl
    rw [Int.natAbs_neg, Int.natAbs_natCast] at hn
    exact integerValue_digits hn true hsigned

/-! ## Words -/

/-- One word without colons and hashes. -/
theorem wordy_of_word {s : List Char} (hne : s ≠ [])
    (h : ∀ c ∈ s, isSeparator c = false ∧ c ≠ ':' ∧ c ≠ '#') : Wordy s := by
  have hspace : ∀ c ∈ s, c ≠ ' ' := by
    rintro c hc rfl
    exact absurd (h ' ' hc).1 (by decide)
  have hinner : ∀ (t : List Char) (c : Char), (∀ d ∈ t, d ≠ ':' ∧ d ≠ '#') →
      hasInnerIndicator (c :: t) = false := by
    intro t
    induction t with
    | nil => exact fun _ _ => rfl
    | cons d t ih =>
      intro c ht
      obtain ⟨hcolon, hhash⟩ := ht d List.mem_cons_self
      rw [hasInnerIndicator, ih d fun e he => ht e (List.mem_cons_of_mem d he),
        beq_eq_false_iff_ne.2 hcolon, beq_eq_false_iff_ne.2 hhash]
      rfl
  exact ⟨hne, fun hhead => hspace ' ' (List.mem_of_mem_head? hhead) rfl,
    fun hlast => hspace ' ' (List.mem_of_getLast? hlast) rfl,
    fun c hc hsep => absurd hsep (by rw [(h c hc).1]; exact Bool.false_ne_true),
    hinner s ' ' fun c hc => (h c hc).2⟩

theorem not_isSeparator_of_range {c : Char} (hlow : 0x20 < c.toNat) (hhigh : c.toNat < 0x85) :
    isSeparator c = false := by
  have htab : ('\t' : Char).toNat = 9 := rfl
  have hreturn : ('\r' : Char).toNat = 13 := rfl
  have hspace : (' ' : Char).toNat = 32 := rfl
  rw [← Bool.not_eq_true]
  simp only [isSeparator, isBreak, Bool.or_eq_true, beq_iff_eq, Text.eq_iff_toNat, isBreakCode_iff]
  omega

theorem IntegerText.wordy (h : IntegerText n s) : Wordy s := by
  refine wordy_of_word h.ne_nil fun c hc => ?_
  have hdash : isSeparator '-' = false ∧ '-' ≠ ':' ∧ '-' ≠ '#' := by decide
  rcases h.chars c hc with hdigit | rfl
  · obtain ⟨hlow, hhigh⟩ := toNat_of_isDigit hdigit
    refine ⟨not_isSeparator_of_range (by omega) (by omega), ?_, ?_⟩
    · rintro rfl
      exact absurd hdigit (by decide)
    · rintro rfl
      exact absurd hdigit (by decide)
  · exact hdash

/-- Values that are written as one word without quotes. -/
def IsBare : Json → Prop
  | .null => True
  | .bool _ => True
  | .int n => Literal.isWritable n = true
  | _ => False

theorem wordy_plainScalar {j : Json} (h : IsBare j) : Wordy (plainScalar j) := by
  match j with
  | .null => exact wordy_of_word (by decide) (by decide)
  | .bool true => exact wordy_of_word (by decide) (by decide)
  | .bool false => exact wordy_of_word (by decide) (by decide)
  | .int n => exact (integerText_toString n).wordy

/-- A word without quotes denotes what it was written for. -/
theorem scalarValue_plainScalar {j : Json} (h : IsBare j) :
    scalarValue (Tag.ofKind (Plain.kind (plainScalar j))) (plainScalar j)
      = .ok (Value.ofJson j) := by
  match j with
  | .null => rfl
  | .bool true => rfl
  | .bool false => rfl
  | .int n =>
    rw [show plainScalar (.int n) = (toString n).toList from rfl, (integerText_toString n).kind]
    show (integerValue (toString n).toList).map Value.int = _
    rw [(integerText_toString n).value h]
    rfl

end Yaml

end AppPipeline
