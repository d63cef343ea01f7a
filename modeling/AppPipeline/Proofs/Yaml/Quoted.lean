import Mathlib.Algebra.Group.Nat.Defs
import AppPipeline.Proofs.Yaml.Characters
import AppPipeline.Yaml.Folding

/-!
# Quoted texts

`Quoted` says what the text between quotes is read as, piece by piece; the reader
agrees with it (`quotedTail_of_quoted`). Between single quotes a text comes back with
its line breaks folded (`quoted_singleBody`), between double quotes unchanged
(`quoted_doubleBody`).
-/

namespace AppPipeline

/-! ## Hexadecimal digits -/

theorem Text.hexValue?_upper {d : Nat} (h : d < 16) :
    Text.hexValue? (Nat.digitChar d).toUpper = some d := by
  revert d
  decide

namespace Yaml

open Text (charsOf codes)

theorem length_upperHex (width n : Nat) : (upperHex width n).length = width := by
  rw [upperHex, List.length_map, Text.length_hexDigits]

theorem hexNumber?_upperHex (width n : Nat) (h : n < 16 ^ width) :
    Text.hexNumber? 0 (upperHex width n) = some n :=
  Text.hexNumber?_map_hexDigits (fun _ hd => Text.hexValue?_upper hd) width n h

/-! ## What is read between quotes -/

def quoteMark (double : Bool) : Char := if double then '"' else '\''

/-- The text begins with no blank and no line end. -/
def StartsInk (w : List Char) : Prop := ∀ c ∈ w.head?, isInk c = true

/-- No line ends right behind the blanks that the text begins with. -/
def Unbroken (w : List Char) : Prop := (w.dropWhile isTabOrSpace).head?.any endsLine = false

/-- `Quoted double indent t w`: between quotes, `w` is read as `t`. New lines are
indented by `indent` columns. -/
inductive Quoted (double : Bool) (indent : Nat) : List Char → List Char → Prop
  | nil : Quoted double indent [] []
  | char {c : Char} {t w : List Char} (ink : isInk c = true) (other : c ≠ quoteMark double)
      (bare : ¬(double = true ∧ c = '\\')) (tail : Quoted double indent t w) :
      Quoted double indent (c :: t) (c :: w)
  | blank {t w : List Char} (unbroken : Unbroken w) (tail : Quoted double indent t w) :
      Quoted double indent (' ' :: t) (' ' :: w)
  /-- a line end and the ends of empty lines -/
  | breaks {b : Char} {bs t w : List Char} (single : double = false)
      (all : ∀ c ∈ b :: bs, isBreak c = true) (ink : StartsInk w)
      (tail : Quoted double indent t w) :
      Quoted double indent (foldedEnd (lineFeed b) (bs.map lineFeed) ++ t)
        (b :: bs ++ spaces indent ++ w)
  | quote {t w : List Char} (single : double = false) (tail : Quoted double indent t w) :
      Quoted double indent ('\'' :: t) ('\'' :: '\'' :: w)
  | escape {n : Nat} {e t w : List Char} (isDouble : double = true) (coded : n < 0x110000)
      (escaped : escape? n = some e) (tail : Quoted double indent t w) :
      Quoted double indent (charsOf n ++ t) (e ++ w)
  /-- a new line that stands for nothing -/
  | wrap {t w : List Char} (isDouble : double = true) (ink : StartsInk w)
      (tail : Quoted double indent t w) :
      Quoted double indent t ('\\' :: '\n' :: spaces indent ++ w)
  | keptSpace {t w : List Char} (isDouble : double = true) (tail : Quoted double indent t w) :
      Quoted double indent (' ' :: t) ('\\' :: ' ' :: w)

theorem StartsInk.append_cons {w : List Char} (hw : StartsInk w) {c : Char}
    (hc : isInk c = true) (r : List Char) : StartsInk (w ++ c :: r) := by
  cases w with
  | nil =>
    intro d hd
    obtain rfl : c = d := by simpa using hd
    exact hc
  | cons d w => exact hw

theorem StartsInk.not_blank {w : List Char} (hw : StartsInk w) :
    w.head?.any isTabOrSpace = false := by
  cases w with
  | nil => rfl
  | cons c w =>
    have hc := hw c rfl
    rw [isInk, Bool.and_eq_true, Bool.not_eq_true', Bool.not_eq_true'] at hc
    exact hc.1

theorem StartsInk.not_lineEnd {w : List Char} (hw : StartsInk w) :
    w.head?.any endsLine = false := by
  cases w with
  | nil => rfl
  | cons c w =>
    have hc := hw c rfl
    rw [isInk, Bool.and_eq_true, Bool.not_eq_true', Bool.not_eq_true'] at hc
    exact hc.2

theorem isInk_quoteMark (double : Bool) : isInk (quoteMark double) = true := by
  cases double <;> decide

theorem Unbroken.append_cons {w : List Char} (hw : Unbroken w) {c : Char}
    (hc : isInk c = true) (r : List Char) : Unbroken (w ++ c :: r) := by
  rw [isInk, Bool.and_eq_true, Bool.not_eq_true', Bool.not_eq_true'] at hc
  induction w with
  | nil => rw [Unbroken, List.nil_append, List.dropWhile_cons, hc.1]; exact hc.2
  | cons d w ih =>
    rw [Unbroken, List.dropWhile_cons] at hw
    rw [Unbroken, List.cons_append, List.dropWhile_cons]
    split
    · next hd =>
      rw [if_pos hd] at hw
      exact ih hw
    · next hd =>
      rw [if_neg hd] at hw
      exact hw

/-! ## Reading it -/

variable {p : Cursor} {c : Char} {s t w r : List Char} {n : Nat}

theorem not_isDocumentMark_cons (hdash : c ≠ '-') (hpoint : c ≠ '.') (s : List Char) :
    isDocumentMark (c :: s) = false := by
  rw [isDocumentMark, isMark]
  simp [hdash.symm, hpoint.symm]

theorem ne_of_isBreak (hc : isBreak c = true) {d : Char} (hd : isBreak d = false) : c ≠ d := by
  rintro rfl
  rw [hd] at hc
  cases hc

theorem endsLine_of_isBreak (hc : isBreak c = true) : endsLine c = true := by
  rw [endsLine, hc, Bool.or_true]

theorem not_isTabOrSpace_of_isBreak (hc : isBreak c = true) : isTabOrSpace c = false := by
  rw [isTabOrSpace, beq_eq_false_iff_ne.2 (ne_of_isBreak hc (by decide)),
    beq_eq_false_iff_ne.2 (ne_of_isBreak hc (by decide))]
  rfl

theorem emptyLines_eq {bs : List Char} {k : Nat} (hp : p.rest = bs ++ (spaces k ++ s))
    (hbs : ∀ c ∈ bs, isBreak c = true) (hk : 1 ≤ k) (hs : StartsInk s) (hn : bs.length < n) :
    emptyLines n p = .ok (bs.map lineFeed, p.skip (bs.length + k)) := by
  induction bs generalizing p n with
  | nil =>
    obtain ⟨m, rfl⟩ : ∃ m, n = m + 1 := ⟨n - 1, by simp at hn; omega⟩
    obtain ⟨j, rfl⟩ : ∃ j, k = j + 1 := ⟨k - 1, by omega⟩
    rw [List.nil_append] at hp
    have hblank : p.skipWhile isTabOrSpace = p.skip (j + 1) := by
      rw [Cursor.skipWhile_eq hp (fun c hc => by rw [mem_spaces hc]; rfl) hs.not_blank,
        length_spaces]
    have hafter : (p.skip (j + 1)).rest = s := Cursor.rest_skip_spaces hp
    have hnone : (p.skip (j + 1)).lineEnd? = none :=
      Cursor.lineEnd?_eq_none (by rw [hafter]; exact hs.not_lineEnd)
    have hmark : isDocumentMark p.rest = false := by
      rw [hp]
      exact not_isDocumentMark_cons (by decide) (by decide) _
    simp only [emptyLines, hmark, hblank, hnone, Bool.false_eq_true, if_false, List.length_nil,
      Nat.zero_add, List.map_nil]
  | cons b bs ih =>
    obtain ⟨m, rfl⟩ : ∃ m, n = m + 1 := ⟨n - 1, by simp at hn; omega⟩
    rw [List.cons_append] at hp
    have hb := hbs b List.mem_cons_self
    have hblank : p.skipWhile isTabOrSpace = p := by
      rw [Cursor.skipWhile, hp, List.takeWhile_cons, not_isTabOrSpace_of_isBreak hb]
      rfl
    have htail := ih (Cursor.rest_step_cons hp) (fun c hc => hbs c (List.mem_cons_of_mem b hc))
      (n := m) (by simpa using hn)
    have hmark : isDocumentMark p.rest = false := by
      rw [hp]
      exact not_isDocumentMark_cons (ne_of_isBreak hb (by decide)) (ne_of_isBreak hb (by decide)) _
    simp only [emptyLines, hmark, hblank, Cursor.lineEnd?_eq_some hp hb, Bool.false_eq_true,
      if_false, htail]
    rw [List.length_cons, Nat.add_right_comm]
    rfl

theorem quotedGap_breaks {b : Char} {bs : List Char} {k : Nat}
    (hp : p.rest = b :: (bs ++ (spaces k ++ s))) (hbs : ∀ c ∈ b :: bs, isBreak c = true)
    (hk : 1 ≤ k) (hs : StartsInk s) (hn : bs.length < n) :
    quotedGap n p
      = .ok (foldedEnd (lineFeed b) (bs.map lineFeed), p.skip ((b :: bs).length + k)) := by
  have hb := hbs b List.mem_cons_self
  have hblank : p.skipWhile isTabOrSpace = p := by
    rw [Cursor.skipWhile, hp, List.takeWhile_cons, not_isTabOrSpace_of_isBreak hb]
    rfl
  simp only [quotedGap, hblank, Cursor.lineEnd?_eq_some hp hb,
    emptyLines_eq (Cursor.rest_step_cons hp) (fun c hc => hbs c (List.mem_cons_of_mem b hc)) hk hs
      hn]
  rw [List.length_cons, Nat.add_right_comm]
  rfl

theorem quotedGap_blanks (hp : p.rest = s) (hs : Unbroken s) :
    quotedGap n p = .ok (s.takeWhile isTabOrSpace, p.skipWhile isTabOrSpace) := by
  have hnone : (p.skipWhile isTabOrSpace).lineEnd? = none := by
    apply Cursor.lineEnd?_eq_none
    rw [Cursor.rest_skipWhile, hp]
    exact hs
  simp only [quotedGap, hnone, hp]

/-- A blank is read by itself, although the reader takes all blanks together. -/
theorem quotedTail_blank {double : Bool} {q : Cursor} (hp : p.rest = c :: s)
    (hc : isTabOrSpace c = true) (hs : Unbroken s)
    (h : ∀ m, n ≤ m → quotedTail double m p.step = .ok (t, q)) :
    quotedTail double (n + 1) p = .ok (c :: t, q) := by
  have hstep := Cursor.rest_step_cons hp
  have hskip : p.skipWhile isTabOrSpace = p.step.skipWhile isTabOrSpace := by
    rw [Cursor.skipWhile, Cursor.skipWhile, hp, hstep, List.takeWhile_cons, hc]
    rfl
  have hgap : quotedGap n p
      = .ok (c :: s.takeWhile isTabOrSpace, p.step.skipWhile isTabOrSpace) := by
    have hcs : Unbroken (c :: s) := by rwa [Unbroken, List.dropWhile_cons, hc]
    rw [quotedGap_blanks hp hcs, hskip, List.takeWhile_cons, hc]
    rfl
  rw [quotedTail, hp]
  simp only [hc, Bool.true_or, if_true, hgap]
  by_cases hblank : s.head?.any isTabOrSpace = true
  · -- the reader of the next place starts with the same gap
    obtain ⟨d, s', rfl⟩ : ∃ d s', s = d :: s' := by
      cases s with
      | nil => cases hblank
      | cons d s' => exact ⟨d, s', rfl⟩
    have hd : isTabOrSpace d = true := by simpa using hblank
    have hnext := h (n + 1) (Nat.le_succ n)
    rw [quotedTail, hstep] at hnext
    simp only [hd, Bool.true_or, if_true, quotedGap_blanks hstep hs] at hnext
    change (quotedTail double n (p.step.skipWhile isTabOrSpace) >>= fun x =>
      Except.ok (_ ++ x.1, x.2)) = _ at hnext
    change (quotedTail double n (p.step.skipWhile isTabOrSpace) >>= fun x =>
      Except.ok (c :: _ ++ x.1, x.2)) = _
    cases htail : quotedTail double n (p.step.skipWhile isTabOrSpace) with
    | error f => rw [htail] at hnext; cases hnext
    | ok x =>
      rw [htail] at hnext
      obtain ⟨rfl, rfl⟩ := Prod.mk.inj (Except.ok.inj hnext)
      rfl
  · have hnone : s.takeWhile isTabOrSpace = [] := by
      cases s with
      | nil => rfl
      | cons d s' =>
        rw [List.takeWhile_cons, if_neg (by simpa using hblank)]
    have hstay : p.step.skipWhile isTabOrSpace = p.step := by
      rw [Cursor.skipWhile, hstep, hnone]
      rfl
    rw [hnone, hstay]
    show (quotedTail double n p.step >>= fun x => Except.ok (c :: [] ++ x.1, x.2)) = _
    rw [h n (Nat.le_refl n)]
    rfl

/-! ### Escapes -/

theorem escapeText_letter {d : Char} (hp : p.rest = c :: s) (hd : escaped? c = some d) :
    escapeText n p = .ok ([d], p.skip 1) := by
  rw [escapeText, hp]
  simp only [hd]
  rfl

theorem escapeText_code {m width : Nat} (hp : p.rest = c :: (upperHex width m ++ s))
    (hletter : escaped? c = none) (hwidth : codeWidth? c = some width) (hm : m < 16 ^ width)
    (hcode : m < 0x110000) :
    escapeText n p = .ok (charsOf m, p.skip (upperHex width m).length.succ) := by
  have htake : p.step.rest.take width = upperHex width m := by
    rw [Cursor.rest_step_cons hp, List.take_left' (length_upperHex width m)]
  rw [escapeText, hp]
  simp only [hletter, hwidth]
  rw [codeChar, htake, hexNumber?_upperHex width m hm]
  simp only [length_upperHex, Nat.lt_irrefl, if_false, Nat.not_le.2 hcode]
  rfl

/-- The escapes of a code: a letter, or a letter and the digits of the code. -/
inductive Escape (m : Nat) : List Char → Prop
  | letter (c d : Char) (hd : escaped? c = some d) (hm : charsOf m = [d])
      (printable : 0x20 ≤ c.toNat ∧ c.toNat ≤ 0x7E) : Escape m ['\\', c]
  | code (c : Char) (width : Nat) (hletter : escaped? c = none)
      (hwidth : codeWidth? c = some width) (hm : m < 16 ^ width)
      (printable : 0x20 ≤ c.toNat ∧ c.toNat ≤ 0x7E) : Escape m ('\\' :: c :: upperHex width m)

theorem Escape.of_eq {m : Nat} {e e' : List Char} (h : Escape m e) (he : some e = some e') :
    Escape m e' := Option.some.inj he ▸ h

theorem escape_escape? {m : Nat} {e : List Char} (he : escape? m = some e)
    (hm : m < 0x110000) : Escape m e := by
  rcases eq_or_ne m 0 with rfl | h0
  · exact (Escape.letter '0' _ rfl (by decide) (by decide)).of_eq he
  rcases eq_or_ne m 7 with rfl | h1
  · exact (Escape.letter 'a' _ rfl (by decide) (by decide)).of_eq he
  rcases eq_or_ne m 8 with rfl | h2
  · exact (Escape.letter 'b' _ rfl (by decide) (by decide)).of_eq he
  rcases eq_or_ne m 9 with rfl | h3
  · exact (Escape.letter 't' _ rfl (by decide) (by decide)).of_eq he
  rcases eq_or_ne m 0x0A with rfl | h4
  · exact (Escape.letter 'n' _ rfl (by decide) (by decide)).of_eq he
  rcases eq_or_ne m 0x0B with rfl | h5
  · exact (Escape.letter 'v' _ rfl (by decide) (by decide)).of_eq he
  rcases eq_or_ne m 0x0C with rfl | h6
  · exact (Escape.letter 'f' _ rfl (by decide) (by decide)).of_eq he
  rcases eq_or_ne m 0x0D with rfl | h7
  · exact (Escape.letter 'r' _ rfl (by decide) (by decide)).of_eq he
  rcases eq_or_ne m 0x1B with rfl | h8
  · exact (Escape.letter 'e' _ rfl (by decide) (by decide)).of_eq he
  rcases eq_or_ne m 0x22 with rfl | h9
  · exact (Escape.letter '"' _ rfl (by decide) (by decide)).of_eq he
  rcases eq_or_ne m 0x5C with rfl | h10
  · exact (Escape.letter '\\' _ rfl (by decide) (by decide)).of_eq he
  rcases eq_or_ne m 0x85 with rfl | h11
  · exact (Escape.letter 'N' _ rfl (by decide) (by decide)).of_eq he
  rcases eq_or_ne m 0x2028 with rfl | h12
  · exact (Escape.letter 'L' _ rfl (by decide) (by decide)).of_eq he
  rcases eq_or_ne m 0x2029 with rfl | h13
  · exact (Escape.letter 'P' _ rfl (by decide) (by decide)).of_eq he
  rw [escape?, if_neg h0, if_neg h1, if_neg h2, if_neg h3, if_neg h4, if_neg h5, if_neg h6,
    if_neg h7, if_neg h8, if_neg h9, if_neg h10, if_neg h11, if_neg h12, if_neg h13] at he
  by_cases hmark : m = 0xFEFF
  · rw [if_pos hmark] at he
    exact (Escape.code 'u' 4 rfl rfl (by omega) (by decide)).of_eq he
  rw [if_neg hmark] at he
  split at he
  · cases he
  split at he
  · exact (Escape.code 'x' 2 rfl rfl (by omega) (by decide)).of_eq he
  split at he
  · exact (Escape.code 'u' 4 rfl rfl (by omega) (by decide)).of_eq he
  · exact (Escape.code 'U' 8 rfl rfl (by omega) (by decide)).of_eq he

/-- Every escape is read as the code that it is written for. -/
theorem Escape.text {m : Nat} {e : List Char} (h : Escape m e) (hm : m < 0x110000) :
    ∃ e', e = '\\' :: e' ∧ e' ≠ [] ∧ ∀ (p : Cursor) (s : List Char) (n : Nat),
      p.rest = e' ++ s → escapeText n p = .ok (charsOf m, p.skip e'.length) := by
  cases h with
  | letter c d hd hchars =>
    refine ⟨[c], rfl, List.cons_ne_nil _ _, fun p s n hp => ?_⟩
    rw [hchars]
    exact escapeText_letter hp hd
  | code c width hletter hwidth hlt =>
    exact ⟨_, rfl, List.cons_ne_nil _ _, fun _ _ _ hp => escapeText_code hp hletter hwidth hlt hm⟩

/-! ### Whole texts -/

theorem quotedTail_char {double : Bool} {q : Cursor} (hp : p.rest = c :: s)
    (hc : isInk c = true) (hother : c ≠ quoteMark double) (hbare : ¬(double = true ∧ c = '\\'))
    (h : quotedTail double n p.step = .ok (t, q)) :
    quotedTail double (n + 1) p = .ok (c :: t, q) := by
  rw [isInk, Bool.and_eq_true, Bool.not_eq_true', Bool.not_eq_true'] at hc
  have hslash : (double && c == '\\') = false := by
    rw [← Bool.not_eq_true, Bool.and_eq_true, beq_iff_eq]
    exact hbare
  have hquote : (!double && c == '\'' && s.head? == some '\'') = false := by
    cases double
    · have hc' : (c == '\'') = false := beq_eq_false_iff_ne.2 hother
      rw [hc']
      rfl
    · rfl
  have hclose : (c == if double then '"' else '\'') = false := beq_eq_false_iff_ne.2 hother
  rw [quotedTail, hp]
  simp only [hc.1, hc.2, hslash, hquote, hclose, Bool.or_self, Bool.false_eq_true, if_false, h]
  rfl

theorem quotedTail_lineEnd {double : Bool} {cs : List Char} {q q' : Cursor}
    (hp : p.rest = c :: s) (hc : endsLine c = true) (hgap : quotedGap n p = .ok (cs, q))
    (h : quotedTail double n q = .ok (t, q')) :
    quotedTail double (n + 1) p = .ok (cs ++ t, q') := by
  rw [quotedTail, hp]
  simp only [hc, Bool.or_true, if_true, hgap]
  show (quotedTail double n q >>= fun x => Except.ok (cs ++ x.1, x.2)) = _
  rw [h]
  rfl

theorem quotedTail_quote {q : Cursor} (hp : p.rest = '\'' :: '\'' :: s)
    (h : quotedTail false n (p.skip 2) = .ok (t, q)) :
    quotedTail false (n + 1) p = .ok ('\'' :: t, q) := by
  rw [quotedTail, hp]
  show (quotedTail false n (p.skip 2) >>= fun x => Except.ok ('\'' :: x.1, x.2)) = _
  rw [h]
  rfl

theorem quotedTail_backslash {cs : List Char} {q q' : Cursor} (hp : p.rest = '\\' :: s)
    (hescape : escapeText n p.step = .ok (cs, q))
    (h : quotedTail true n q = .ok (t, q')) :
    quotedTail true (n + 1) p = .ok (cs ++ t, q') := by
  rw [quotedTail, hp]
  show (escapeText n p.step >>= fun x => quotedTail true n x.2 >>= fun y =>
    Except.ok (x.1 ++ y.1, y.2)) = _
  rw [hescape]
  show (quotedTail true n q >>= fun y => Except.ok (cs ++ y.1, y.2)) = _
  rw [h]
  rfl

/-- A backslash before a new line makes it stand for nothing. -/
theorem escapeText_wrap {k : Nat} (hp : p.rest = '\n' :: (spaces k ++ s)) (hk : 1 ≤ k)
    (hs : StartsInk s) (hn : 0 < n) : escapeText n p = .ok ([], p.skip (k + 1)) := by
  have hend := Cursor.lineEnd?_eq_some hp (by decide)
  have hempty : emptyLines n p.step = .ok ([], p.step.skip k) := by
    have hrest : p.step.rest = [] ++ (spaces k ++ s) := Cursor.rest_step_cons hp
    have h := emptyLines_eq hrest (fun c hc => by cases hc) hk hs hn
    rwa [List.length_nil, Nat.zero_add] at h
  rw [escapeText, hend, hp]
  exact hempty

theorem quotedTail_close (double : Bool) (hp : p.rest = quoteMark double :: s) :
    (double = false → s.head? ≠ some '\'') →
      quotedTail double (n + 1) p = .ok ([], p.skip 1) := by
  intro hnext
  rw [quotedTail, hp]
  cases double
  · have hs : (s.head? == some '\'') = false := beq_eq_false_iff_ne.2 (hnext rfl)
    simp [quoteMark, hs, isTabOrSpace, endsLine, isBreak, isBreakCode, Cursor.skip]
  · rfl

/-- The reader agrees with `Quoted`. -/
theorem quotedTail_of_quoted {double : Bool} {indent : Nat} (hq : Quoted double indent t w)
    (hindent : 1 ≤ indent) (hp : p.rest = w ++ quoteMark double :: r)
    (hr : double = false → r.head? ≠ some '\'') (hn : w.length < n) :
    quotedTail double n p = .ok (t, p.skip (w.length + 1)) := by
  obtain ⟨n, rfl⟩ : ∃ m, n = m + 1 := ⟨n - 1, by omega⟩
  induction hq generalizing p n with
  | nil => exact quotedTail_close double hp hr
  | char ink other bare tail ih =>
    rw [List.cons_append] at hp
    rw [List.length_cons] at hn ⊢
    refine quotedTail_char hp ink other bare ?_
    obtain ⟨m, rfl⟩ : ∃ m, n = m + 1 := ⟨n - 1, by omega⟩
    exact ih (Cursor.rest_step_cons hp) m (by omega)
  | @blank t w unbroken tail ih =>
    rw [List.cons_append] at hp
    rw [List.length_cons] at hn ⊢
    refine quotedTail_blank hp rfl (unbroken.append_cons (isInk_quoteMark double) r) ?_
    intro m hm
    obtain ⟨k, rfl⟩ : ∃ k, m = k + 1 := ⟨m - 1, by omega⟩
    exact ih (Cursor.rest_step_cons hp) k (by omega)
  | @breaks b bs t w single all ink tail ih =>
    have hp' : p.rest = (b :: bs) ++ (spaces indent ++ (w ++ quoteMark double :: r)) := by
      rw [hp]
      simp only [List.append_assoc]
    have hlen : (b :: bs ++ spaces indent ++ w).length = (b :: bs).length + indent + w.length := by
      rw [List.length_append, List.length_append, length_spaces]
    rw [hlen] at hn ⊢
    have hgap := quotedGap_breaks (n := n) (s := w ++ quoteMark double :: r) hp' all hindent
      (ink.append_cons (isInk_quoteMark double) r) (by rw [List.length_cons] at hn; omega)
    refine quotedTail_lineEnd hp' (endsLine_of_isBreak (all b List.mem_cons_self)) hgap ?_
    obtain ⟨m, rfl⟩ : ∃ m, n = m + 1 := ⟨n - 1, by rw [List.length_cons] at hn; omega⟩
    rw [ih (Cursor.rest_skip_append_spaces hp') m (by rw [List.length_cons] at hn; omega), ← Cursor.skip_add]
    rfl
  | @quote t w single tail ih =>
    subst single
    rw [List.cons_append, List.cons_append] at hp
    rw [List.length_cons, List.length_cons] at hn ⊢
    refine quotedTail_quote hp ?_
    obtain ⟨m, rfl⟩ : ∃ m, n = m + 1 := ⟨n - 1, by omega⟩
    exact ih (Cursor.rest_step_cons (Cursor.rest_step_cons hp)) m (by omega)
  | @escape m e t w isDouble coded escaped tail ih =>
    subst isDouble
    obtain ⟨e', rfl, hne, hread⟩ := (escape_escape? escaped coded).text coded
    rw [List.append_assoc, List.cons_append] at hp
    rw [List.length_append, List.length_cons] at hn ⊢
    refine quotedTail_backslash hp (hread _ _ n (Cursor.rest_step_cons hp)) ?_
    obtain ⟨k, rfl⟩ : ∃ k, n = k + 1 := ⟨n - 1, by omega⟩
    have hpos := List.length_pos_iff.2 hne
    rw [ih (Cursor.rest_skip_append (Cursor.rest_step_cons hp)) k (by omega), ← Cursor.skip_add,
      show e'.length + 1 + w.length + 1 = e'.length + (w.length + 1) + 1 by omega]
    rfl
  | @wrap t w isDouble ink tail ih =>
    subst isDouble
    rw [List.cons_append, List.cons_append, List.append_assoc] at hp
    have hlen : ('\\' :: '\n' :: spaces indent ++ w).length = indent + w.length + 2 := by
      rw [List.length_append, List.length_cons, List.length_cons, length_spaces]
      omega
    rw [hlen] at hn ⊢
    have hskip := escapeText_wrap (n := n) (Cursor.rest_step_cons hp) hindent
      (ink.append_cons (isInk_quoteMark true) r) (by omega)
    refine quotedTail_backslash hp hskip ?_
    obtain ⟨k, rfl⟩ : ∃ k, n = k + 1 := ⟨n - 1, by omega⟩
    have hrest : (p.step.step.skip indent).rest = w ++ quoteMark true :: r :=
      Cursor.rest_skip_spaces (Cursor.rest_step_cons (Cursor.rest_step_cons hp))
    rw [← Cursor.skip] at hrest
    rw [ih hrest k (by omega), ← Cursor.skip_add,
      show indent + w.length + 2 + 1 = indent + 1 + (w.length + 1) + 1 by omega]
    rfl
  | @keptSpace t w isDouble tail ih =>
    subst isDouble
    rw [List.cons_append, List.cons_append] at hp
    rw [List.length_cons, List.length_cons] at hn ⊢
    have hescape : escapeText n p.step = .ok ([' '], p.step.skip 1) :=
      escapeText_letter (Cursor.rest_step_cons hp) rfl
    refine quotedTail_backslash hp hescape ?_
    obtain ⟨k, rfl⟩ : ∃ k, n = k + 1 := ⟨n - 1, by omega⟩
    exact ih (Cursor.rest_step_cons (Cursor.rest_step_cons hp)) k (by omega)

end Yaml

end AppPipeline
