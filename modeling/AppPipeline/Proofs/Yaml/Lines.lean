import AppPipeline.Proofs.Yaml.Bare
import AppPipeline.Proofs.Yaml.Lexer
import AppPipeline.Proofs.Yaml.Written

/-!
# Scalars as tokens

A text that is written on a line of its own becomes one token (`goes_textLine`), and so
does a word for a value that is no text (`goes_bare`). The token holds the text as it is
read back, `readBack`. A text in front of a colon becomes a key (`goes_key`).
-/

namespace AppPipeline.Yaml

open Lexer

/-- The text as it is read from its written form. Line breaks that need no double quotes may
change. -/
def readBack (s : List Char) : List Char :=
  match styleOf false s with
  | .plain => s
  | .single => refolded false s
  | .double => s
  | .literal => s.map lineFeed

/-- The token of a written text. -/
def textToken (s : List Char) : Token := .scalar (styleOf false s == .plain) (readBack s)

variable {p : Cursor} {ts : List Token} {is : List Nat} {allows : Bool}
variable {indent column k n : Nat} {s w r : List Char}

/-! ## Plain texts -/

/-- The text may be written without quotes. -/
structure Unquoted (s : List Char) : Prop extends Wordy s where
  indicator : ∀ c ∈ s.head?, leadingIndicators.contains c = false
  mark : ∀ c ∈ s.head?, leadingMarks.contains c = true → separated s.tail = false
  alone : isMark s = false

theorem unquoted_of_cons (hwordy : Wordy (c :: s)) (hindicator : leadingIndicators.contains c = false)
    (hmark : leadingMarks.contains c = false) (halone : isMark (c :: s) = false) :
    Unquoted (c :: s) where
  toWordy := hwordy
  indicator := by
    rintro d ⟨⟩
    exact hindicator
  mark := by
    rintro d ⟨⟩ hd
    rw [hmark] at hd
    cases hd
  alone := halone

theorem Fits.unquoted (hcoded : Text.Coded s) (h : Fits s .plain) : Unquoted s := by
  have hne : s ≠ [] := by
    rintro rfl
    exact absurd h.1 (by decide)
  have hindicator : hasIndicator s = false := by
    have h := h.2
    rw [allowsPlain, Bool.not_eq_true'] at h
    simp only [Bool.or_eq_false_iff] at h
    exact h.2
  obtain ⟨c, t, rfl⟩ := List.exists_cons_of_ne_nil hne
  rw [hasIndicator, Bool.or_eq_false_iff, Bool.or_eq_false_iff, Bool.or_eq_false_iff] at hindicator
  obtain ⟨⟨⟨hmark, hleading⟩, hfirst⟩, -⟩ := hindicator
  refine ⟨wordy_of_allowsPlain hcoded hne h.2, ?_, ?_, hmark⟩
  · intro d hd
    obtain rfl := Option.some.inj hd
    exact hleading
  · intro d hd hmarks
    obtain rfl := Option.some.inj hd
    have hcases : c = '-' ∨ c = '?' ∨ c = ':' := by simpa [leadingMarks] using hmarks
    rw [← Bool.not_eq_true]
    intro hsep
    have hsep : separated t = true := hsep
    rw [hsep] at hfirst
    rcases hcases with rfl | rfl | rfl <;> exact absurd hfirst (by decide)

theorem isMark_of_append {u : List Char} (hr : ∀ c ∈ r.head?, c ≠ '-' ∧ c ≠ '.')
    (h : isMark (u ++ r) = true) (t : List Char) : isMark (u ++ t) = true := by
  have hend : ∀ (m : Char) (ms : List Char), m = '-' ∨ m = '.' →
      (m :: ms).isPrefixOf r = false := by
    intro m ms hm
    cases r with
    | nil => rfl
    | cons c r =>
      obtain ⟨hdash, hpoint⟩ := hr c rfl
      rw [List.isPrefixOf, beq_eq_false_iff_ne.2, Bool.false_and]
      rintro rfl
      exact hm.elim hdash hpoint
  rw [isMark, Bool.or_eq_true] at h ⊢
  rcases u with _ | ⟨a, _ | ⟨b, _ | ⟨c, u⟩⟩⟩
  · simp [hend] at h
  · simp [List.isPrefixOf, hend] at h
  · simp [List.isPrefixOf, hend] at h
  · simpa [List.isPrefixOf] using h

/-- The first character may begin a text without quotes, whatever ends the text. -/
theorem Unquoted.starts {c d : Char} {behind : Bool} (h : Unquoted (c :: s))
    (hw : Folded indent behind s w) : startsPlain false c (w ++ d :: r) = true := by
  have hc : c ≠ ' ' := fun he => h.first (by rw [he]; rfl)
  have hsep : isSeparator c = false := by
    rw [← Bool.not_eq_true]
    exact fun hsep => hc (h.separators c List.mem_cons_self hsep)
  rw [startsPlain]
  split
  · next hmarks =>
    have hnext : separated s = false := h.mark c rfl hmarks
    have hwnext : separated (w ++ d :: r) = false := by
      cases hw with
      | nil => cases hnext
      | char => exact hnext
      | blank => cases hnext
      | fold => cases hnext
    rw [hwnext]
    simp
  · rw [hsep, h.indicator c rfl]
    rfl

/-- No written text without quotes begins with a document mark. -/
theorem Unquoted.not_isMark {d : Char} {behind : Bool} (h : Unquoted s)
    (hw : Folded indent behind s w) (hd : d = '\n' ∨ d = ':') : isMark (w ++ d :: r) = false := by
  obtain ⟨u, t, hs, hu, ht⟩ := h.word
  rw [hs] at hw
  obtain ⟨v, rfl, hrest⟩ := hw.word hu.ne_space hu.ne_nil
  -- behind its first word stands neither a hyphen nor a point
  have hend : ∀ e ∈ (v ++ d :: r).head?, e ≠ '-' ∧ e ≠ '.' := by
    intro e he
    rcases ht with rfl | ⟨k, t', rfl, -⟩
    · obtain rfl := hrest.nil_inv
      obtain rfl := Option.some.inj he
      rcases hd with rfl | rfl <;> decide
    · cases hrest with
      | char ink => exact absurd rfl ink
      | blank =>
        obtain rfl := Option.some.inj he
        decide
      | fold =>
        obtain rfl := Option.some.inj he
        decide
  rw [← Bool.not_eq_true, List.append_assoc]
  intro hm
  have hall := isMark_of_append hend hm t
  rw [← hs, h.alone] at hall
  cases hall

theorem Unquoted.head_ne_hash (h : Unquoted s) : s.head? ≠ some '#' := by
  obtain ⟨u, t, rfl, hu, -⟩ := h.word
  rw [List.head?_append_of_ne_nil _ hu.ne_nil]
  exact hu.first

/-- A written text without quotes begins as one, whatever ends it. -/
theorem Unquoted.begins {d : Char} {behind : Bool} (h : Unquoted s)
    (hw : Folded indent behind s w) (hd : d = '\n' ∨ d = ':') :
    ∃ c w', w = c :: w' ∧ startsPlain false c (w' ++ d :: r) = true ∧
      isDocumentMark (c :: (w' ++ d :: r)) = false ∧ BeginsToken (w ++ d :: r) := by
  have hbegins := hw.head h.toWordy (d :: r)
  have hhash := h.head_ne_hash
  have hmark : isMark (w ++ d :: r) = false := h.not_isMark hw hd
  cases hw with
  | nil => exact absurd rfl h.ne_nil
  | blank => exact absurd rfl h.first
  | fold => exact absurd rfl h.first
  | @char _ c _ w' _ tail =>
    refine ⟨c, w', rfl, h.starts tail, ?_, hbegins, hhash⟩
    rw [isDocumentMark, ← List.cons_append, hmark, Bool.false_and]

/-! ## Lines -/

/-- What ends a text without quotes: a column left of what belongs to the open collections, or
a document mark. -/
def Closes (is : List Nat) (k : Nat) (r : List Char) : Prop :=
  k < inner is ∨ (k = 0 ∧ isDocumentMark r = true)

/-- The gap behind a text at the end of its line. -/
theorem exists_plainGap {least : Nat} (hp : p.rest = '\n' :: (spaces k ++ r)) (hr : BeginsLine r)
    (hleft : k < least ∨ (k = 0 ∧ isDocumentMark r = true)) :
    ∃ g : Gap, (∀ m, 0 < m → plainGap m p = g) ∧ g.after = p.skip (k + 1) ∧ g.crossed = true ∧
      (g.text.isEmpty || g.after.column < least) = true := by
  by_cases hmark : isDocumentMark (spaces k ++ r) = true
  · obtain rfl : k = 0 := by
      cases k with
      | zero => rfl
      | succ k => exact absurd hmark (by
          rw [spaces_succ, List.cons_append, not_isDocumentMark_cons (by decide) (by decide)]
          exact Bool.false_ne_true)
    exact ⟨_, fun m hm => plainGap_mark hp hmark hm, rfl, rfl, rfl⟩
  · rw [Bool.not_eq_true] at hmark
    refine ⟨_, fun m hm => plainGap_line hp hmark hr hm, rfl, rfl, ?_⟩
    have hlt : k < least := by
      rcases hleft with h | ⟨rfl, h⟩
      · exact h
      · rw [show spaces 0 ++ r = r from rfl, h] at hmark
        cases hmark
    have hcolumn : (p.skip (k + 1)).column = k := by
      have h := Cursor.column_skip_line (w := []) (n := k) (r := r) (p := p) (c := '\n')
        (by rw [hp]; rfl) (by decide)
      rwa [List.length_nil, Nat.zero_add, Nat.add_comm] at h
    dsimp only
    rw [hcolumn, decide_eq_true hlt]
    rfl

/-- A plain text on lines of its own is one token. -/
theorem goes_plain (hs : Unquoted s) (hw : Folded indent true s w)
    (hp : p.rest = w ++ '\n' :: (spaces k ++ r)) (hr : BeginsToken r) (hcloses : Closes is k r)
    (hindent : inner is ≤ indent) (hone : 1 ≤ indent) (hcolumn : inner is ≤ p.column + 1)
    (hallows : allows = true → is.head? ≠ some p.column) :
    Goes (between p ts is allows none)
      (arrived (p.skip (w.length + 1 + k)) (.scalar true s :: ts) is) := by
  obtain ⟨c, w', hcw, hstart, hmark, -⟩ :=
    hs.begins (d := '\n') (r := spaces k ++ r) hw (.inl rfl)
  have hrest := Cursor.rest_skip_append hp
  obtain ⟨g, hgap, hafter, hcrossed, hstop⟩ :=
    exists_plainGap hrest hr.toBeginsLine hcloses
  have hplace : g.after = p.skip (w.length + 1 + k) := by
    rw [hafter, ← Cursor.skip_add]
    congr 1
    omega
  have hlength := hw.length_le
  have htext : ∀ n, p.rest.length < n → plainText false (inner is) n ⟨[], false, p⟩
      = ⟨s, true, p.skip (w.length + 1 + k)⟩ := by
    intro n hn
    rw [hp, List.length_append, List.length_cons] at hn
    rw [plainText_of_folded hw hs.toWordy hp rfl hcolumn hindent hone hgap hstop (by omega),
      ← hcrossed, ← hplace]
    rfl
  have hcs : p.rest = c :: (w' ++ '\n' :: (spaces k ++ r)) := by
    rw [hp, hcw]
    rfl
  have hfinal : (p.skip (w.length + 1 + k)).rest = r := by
    rw [← hplace, hafter, Nat.add_comm, Cursor.skip_add]
    exact Cursor.rest_skip_spaces (Cursor.rest_step_cons hrest)
  refine goes_of_token hcs (fun n hn => token_plain hstart hmark (htext n hn)) ?_
    (Arrives.ends (arrives_begun ?_ (passed_marked hallows ?_)))
  · show (p.skip (w.length + 1 + k)).rest.length < p.rest.length
    rw [hfinal, hp, List.length_append, List.length_cons, List.length_append]
    omega
  · rw [hfinal]
    exact hr
  · exact Cursor.line_lt_skip hp (by decide) (by omega)

theorem endsLine_eq_isBreak (h : needsDouble s = false) (hcoded : Text.Coded s) :
    ∀ c ∈ s, endsLine c = isBreak c := by
  intro c hc
  obtain ⟨n, hn, hcn⟩ := exists_code hc
  have hspecial := not_isSpecial_of_mem h hn
  have hreturn : (c == '\r') = false := by
    rw [beq_eq_false_iff_ne]
    rintro rfl
    rw [isSpecial_eq_false_iff] at hspecial
    have hcode : ('\r' : Char).toNat = 13 := rfl
    rcases toNat_of_mem_charsOf (hcoded n hn) hcn with he | ⟨he, -⟩ <;> omega
  rw [endsLine, hreturn, Bool.false_or]

/-- A text in quotes on lines of its own is one token. -/
theorem goes_quoted {double : Bool} {cs t : List Char} (hw : w = quoteMark double :: t)
    (hread : ∀ n, w.length < n → quotedText double n p = .ok (cs, p.skip w.length))
    (hp : p.rest = w ++ '\n' :: (spaces k ++ r)) (hr : BeginsToken r)
    (hallows : allows = true → is.head? ≠ some p.column) :
    Goes (between p ts is allows none)
      (arrived (p.skip (w.length + 1 + k)) (.scalar false cs :: ts) is) := by
  have hrest := Cursor.rest_skip_append hp
  have hcs : p.rest = quoteMark double :: (t ++ '\n' :: (spaces k ++ r)) := by
    rw [hp, hw]
    rfl
  have hpos : 0 < w.length := by
    rw [hw]
    exact Nat.succ_pos _
  have hline := Cursor.line_le_skip w.length p
  have hplace : p.skip (w.length + 1 + k) = (p.skip w.length).skip (k + 1) := by
    rw [← Cursor.skip_add]
    congr 1
    omega
  rw [hplace]
  refine goes_of_token hcs (fun n hn => token_quoted (hread n ?_)) ?_
    (Arrives.ends (arrives_line hrest hr (passed_marked hallows (by omega))))
  · have hn : p.rest.length < n := hn
    rw [hp, List.length_append, List.length_cons] at hn
    omega
  · show (p.skip w.length).rest.length < p.rest.length
    rw [hrest, hp, List.length_append]
    omega

/-- A literal block is one token. -/
theorem goes_literal (hcoded : Text.Coded s) (hs : Fits s .literal)
    (hp : p.rest = styled .literal true indent column s ++ (spaces k ++ r))
    (hr : BeginsToken r) (hk : k < indent) (hindent : indent = max (inner is) 1 + 1) :
    Goes (between p ts is allows none)
      (arrived (p.skip ((styled .literal true indent column s).length + k))
        (.scalar false (s.map lineFeed) :: ts) is) := by
  have hblock : allowsBlock s = true := hs
  have hne : s ≠ [] := by
    rintro rfl
    exact absurd hblock (by decide)
  have hchars := endsLine_eq_isBreak (hs.not_needsDouble (by decide)) hcoded
  have hrest := Cursor.rest_skip_append hp
  have hfinal : (p.skip ((styled .literal true indent column s).length + k)).rest = r := by
    rw [Cursor.skip_add]
    exact Cursor.rest_skip_spaces hrest
  obtain ⟨t, ht⟩ : ∃ t, styled .literal true indent column s = '|' :: t := ⟨_, rfl⟩
  have hcs : p.rest = '|' :: (t ++ (spaces k ++ r)) := by
    rw [hp, ht]
    rfl
  have hread : ∀ n, p.rest.length < n → blockText false (inner is) n p
      = .ok (s.map lineFeed, p.skip ((styled .literal true indent column s).length + k)) := by
    intro n hn
    refine blockText_literal hne hchars hindent hp hk hr.toBeginsLine ?_
    rw [hp, List.length_append] at hn
    omega
  refine goes_of_token hcs (fun n hn => token_literal (hread n hn)) ?_
    (Arrives.ends (arrives_begun ?_ ?_))
  · show (p.skip _).rest.length < p.rest.length
    rw [hfinal, hcs, List.length_cons, List.length_append, List.length_append]
    omega
  · rw [hfinal]
    exact hr
  · exact fun kp hkp => by cases hkp

/-- A text on a line of its own is one token. -/
theorem goes_textLine (hcoded : Text.Coded s)
    (hp : p.rest = textLine indent column s ++ (spaces k ++ r)) (hr : BeginsToken r)
    (hk : k < indent) (hcloses : styleOf false s = .plain → Closes is k r)
    (hindent : indent = max (inner is) 1 + 1) (hwidth : indent + 1 ≤ width)
    (hcolumn : inner is ≤ p.column + 1) (hallows : allows = true → is.head? ≠ some p.column) :
    Goes (between p ts is allows none)
      (arrived (p.skip ((textLine indent column s).length + k)) (textToken s :: ts) is) := by
  have hfits := fits_styleOf false s
  rw [textToken, readBack]
  rw [textLine] at hp ⊢
  cases hstyle : styleOf false s with
  | plain =>
    rw [hstyle] at hp hfits
    have hp' : p.rest = styled .plain true indent column s ++ '\n' :: (spaces k ++ r) := by
      rw [hp, if_neg (by decide), List.append_assoc]
      rfl
    rw [if_neg (by decide), List.length_append]
    exact goes_plain (hfits.unquoted hcoded) (folded_styled hcoded) hp' hr
      (hcloses hstyle) (by omega) (by omega) hcolumn hallows
  | single =>
    rw [hstyle] at hp hfits
    have hp' : p.rest = styled .single true indent column s ++ '\n' :: (spaces k ++ r) := by
      rw [hp, if_neg (by decide), List.append_assoc]
      rfl
    rw [if_neg (by decide), List.length_append]
    exact goes_quoted rfl
      (fun n hn => quotedText_single hcoded hfits (by omega) hp' (by simp) hn) hp' hr hallows
  | double =>
    rw [hstyle] at hp
    have hp' : p.rest = styled .double true indent column s ++ '\n' :: (spaces k ++ r) := by
      rw [hp, if_neg (by decide), List.append_assoc]
      rfl
    rw [if_neg (by decide), List.length_append]
    exact goes_quoted rfl
      (fun n hn => quotedText_double hcoded (by omega) hwidth hp' hn) hp' hr hallows
  | literal =>
    rw [hstyle, if_pos rfl, List.append_nil] at hp
    rw [hstyle] at hfits
    rw [if_pos rfl, List.append_nil]
    exact goes_literal hcoded hfits hp hr hk hindent

/-! ## Words -/

theorem IntegerText.unquoted {n : Int} (h : IntegerText n s) : Unquoted s := by
  refine ⟨h.wordy, ?_, ?_, ?_⟩
  · intro c hc
    have hall : ∀ d ∈ leadingIndicators, d.isDigit = false ∧ d ≠ '-' := by decide
    rw [← Bool.not_eq_true, List.contains_iff_mem]
    intro hmem
    exact h.not_mem (hall c hmem).1 (hall c hmem).2 (List.mem_of_mem_head? hc)
  · intro c hc hmark
    have hall : ∀ d ∈ leadingMarks, d.isDigit = false := by decide
    have hdigit := hall c (List.contains_iff_mem.1 hmark)
    cases h with
    | natural m =>
      rw [isDigit_of_mem_toDigits (List.mem_of_mem_head? hc)] at hdigit
      cases hdigit
    | negative m =>
      obtain ⟨d, ds, hds⟩ := List.exists_cons_of_ne_nil (Nat.toDigits_ne_nil (n := m) (b := 10))
      have hd : d.isDigit = true := isDigit_of_mem_toDigits (by rw [hds]; exact List.mem_cons_self)
      obtain ⟨hlow, hhigh⟩ := toNat_of_isDigit hd
      rw [List.tail_cons, hds]
      exact not_isSeparator_of_range (by omega) (by omega)
  · have hne : ∀ {d : Char}, d.isDigit = true → d ≠ '-' ∧ d ≠ '.' := by
      intro d hd
      constructor
      · rintro rfl
        exact absurd hd (by decide)
      · rintro rfl
        exact absurd hd (by decide)
    have hdigits : ∀ m : Nat, ∃ d ds, Nat.toDigits 10 m = d :: ds ∧ d ≠ '-' ∧ d ≠ '.' := by
      intro m
      obtain ⟨d, ds, hds⟩ := List.exists_cons_of_ne_nil (Nat.toDigits_ne_nil (n := m) (b := 10))
      exact ⟨d, ds, hds, hne (isDigit_of_mem_toDigits (by rw [hds]; exact List.mem_cons_self))⟩
    cases h with
    | natural m =>
      obtain ⟨d, ds, hds, hdash, hpoint⟩ := hdigits m
      rw [hds]
      simp [isMark, List.isPrefixOf, hdash.symm, hpoint.symm]
    | negative m =>
      obtain ⟨d, ds, hds, hdash, -⟩ := hdigits m
      rw [hds]
      simp [isMark, List.isPrefixOf, hdash.symm]

theorem unquoted_plainScalar {j : Json} (h : IsBare j) : Unquoted (plainScalar j) := by
  match j with
  | .null => exact unquoted_of_cons (wordy_plainScalar h) (by decide) (by decide) (by decide)
  | .bool true => exact unquoted_of_cons (wordy_plainScalar h) (by decide) (by decide) (by decide)
  | .bool false => exact unquoted_of_cons (wordy_plainScalar h) (by decide) (by decide) (by decide)
  | .int n => exact (integerText_toString n).unquoted

theorem not_space_plainScalar {j : Json} (h : IsBare j) : ∀ c ∈ plainScalar j, c ≠ ' ' := by
  match j with
  | .null => decide
  | .bool true => decide
  | .bool false => decide
  | .int n =>
    rintro c hc rfl
    exact (integerText_toString n).not_mem (by decide) (by decide) hc

/-- A value that is no text is one token. -/
theorem goes_bare {j : Json} (h : IsBare j)
    (hp : p.rest = plainScalar j ++ '\n' :: (spaces k ++ r)) (hr : BeginsToken r)
    (hcloses : Closes is k r) (hcolumn : inner is ≤ p.column + 1)
    (hallows : allows = true → is.head? ≠ some p.column) :
    Goes (between p ts is allows none)
      (arrived (p.skip ((plainScalar j).length + 1 + k)) (.scalar true (plainScalar j) :: ts) is) :=
  goes_plain (unquoted_plainScalar h)
    (folded_word (not_space_plainScalar h) (wordy_plainScalar h).ne_nil) hp hr hcloses
    (Nat.le_succ (inner is)) (Nat.succ_pos _) hcolumn hallows

/-! ## Keys -/

/-- Behind the colon of a key in the same line. -/
def afterColon (p : Cursor) (t : Token) (column : Nat) (ts : List Token) (is : List Nat) : Lexer :=
  between p (.value :: t :: .key :: (opened .blockMapping column ts is).1)
    (opened .blockMapping column ts is).2 false none

theorem goes_colon {q : Cursor} {t : Token} {m : Lexer} (hq : q.rest = ':' :: s)
    (hs : separated s = true) (hends : Ends (afterColon q.step t p.column ts is) m) :
    Goes (between q (t :: ts) is false (some (keyPlace p ts is))) m :=
  goes_of_token hq (fun _ _ => token_colon_key hs) (length_rest_step_lt hq) hends

theorem not_isMultiline (h : isSimpleKey s = true) : isMultiline s = false := by
  rw [isSimpleKey, Bool.and_eq_true, Bool.not_eq_true'] at h
  exact h.2

theorem not_contains_feed (h : isMultiline s = false) : s.contains '\n' = false := by
  rw [← Bool.not_eq_true, List.contains_iff_mem]
  intro hmem
  rw [isMultiline, List.any_eq_false] at h
  exact h '\n' hmem (by decide)

theorem styleOf_key (h : isSimpleKey s = true) : styleOf true s = styleOf false s := by
  have hline := not_isMultiline h
  rw [isSimpleKey, Bool.and_eq_true, Bool.and_eq_true, Bool.not_eq_true', Bool.not_eq_true'] at h
  obtain ⟨⟨-, hempty⟩, -⟩ := h
  rw [styleOf, styleOf, not_contains_feed hline, hempty, hline]
  rfl

/-- On one line the place of a text does not matter. -/
theorem styled_unfolded {style : Style} (hcoded : Text.Coded s) (hstyle : style ≠ .literal)
    (hline : isMultiline s = false) (i j column column' : Nat) :
    styled style false i column s = styled style false j column' s := by
  cases style with
  | plain => exact plainBody_unfolded i j column column'
  | single =>
    have hbreaks : ∀ n ∈ Text.codes s, isBreakCode n = false :=
      fun n hn => not_isBreakCode_of_mem hcoded hline hn
    rw [styled, styled, singleBody_unfolded i j (column + 1) (column' + 1) rfl hbreaks]
  | double => rw [styled, styled, doubleBody_unfolded i j (column + 1) (column' + 1)]
  | literal => exact absurd rfl hstyle

/-- On one line no block is written. -/
theorem styleOf_ne_literal (h : isMultiline s = false) : styleOf false s ≠ .literal := by
  rw [styleOf, not_contains_feed h]
  split
  · next h => cases h
  · split
    · decide
    · split <;> decide

/-- A plain text is read up to the colon behind it. -/
theorem token_plainKey {c : Char} {t w : List Char} (hunquoted : Unquoted s)
    (hfolded : Folded (inner is + 1) true s w) (hp : p.rest = w ++ ':' :: r)
    (hr : separated r = true) (hinner : inner is ≤ p.column + 1) (hc : p.rest = c :: t)
    (hn : w.length < n) :
    (between p ts is true none).token n c t
      = .ok (between (p.skip w.length) (.scalar true s :: ts) is false
          (some (keyPlace p ts is))) := by
  obtain ⟨d, w', hw, hstart, hmark, -⟩ := hunquoted.begins (r := r) hfolded (.inr rfl)
  have hcons : p.rest = d :: (w' ++ ':' :: r) := by
    rw [hp, hw]
    rfl
  obtain ⟨rfl, rfl⟩ := List.cons.inj (hc.symm.trans hcons)
  have hgap : ∀ m, 0 < m → plainGap m (p.skip w.length) = ⟨[], false, p.skip w.length⟩ :=
    fun m _ => plainGap_spaces (k := 0) (Cursor.rest_skip_append hp) ⟨rfl, rfl⟩
  have hstops : plainStops false (':' :: r) = true := by simp [plainStops, hr]
  exact token_plain hstart hmark (plainText_of_folded hfolded hunquoted.toWordy hp hstops hinner
    (by omega) (by omega) hgap rfl (Nat.lt_of_le_of_lt hfolded.length_le hn))

/-- The scalar token of a key. -/
theorem token_key {c : Char} {t : List Char} (hcoded : Text.Coded s) (hkey : isSimpleKey s = true)
    (hp : p.rest = keyText column s ++ ':' :: r) (hr : separated r = true)
    (his : ∀ a ∈ is.head?, a ≤ p.column) (hc : p.rest = c :: t) (hn : p.rest.length < n) :
    (between p ts is true none).token n c t
      = .ok (between (p.skip (keyText column s).length) (textToken s :: ts) is false
          (some (keyPlace p ts is))) := by
  have hfits := fits_styleOf false s
  have hline := not_isMultiline hkey
  have hinner : inner is ≤ p.column + 1 := by
    cases is with
    | nil => exact Nat.zero_le _
    | cons a is => exact Nat.succ_le_succ (his a rfl)
  have hlength : (keyText column s).length < n := by
    rw [hp, List.length_append] at hn
    omega
  rw [textToken, readBack]
  rw [keyText, styleOf_key hkey] at hp hlength ⊢
  cases hstyle : styleOf false s with
  | plain =>
    rw [hstyle] at hp hfits hlength
    rw [styled_unfolded hcoded (by decide) hline 0 (inner is + 1) column column] at hp hlength ⊢
    exact token_plainKey (hfits.unquoted hcoded) (folded_styled hcoded) hp hr hinner hc hlength
  | single =>
    rw [hstyle] at hp hfits hlength
    rw [styled_unfolded hcoded (by decide) hline 0 1 column column] at hp hlength ⊢
    have hread := quotedText_single hcoded hfits (Nat.le_refl 1) hp (by simp) hlength
    have hcons : p.rest = quoteMark false :: _ := hp
    obtain ⟨rfl, rfl⟩ := List.cons.inj (hc.symm.trans hcons)
    exact token_quoted hread
  | double =>
    rw [hstyle] at hp hlength
    rw [styled_unfolded hcoded (by decide) hline 0 1 column column] at hp hlength ⊢
    have hread := quotedText_double hcoded (Nat.le_refl 1) (by decide) hp hlength
    have hcons : p.rest = quoteMark true :: _ := hp
    obtain ⟨rfl, rfl⟩ := List.cons.inj (hc.symm.trans hcons)
    exact token_quoted hread
  | literal => exact absurd hstyle (styleOf_ne_literal hline)

theorem begins_styled {style : Style} {fold : Bool} {d : Char} (hcoded : Text.Coded s)
    (h : Fits s style) (hd : d = '\n' ∨ d = ':') (r : List Char) :
    styled style fold indent column s ≠ [] ∧
      BeginsToken (styled style fold indent column s ++ d :: r) := by
  cases style with
  | plain =>
    have hfolded : Folded indent true s (styled .plain fold indent column s) :=
      folded_styled hcoded
    obtain ⟨c, w, hw, -, -, hbegins⟩ := (h.unquoted hcoded).begins (r := r) hfolded hd
    exact ⟨by rw [hw]; exact List.cons_ne_nil c w, hbegins⟩
  | single => exact ⟨List.cons_ne_nil _ _, ⟨rfl, rfl⟩, by simp [styled]⟩
  | double => exact ⟨List.cons_ne_nil _ _, ⟨rfl, rfl⟩, by simp [styled]⟩
  | literal => exact ⟨List.cons_ne_nil _ _, ⟨rfl, rfl⟩, by simp [styled]⟩

theorem beginsToken_textLine (hcoded : Text.Coded s) (r : List Char) :
    BeginsToken (textLine indent column s ++ r) := by
  have hfits := fits_styleOf false s
  rw [textLine]
  cases hstyle : styleOf false s with
  | literal => exact ⟨⟨rfl, rfl⟩, by simp [styled]⟩
  | _ =>
    rw [hstyle] at hfits
    rw [if_neg (by decide), List.append_assoc]
    exact (begins_styled hcoded hfits (.inl rfl) r).2

theorem begins_keyText (hcoded : Text.Coded s) (r : List Char) :
    keyText column s ≠ [] ∧ BeginsToken (keyText column s ++ ':' :: r) :=
  begins_styled hcoded (fits_styleOf true s) (.inr rfl) r

theorem inline_keyText (hcoded : Text.Coded s) (hkey : isSimpleKey s = true) :
    Inline (keyText column s) := by
  have hline := not_isMultiline hkey
  rw [keyText, styleOf_key hkey]
  exact inline_styled hcoded (fits_styleOf false s) (styleOf_ne_literal hline) hline

/-- A text that its colon follows closely is a key. -/
theorem goes_key {m : Lexer} (hcoded : Text.Coded s) (hkey : isSimpleKey s = true)
    (hreach : (Text.codes (keyText column s)).length ≤ keyReach)
    (hp : p.rest = keyText column s ++ ':' :: r) (hr : separated r = true)
    (his : ∀ a ∈ is.head?, a ≤ p.column)
    (hends : Ends (afterColon (p.skip ((keyText column s).length + 1)) (textToken s) p.column ts is)
      m) :
    Goes (between p ts is true none) m := by
  have hinline : Inline (keyText column s) := inline_keyText hcoded hkey
  have hne : keyText column s ≠ [] := (begins_keyText hcoded r).1
  obtain ⟨c, w, hw⟩ := List.exists_cons_of_ne_nil hne
  have hc : p.rest = c :: (w ++ ':' :: r) := by
    rw [hp, hw]
    rfl
  have hrest := Cursor.rest_skip_append hp
  have hcolumn := Cursor.column_skip_inline hp hinline
  have hstale : isStale (p.skip (keyText column s).length) (keyPlace p ts is) = false := by
    have hindex := Cursor.index_skip_inline hp hinline rfl
    rw [isStale, keyPlace, Cursor.line_skip_inline hp hinline, hindex, bne_self_eq_false,
      Bool.false_or, decide_eq_false_iff_not]
    dsimp only
    omega
  have harrives : Arrives
      (between (p.skip (keyText column s).length) (textToken s :: ts) is false
        (some (keyPlace p ts is)))
      (between (p.skip (keyText column s).length) (textToken s :: ts) is false
        (some (keyPlace p ts is))) :=
    arrives_here (k := 0) hrest ⟨⟨rfl, rfl⟩, by simp⟩
      (fun a ha => Nat.le_trans (his a ha) hcolumn)
      (fun kp hkp => by obtain rfl := Option.some.inj hkp; exact hstale)
  refine goes_of_token hc (fun n hn => token_key hcoded hkey hp hr his hc hn) ?_
    (harrives.ends.trans (goes_colon hrest hr ?_))
  · show (p.skip _).rest.length < p.rest.length
    rw [hrest, hc, List.length_cons, List.length_cons, List.length_append, List.length_cons]
    omega
  · rwa [Cursor.skip_add] at hends

end AppPipeline.Yaml
