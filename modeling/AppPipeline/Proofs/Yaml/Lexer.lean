import AppPipeline.Proofs.Yaml.Literal
import AppPipeline.Proofs.Yaml.Plain
import AppPipeline.Yaml.Token

/-!
# Steps of the lexer

Between two tokens of a text in blocks the lexer is described by its place, its tokens,
the open collections and perhaps the place of a key (`between`). `Leads` relates two
such states of one run. Here are the steps over single marks and to the next token.
-/

namespace AppPipeline.Yaml.Lexer

variable {p : Cursor} {ts : List Token} {is : List Nat} {allows : Bool} {key : Option KeyPlace}
variable {r s : List Char} {c : Char} {k n : Nat}

/-! ## Runs -/

/-- A run from the first state goes on as one from the second. -/
def Leads (l l' : Lexer) : Prop :=
  ∀ n, l.place.rest.length + 1 < n →
    ∃ m, l'.place.rest.length + 1 < m ∧ l.run n = l'.run m

theorem Leads.refl (l : Lexer) : Leads l l := fun n hn => ⟨n, hn, rfl⟩

theorem Leads.trans {l l' l'' : Lexer} (h : Leads l l') (h' : Leads l' l'') : Leads l l'' := by
  intro n hn
  obtain ⟨m, hm, hrun⟩ := h n hn
  obtain ⟨k, hk, hrun'⟩ := h' m hm
  exact ⟨k, hk, hrun.trans hrun'⟩

/-- The next token is read in the second state. -/
structure Arrives (l m : Lexer) : Prop where
  keys : l.keys.length ≤ mostOpen
  le : m.place.rest.length ≤ l.place.rest.length
  next : ∀ n, l.place.rest.length < n → l.toNext n = .ok m

/-- Some tokens are read; then the next one is read in the second state. -/
def Ends (l m : Lexer) : Prop := ∃ l', Leads l l' ∧ Arrives l' m

theorem Arrives.ends {l m : Lexer} (h : Arrives l m) : Ends l m := ⟨l, .refl l, h⟩

/-- Whoever is about to read a token in the first state comes to read one in the second. -/
def Goes (m m' : Lexer) : Prop := ∀ l, Arrives l m → Ends l m'

theorem Ends.trans {l m m' : Lexer} (h : Ends l m) (h' : Goes m m') : Ends l m' := by
  obtain ⟨l', hleads, harrives⟩ := h
  obtain ⟨l'', hleads', harrives'⟩ := h' l' harrives
  exact ⟨l'', hleads.trans hleads', harrives'⟩

theorem Goes.trans {m m' m'' : Lexer} (h : Goes m m') (h' : Goes m' m'') : Goes m m'' :=
  fun l hl => (h l hl).trans h'

theorem leads_of_token {l m l' : Lexer} (h : Arrives l m) (hm : m.place.rest = c :: s)
    (htoken : ∀ n, m.place.rest.length < n → m.token n c s = .ok l')
    (hlt : l'.place.rest.length < m.place.rest.length) : Leads l l' := by
  intro n hn
  obtain ⟨n, rfl⟩ : ∃ k, n = k + 1 := ⟨n - 1, by omega⟩
  have hle := h.le
  have hkeys := h.keys
  refine ⟨n, by omega, ?_⟩
  rw [run, if_neg (by omega), h.next n (by omega)]
  simp only [hm, htoken n (by omega)]

/-- One token is read, and then others. -/
theorem goes_of_token {m l m' : Lexer} (hm : m.place.rest = c :: s)
    (htoken : ∀ n, m.place.rest.length < n → m.token n c s = .ok l)
    (hlt : l.place.rest.length < m.place.rest.length) (hends : Ends l m') : Goes m m' := by
  intro l₀ harrives
  obtain ⟨l', hleads, hl'⟩ := hends
  exact ⟨l', (leads_of_token harrives hm htoken hlt).trans hleads, hl'⟩

/-! ## States between tokens -/

/-- Outside flow collections. -/
def between (p : Cursor) (ts : List Token) (is : List Nat) (allows : Bool)
    (key : Option KeyPlace) : Lexer :=
  ⟨p, ts, ts.length, is, allows, [key]⟩

/-- The tokens and the open collections once those right of column `k` are ended. -/
def unwound (k : Nat) : List Token → List Nat → List Token × List Nat
  | ts, [] => (ts, [])
  | ts, a :: is => if k < a then unwound k (.blockEnd :: ts) is else (ts, a :: is)

/-- Right before a token that begins a line. -/
def arrived (p : Cursor) (ts : List Token) (is : List Nat) : Lexer :=
  between p (unwound p.column ts is).1 (unwound p.column ts is).2 true none

theorem unwound_eq (k : Nat) (ts : List Token) (is : List Nat) :
    unwound k ts is = (List.replicate (is.takeWhile (k < ·)).length .blockEnd ++ ts,
      is.drop (is.takeWhile (k < ·)).length) := by
  induction is generalizing ts with
  | nil => rfl
  | cons a is ih =>
    rw [unwound, List.takeWhile_cons]
    by_cases h : k < a
    · rw [if_pos h, if_pos (by simpa using h), ih, List.length_cons, List.replicate_succ',
        List.append_assoc]
      rfl
    · rw [if_neg h, if_neg (by simpa using h)]
      rfl

theorem unwind_between :
    (between p ts is allows key).unwind (fun column => p.column < column)
      = between p (unwound p.column ts is).1 (unwound p.column ts is).2 allows key := by
  rw [unwound_eq, unwind, between, between]
  simp only [inFlow, List.length_singleton, Nat.lt_irrefl, decide_false, Bool.false_eq_true,
    if_false, List.length_append, List.length_replicate]
  rw [Nat.add_comm]

theorem unwound_of_le (h : ∀ a ∈ is.head?, a ≤ k) : unwound k ts is = (ts, is) := by
  cases is with
  | nil => rfl
  | cons a is => rw [unwound, if_neg (Nat.not_lt.2 (h a rfl))]

/-! ## To the next token -/

/-- What may begin a token: no space, no line end and no comment. -/
structure BeginsToken (s : List Char) : Prop extends BeginsLine s where
  not_comment : s.head? ≠ some '#'

theorem skipComment_eq (hp : p.rest = spaces k ++ r) (hspace : r.head?.any (· == ' ') = false)
    (hcomment : r.head? ≠ some '#') : p.skipComment = p.skip k := by
  have hrest : (p.skip k).rest = r := Cursor.rest_skip_spaces hp
  rw [Cursor.skipComment, Cursor.skipSpaces_eq hp hspace]
  simp only [hrest, beq_iff_eq, hcomment, if_false]

theorem toToken_here {l : Lexer} (hp : l.place.rest = spaces k ++ r) (hr : BeginsToken r)
    (hn : 0 < n) : l.toToken n = { l with place := l.place.skip k } := by
  obtain ⟨n, rfl⟩ : ∃ m, n = m + 1 := ⟨n - 1, by omega⟩
  have hrest : (l.place.skip k).rest = r := Cursor.rest_skip_spaces hp
  have hnone : (l.place.skip k).lineEnd? = none :=
    Cursor.lineEnd?_eq_none (by rw [hrest]; exact hr.not_lineEnd)
  simp only [toToken, skipComment_eq hp hr.not_space hr.not_comment, hnone]

theorem toToken_line {l : Lexer} (hp : l.place.rest = '\n' :: (spaces k ++ r))
    (hr : BeginsToken r) (hflow : l.inFlow = false) (hn : 1 < n) :
    l.toToken n = { l with place := l.place.skip (k + 1), allowsKey := true } := by
  obtain ⟨n, rfl⟩ : ∃ m, n = m + 1 := ⟨n - 1, by omega⟩
  have hstay : l.place.skipComment = l.place := skipComment_eq (k := 0) hp rfl (by simp)
  have hend := Cursor.lineEnd?_eq_some hp (by decide)
  simp only [toToken, hstay, hend, hflow, Bool.not_false, Bool.or_true]
  exact toToken_here (l := { l with place := l.place.step, allowsKey := true })
    (Cursor.rest_step_cons hp) hr (by omega)

theorem dropStale_between (h : ∀ kp ∈ key, kp.required = true → isStale p kp = false) :
    (between p ts is allows key).dropStale
      = .ok (between p ts is allows (key.filter fun kp => !isStale p kp)) := by
  rw [dropStale, between]
  rw [if_neg]
  · rfl
  · cases key with
    | none => simp
    | some kp =>
      simp only [List.any_cons, List.any_nil, Option.any_some, Bool.or_false, Bool.and_eq_true,
        not_and, Bool.not_eq_true]
      exact h kp rfl

theorem toNext_between {q : Cursor} {allows' : Bool}
    (htoken : (between p ts is allows key).toToken n = between q ts is allows' key)
    (hkey : ∀ kp ∈ key, kp.required = true → isStale q kp = false) :
    (between p ts is allows key).toNext n
      = .ok (between q (unwound q.column ts is).1 (unwound q.column ts is).2 allows'
          (key.filter fun kp => !isStale q kp)) := by
  rw [toNext, htoken, dropStale_between hkey]
  show Except.ok ((between q ts is allows' _).unwind fun column => q.column < column) = _
  rw [unwind_between]

theorem keys_between_le : (between p ts is allows key).keys.length ≤ mostOpen := by
  show 1 ≤ mostOpen
  decide

/-- The next token stands in the same line, where no collection ends. -/
theorem arrives_here (hp : p.rest = spaces k ++ r) (hr : BeginsToken r)
    (his : ∀ a ∈ is.head?, a ≤ (p.skip k).column)
    (hkey : ∀ kp ∈ key, isStale (p.skip k) kp = false) :
    Arrives (between p ts is allows key) (between (p.skip k) ts is allows key) := by
  refine ⟨keys_between_le, ?_, fun n hn => ?_⟩
  · show (p.skip k).rest.length ≤ p.rest.length
    rw [Cursor.rest_skip, List.length_drop]
    exact Nat.sub_le _ _
  · have htoken : (between p ts is allows key).toToken n = between (p.skip k) ts is allows key :=
      toToken_here (l := between p ts is allows key) hp hr (by omega)
    rw [toNext_between htoken fun kp h _ => hkey kp h, unwound_of_le his]
    congr 2
    cases key with
    | none => rfl
    | some kp => rw [Option.filter_some, hkey kp rfl]; rfl

/-- The place of a key that can be none. -/
def Passed (line : Nat) (key : Option KeyPlace) : Prop :=
  ∀ kp ∈ key, kp.required = false ∧ kp.line < line

theorem Passed.filter_eq_none {q : Cursor} (h : Passed q.line key) :
    (key.filter fun kp => !isStale q kp) = none := by
  cases key with
  | none => rfl
  | some kp =>
    have hline := (h kp rfl).2
    have hne : (kp.line != q.line) = true := bne_iff_ne.2 (by omega)
    rw [Option.filter_some, isStale, hne]
    rfl

/-- The next token stands where the line begins. -/
theorem arrives_begun (hr : BeginsToken p.rest) (hkey : Passed p.line key) :
    Arrives (between p ts is true key) (arrived p ts is) := by
  refine ⟨keys_between_le, Nat.le_refl _, fun n hn => ?_⟩
  have htoken : (between p ts is true key).toToken n = between p ts is true key :=
    toToken_here (l := between p ts is true key) (k := 0) rfl hr (by omega)
  rw [toNext_between htoken fun kp h hrequired => absurd hrequired (by rw [(hkey kp h).1]; decide),
    hkey.filter_eq_none]
  rfl

/-- The next token stands in the next line. -/
theorem arrives_line (hp : p.rest = '\n' :: (spaces k ++ r)) (hr : BeginsToken r)
    (hkey : Passed (p.line + 1) key) :
    Arrives (between p ts is allows key) (arrived (p.skip (k + 1)) ts is) := by
  have hpassed : Passed (p.skip (k + 1)).line key := by
    intro kp h
    have hline := Cursor.line_lt_skip (w := []) (n := k + 1) hp (by decide) (Nat.succ_pos k)
    exact ⟨(hkey kp h).1, by have := (hkey kp h).2; omega⟩
  refine ⟨keys_between_le, ?_, fun n hn => ?_⟩
  · show (p.skip (k + 1)).rest.length ≤ p.rest.length
    rw [Cursor.rest_skip, List.length_drop]
    exact Nat.sub_le _ _
  · have hlength : 1 < n := by
      have : (between p ts is allows key).place.rest.length = p.rest.length := rfl
      rw [this, hp, List.length_cons] at hn
      omega
    have htoken : (between p ts is allows key).toToken n
        = between (p.skip (k + 1)) ts is true key :=
      toToken_line (l := between p ts is allows key) hp hr rfl hlength
    rw [toNext_between htoken fun kp h hrequired =>
      absurd hrequired (by rw [(hpassed kp h).1]; decide), hpassed.filter_eq_none]
    rfl

/-! ## Marks -/

/-- The tokens and the open collections once a collection is opened at a column, unless one is
open there. -/
def opened (t : Token) (column : Nat) (ts : List Token) (is : List Nat) : List Token × List Nat :=
  if ∀ a ∈ is.head?, a < column then (t :: ts, column :: is) else (ts, is)

theorem opened_of_lt {t : Token} {column : Nat} (h : ∀ a ∈ is.head?, a < column) :
    opened t column ts is = (t :: ts, column :: is) := if_pos h

theorem opened_of_eq {t : Token} (a : Nat) : opened t a ts (a :: is) = (ts, a :: is) := by
  rw [opened, if_neg]
  intro h
  exact Nat.lt_irrefl a (h a rfl)

theorem innerIndent_le_iff :
    (between p ts is allows key).innerIndent ≤ k ↔ ∀ a ∈ is.head?, a < k := by
  rw [between, innerIndent]
  cases is with
  | nil => simp
  | cons a is => exact ⟨fun h b hb => Option.some.inj hb ▸ h, fun h => h a rfl⟩

theorem openBlock_between (t : Token) :
    (between p ts is allows key).openBlock t
      = between p (opened t p.column ts is).1 (opened t p.column ts is).2 allows key := by
  rw [openBlock, opened]
  show (if (between p ts is allows key).innerIndent ≤ p.column then _ else _) = _
  by_cases h : ∀ a ∈ is.head?, a < p.column
  · rw [if_pos (innerIndent_le_iff.2 h), if_pos h]
    rfl
  · rw [if_neg (fun h' => h (innerIndent_le_iff.1 h')), if_neg h]

theorem length_rest_step_lt (hp : p.rest = c :: s) : p.step.rest.length < p.rest.length := by
  rw [Cursor.rest_step_cons hp, hp]
  exact Nat.lt_succ_self _

theorem not_isDocumentMark_hyphen (hs : separated s = true) :
    isDocumentMark ('-' :: s) = false := by
  cases s with
  | nil => rfl
  | cons d s =>
    have hd : d ≠ '-' := by
      rintro rfl
      exact absurd hs (show ¬isSeparator '-' = true by decide)
    rw [isDocumentMark, isMark]
    simp [hd.symm]

theorem token_hyphen (hs : separated s = true) :
    (between p ts is true none).token n '-' s
      = .ok (between p.step (.blockEntry :: (opened .blockSequence p.column ts is).1)
          (opened .blockSequence p.column ts is).2 true none) := by
  have htoken : (between p ts is true none).token n '-' s = (between p ts is true none).hyphen := by
    simp [token, not_isDocumentMark_hyphen hs, hs]
  rw [htoken, hyphen]
  simp only [between, inFlow, List.length_singleton, Nat.lt_irrefl, decide_false, Bool.not_false,
    Bool.not_true, Bool.and_false, Bool.false_eq_true, if_false]
  rw [← between, openBlock_between]
  rfl

theorem token_questionMark (hs : separated s = true) :
    (between p ts is true none).token n '?' s
      = .ok (between p.step (.key :: (opened .blockMapping p.column ts is).1)
          (opened .blockMapping p.column ts is).2 true none) := by
  have htoken : (between p ts is true none).token n '?' s
      = (between p ts is true none).questionMark := by
    simp [token, hs]
  rw [htoken, questionMark]
  simp only [between, inFlow, List.length_singleton, Nat.lt_irrefl, decide_false, Bool.not_false,
    Bool.not_true, Bool.and_false, Bool.false_eq_true, if_false]
  rw [← between, openBlock_between]
  rfl

/-- A colon behind a key that a question mark began. -/
theorem token_colon (hs : separated s = true) :
    (between p ts is true none).token n ':' s
      = .ok (between p.step (.value :: (opened .blockMapping p.column ts is).1)
          (opened .blockMapping p.column ts is).2 true none) := by
  have htoken : (between p ts is true none).token n ':' s
      = (between p ts is true none).colon := by
    simp [token, hs]
  rw [htoken, colon]
  simp only [between, inFlow, List.length_singleton, Nat.lt_irrefl, decide_false, Bool.not_false,
    Bool.not_true, Bool.and_false, Bool.false_eq_true, if_false]
  rw [← between, openBlock_between]
  rfl

/-- The place where a key may begin. -/
def keyPlace (p : Cursor) (ts : List Token) (is : List Nat) : KeyPlace :=
  ⟨ts.length, is.head? == some p.column, p.index, p.line, p.column⟩

theorem insertKey_between {q : Cursor} {t : Token} :
    insertKey (keyPlace p ts is) (between q (t :: ts) is false none)
      = between q (t :: .key :: (opened .blockMapping p.column ts is).1)
          (opened .blockMapping p.column ts is).2 false none := by
  have hcount : (between q (t :: ts) is false none).count - (keyPlace p ts is).tokens = 1 := by
    show (t :: ts).length - ts.length = 1
    rw [List.length_cons]
    omega
  rw [insertKey, hcount, opened]
  show (if (true && decide ((between q (t :: ts) is false none).innerIndent ≤ p.column)) = true
    then _ else _) = _
  by_cases h : ∀ a ∈ is.head?, a < p.column
  · have hopen :
        (true && decide ((between q (t :: ts) is false none).innerIndent ≤ p.column)) = true :=
      decide_eq_true (innerIndent_le_iff.2 h)
    rw [if_pos hopen, if_pos h]
    rfl
  · have hclosed : ¬(true && decide ((between q (t :: ts) is false none).innerIndent ≤ p.column))
        = true := fun h' => h (innerIndent_le_iff.1 (of_decide_eq_true h'))
    rw [if_neg hclosed, if_neg h]
    rfl

/-- A colon behind a key in the same line. -/
theorem token_colon_key {q : Cursor} {t : Token} (hs : separated s = true) :
    (between q (t :: ts) is false (some (keyPlace p ts is))).token n ':' s
      = .ok (between q.step (.value :: t :: .key :: (opened .blockMapping p.column ts is).1)
          (opened .blockMapping p.column ts is).2 false none) := by
  have htoken : (between q (t :: ts) is false (some (keyPlace p ts is))).token n ':' s
      = (between q (t :: ts) is false (some (keyPlace p ts is))).colon := by
    simp [token, hs]
  rw [htoken, colon]
  show (fun l : Lexer =>
      Except.ok (push .value { l with place := l.place.step, allowsKey := false }))
    (insertKey (keyPlace p ts is) (between q (t :: ts) is false none)) = _
  rw [insertKey_between]
  rfl

/-! ## Scalars -/

/-- The least indentation of what belongs to the open collections. -/
def inner : List Nat → Nat
  | [] => 0
  | a :: _ => a + 1

theorem innerIndent_between : (between p ts is allows key).innerIndent = inner is := by
  cases is <;> rfl

/-- The key that a scalar may become. -/
def marked (allows : Bool) (p : Cursor) (ts : List Token) (is : List Nat) : Option KeyPlace :=
  if allows then some (keyPlace p ts is) else none

theorem markKey_between :
    (between p ts is allows none).markKey
      = .ok (between p ts is allows (marked allows p ts is)) := by
  cases allows <;> rfl

theorem token_quoted {double : Bool} {cs : List Char} {q : Cursor}
    (h : quotedText double n p = .ok (cs, q)) :
    (between p ts is allows none).token n (quoteMark double) s
      = .ok (between q (.scalar false cs :: ts) is false (marked allows p ts is)) := by
  have htoken : (between p ts is allows none).token n (quoteMark double) s
      = (between p ts is allows none).nodeStart (quotedScalar double n) := by
    cases double
    · simp [token, quoteMark]
    · simp [token, quoteMark]
  rw [htoken, nodeStart, markKey_between]
  show (quotedText double n p >>= fun x => Except.ok (Token.scalar false x.1, x.2)) >>= _ = _
  rw [h]
  rfl

theorem token_literal {cs : List Char} {q : Cursor}
    (h : blockText false (inner is) n p = .ok (cs, q)) :
    (between p ts is allows none).token n '|' s
      = .ok (between q (.scalar false cs :: ts) is true none) := by
  have htoken : (between p ts is allows none).token n '|' s
      = (between p ts is allows none).blockScalar false n := by
    simp [token, between, inFlow]
  have hdrop : (between p ts is allows none).dropKey = .ok (between p ts is allows none) := rfl
  rw [htoken, blockScalar, hdrop]
  show (blockText false (between p ts is allows none).innerIndent n p >>= _) = _
  rw [innerIndent_between, h]
  rfl

theorem token_eq_plainScalar (hstart : startsPlain false c s = true)
    (hmark : isDocumentMark (c :: s) = false) :
    (between p ts is allows none).token n c s = (between p ts is allows none).plainScalar n := by
  have hflow : (between p ts is allows none).inFlow = false := rfl
  by_cases hc : leadingMarks.contains c = true
  · have hsep : separated s = false := by
      rw [startsPlain, if_pos hc, Bool.and_eq_true, Bool.not_eq_true'] at hstart
      exact hstart.1
    have hcases : c = '-' ∨ c = '?' ∨ c = ':' := by simpa [leadingMarks] using hc
    rcases hcases with rfl | rfl | rfl
    · simp [token, hmark, hsep, hflow, hstart]
    · simp [token, hsep, hflow, hstart]
    · simp [token, hsep, hflow, hstart]
  · have hother : ∀ d ∈ leadingMarks, (c == d) = false := by
      rintro d hd
      rw [beq_eq_false_iff_ne]
      rintro rfl
      exact hc (List.contains_iff_mem.2 hd)
    have hindicator : ∀ d ∈ leadingIndicators, (c == d) = false := by
      rintro d hd
      rw [beq_eq_false_iff_ne]
      rintro rfl
      rw [startsPlain, if_neg hc, List.contains_iff_mem.2 hd] at hstart
      simp at hstart
    simp only [token, hflow, hstart, hother '-' (by decide), hother '?' (by decide),
      hother ':' (by decide), hindicator '%' (by decide), hindicator '[' (by decide),
      hindicator ']' (by decide), hindicator '\x7b' (by decide), hindicator '\x7d' (by decide),
      hindicator ',' (by decide), hindicator '*' (by decide), hindicator '&' (by decide),
      hindicator '!' (by decide), hindicator '|' (by decide), hindicator '>' (by decide),
      hindicator '\'' (by decide), hindicator '"' (by decide), hmark, Bool.false_and,
      Bool.and_false,
      Bool.false_eq_true, if_false, if_true]

/-- The token of a text that is not quoted. -/
theorem token_plain {g : Gap} (hstart : startsPlain false c s = true)
    (hmark : isDocumentMark (c :: s) = false)
    (h : plainText false (inner is) n ⟨[], false, p⟩ = g) :
    (between p ts is allows none).token n c s
      = .ok (between g.after (.scalar true g.text :: ts) is g.crossed (marked allows p ts is)) := by
  subst h
  rw [token_eq_plainScalar hstart hmark, plainScalar, markKey_between, ← innerIndent_between]
  rfl

/-! ## Empty collections -/

/-- Right behind the first mark of a collection on one line. -/
def inside (p : Cursor) (ts : List Token) (is : List Nat) (key : Option KeyPlace) : Lexer :=
  ⟨p, ts, ts.length, is, true, [none, key]⟩

/-- The marks of empty collections and their tokens. -/
inductive Bracket : Char → Char → Token → Token → Prop
  | list : Bracket '[' ']' .flowSequence .flowSequenceEnd
  | map : Bracket '\x7b' '\x7d' .flowMapping .flowMappingEnd

variable {first last : Char} {start stop : Token}

theorem Bracket.token_first (h : Bracket first last start stop) :
    (between p ts is allows none).token n first s
      = .ok (inside p.step (start :: ts) is (marked allows p ts is)) := by
  have htoken : (between p ts is allows none).token n first s
      = (between p ts is allows none).openFlow start := by
    cases h
    · simp [token]
    · simp [token]
  rw [htoken, openFlow, markKey_between]
  rfl

theorem Bracket.token_last (h : Bracket first last start stop) :
    (inside p ts is key).token n last s = .ok (between p.step (stop :: ts) is false key) := by
  have htoken : (inside p ts is key).token n last s = (inside p ts is key).closeFlow stop := by
    cases h
    · simp [token]
    · simp [token]
  rw [htoken, closeFlow]
  rfl

theorem Bracket.beginsToken_last (h : Bracket first last start stop) (s : List Char) :
    BeginsToken (last :: s) := by
  cases h
  · exact ⟨⟨rfl, rfl⟩, by simp⟩
  · exact ⟨⟨rfl, rfl⟩, by simp⟩

theorem arrives_inside (hr : BeginsToken p.rest) (hkey : ∀ kp ∈ key, isStale p kp = false) :
    Arrives (inside p ts is key) (inside p ts is key) := by
  refine ⟨show 2 ≤ mostOpen by decide, Nat.le_refl _, fun n hn => ?_⟩
  have htoken : (inside p ts is key).toToken n = inside p ts is key :=
    toToken_here (l := inside p ts is key) (k := 0) rfl hr (by omega)
  have hstale : (inside p ts is key).dropStale = .ok (inside p ts is key) := by
    cases key with
    | none => rfl
    | some kp =>
      have hkp := hkey kp rfl
      simp [dropStale, inside, hkp]
  rw [toNext, htoken, hstale]
  rfl

theorem marked_required (h : allows = true → is.head? ≠ some p.column) :
    ∀ kp ∈ marked allows p ts is, kp.required = false ∧ kp.line = p.line ∧ kp.index = p.index := by
  intro kp hkp
  cases allows with
  | false => cases hkp
  | true =>
    obtain rfl := Option.some.inj hkp
    exact ⟨beq_eq_false_iff_ne.2 (h rfl), rfl, rfl⟩

/-- A key that is not required is passed once the line is. -/
theorem passed_marked (h : allows = true → is.head? ≠ some p.column) {line : Nat}
    (hline : p.line < line) : Passed line (marked allows p ts is) := by
  intro kp hkp
  obtain ⟨hrequired, hkp, -⟩ := marked_required h kp hkp
  exact ⟨hrequired, by omega⟩

/-- An empty collection on a line of its own. -/
theorem goes_bracket (h : Bracket first last start stop)
    (hp : p.rest = first :: last :: '\n' :: (spaces k ++ r)) (hr : BeginsToken r)
    (hallows : allows = true → is.head? ≠ some p.column) :
    Goes (between p ts is allows none) (arrived (p.skip (3 + k)) (stop :: start :: ts) is) := by
  have hfirst : endsLine first = false ∧ endsLine last = false := by cases h <;> decide
  have hrest := Cursor.rest_step_cons hp
  have hrest₂ := Cursor.rest_step_cons hrest
  have hline : p.step.line = p.line := Cursor.line_step_inline hp hfirst.1
  have hline₂ : p.step.step.line = p.line :=
    (Cursor.line_step_inline hrest hfirst.2).trans hline
  have hindex : p.step.index ≤ p.index + 1 := by
    rw [Cursor.step_eq_of_inline hp hfirst.1]
    split
    · exact Nat.le_succ _
    · exact Nat.le_refl _
  have hstale : ∀ kp ∈ marked allows p ts is, isStale p.step kp = false := by
    intro kp hkp
    obtain ⟨-, hkline, hkindex⟩ := marked_required hallows kp hkp
    rw [isStale, hkline, hkindex, hline, bne_self_eq_false, Bool.false_or, decide_eq_false_iff_not]
    have : (1 : Nat) ≤ keyReach := by decide
    omega
  have hend : Arrives (between p.step.step (stop :: start :: ts) is false (marked allows p ts is))
      (arrived (p.step.step.skip (k + 1)) (stop :: start :: ts) is) :=
    arrives_line hrest₂ hr (passed_marked hallows (by omega))
  refine goes_of_token hp (fun n _ => h.token_first) (length_rest_step_lt hp) ?_
  refine (arrives_inside (by rw [hrest]; exact h.beginsToken_last _) hstale).ends.trans ?_
  refine goes_of_token hrest (fun n _ => h.token_last) (length_rest_step_lt hrest) ?_
  rw [show 3 + k = k + 1 + 1 + 1 by omega]
  exact hend.ends

end AppPipeline.Yaml.Lexer
