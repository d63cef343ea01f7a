import AppPipeline.Proofs.Yaml.Blocks

/-!
# Tokens of written data

`valueTokens` are the tokens that written data are cut into. A part of a collection is an
item or an entry at the column of the collection; one induction over parts
(`goes_parts`) serves lists and mappings, and `Legible.lexes` follows the data.
-/

namespace AppPipeline.Yaml

open Lexer

/-! ## Tokens -/

mutual

/-- The tokens of a value. A list that is `bare` has no start and no end. -/
def valueTokens (bare : Bool) : Json → List Token
  | .str s => [textToken s.toList]
  | .list xs =>
    if xs.isEmpty then [.flowSequence, .flowSequenceEnd]
    else if bare then itemTokens xs
    else .blockSequence :: itemTokens xs ++ [.blockEnd]
  | .object es =>
    if es.isEmpty then [.flowMapping, .flowMappingEnd]
    else .blockMapping :: entryTokens es ++ [.blockEnd]
  | j => [.scalar true (plainScalar j)]
termination_by structural j => j

def itemTokens : List Json → List Token
  | [] => []
  | x :: xs => .blockEntry :: valueTokens false x ++ itemTokens xs
termination_by structural xs => xs

def entryTokens : List (String × Json) → List Token
  | [] => []
  | (k, v) :: es =>
    .key :: textToken k.toList :: .value :: valueTokens (isSimpleKey k.toList) v
      ++ entryTokens es
termination_by structural es => es

end

variable {p q : Cursor} {ts ts' : List Token} {is is' : List Nat} {allows bare : Bool}
variable {s r : List Char} {a b i k column : Nat} {j : Json}
variable {xs : List Json} {es : List (String × Json)}

/-- The tokens of an entry. -/
def tokensOfEntry (e : String × Json) : List Token :=
  .key :: textToken e.1.toList :: .value :: valueTokens (isSimpleKey e.1.toList) e.2

theorem itemTokens_eq (xs : List Json) :
    itemTokens xs = xs.flatMap fun x => .blockEntry :: valueTokens false x := by
  induction xs with
  | nil => rfl
  | cons x xs ih => rw [itemTokens, ih, List.flatMap_cons]

theorem entryTokens_eq (es : List (String × Json)) : entryTokens es = es.flatMap tokensOfEntry := by
  induction es with
  | nil => rfl
  | cons e es ih => rw [entryTokens, ih, List.flatMap_cons, tokensOfEntry]

theorem valueTokens_bare (h : IsBare j) : valueTokens bare j = [.scalar true (plainScalar j)] := by
  cases j <;> first | rfl | exact absurd h id

theorem valueTokens_list (hxs : xs ≠ []) : valueTokens bare (.list xs) =
    if bare then itemTokens xs else .blockSequence :: itemTokens xs ++ [.blockEnd] := by
  rw [valueTokens, if_neg (by rwa [List.isEmpty_iff])]

theorem valueTokens_object (hes : es ≠ []) :
    valueTokens bare (.object es) = .blockMapping :: entryTokens es ++ [.blockEnd] := by
  rw [valueTokens, if_neg (by rwa [List.isEmpty_iff])]

/-! ## Parts of collections -/

theorem arrived_eq (h : ∀ a ∈ is.head?, a ≤ p.column) :
    arrived p ts is = between p ts is true none := by
  rw [arrived, unwound_of_le h]

theorem le_of_mem_head (b : Nat) (is : List Nat) : ∀ c ∈ (b :: is).head?, c ≤ b := by
  intro c hc
  obtain rfl := Option.some.inj hc
  exact Nat.le_refl _

theorem column_skip_feed (hp : p.rest = '\n' :: (spaces b ++ r)) : (p.skip (b + 1)).column = b := by
  have hline : WholeLines ['\n'] := rfl
  rw [Nat.add_comm]
  exact hline.column_skip hp

/-- A collection ends before a column left of its own. -/
theorem arrived_cons (h : p.column < b) :
    arrived p ts (b :: is) = arrived p (.blockEnd :: ts) is := by
  rw [arrived, unwound, if_pos h, arrived]

/-- A text with its tokens that is a part of a collection at column `b`. The first part may open
the collection. -/
structure IsPart (start : Token) (b : Nat) (w : List Char) (us : List Token) : Prop where
  begins : ∀ s, BeginsToken (w ++ s)
  lines : WholeLines w
  goes : ∀ {q ts is ts' is' k r}, opened start b ts is = (ts', b :: is') →
    (∀ a ∈ is.head?, a ≤ b) → q.column = b → q.rest = w ++ (spaces k ++ r) → k ≤ b →
    BeginsToken r →
    Goes (between q ts is true none)
      (arrived (q.skip (w.length + k)) (us.reverse ++ ts') (b :: is'))

/-- The texts of parts, the first behind a mark. -/
def stacked {α : Type} (b : Nat) (text : α → List Char) : List α → List Char
  | [] => []
  | x :: xs => text x ++ xs.flatMap fun y => spaces b ++ text y

theorem stacked_cons_cons {α : Type} (text : α → List Char) (x y : α) (ys : List α) :
    stacked b text (x :: y :: ys) = text x ++ (spaces b ++ stacked b text (y :: ys)) := by
  rw [stacked, stacked, List.flatMap_cons, List.append_assoc]

/-- The parts of a collection are read one after another. -/
theorem goes_parts {α : Type} {start : Token} {text : α → List Char} {tokens : α → List Token}
    {x : α} {xs : List α} (h : ∀ y ∈ x :: xs, IsPart start b (text y) (tokens y))
    (hopen : opened start b ts is = (ts', b :: is')) (his : ∀ a ∈ is.head?, a ≤ b)
    (hcolumn : q.column = b) (hq : q.rest = stacked b text (x :: xs) ++ (spaces k ++ r))
    (hk : k ≤ b) (hr : BeginsToken r) :
    Goes (between q ts is true none)
      (arrived (q.skip ((stacked b text (x :: xs)).length + k))
        (((x :: xs).flatMap tokens).reverse ++ ts') (b :: is')) := by
  induction xs generalizing x q ts is ts' is' with
  | nil =>
    have hlast : stacked b text [x] = text x := List.append_nil _
    have htokens : [x].flatMap tokens = tokens x := List.flatMap_singleton tokens x
    rw [hlast] at hq ⊢
    rw [htokens]
    exact (h x List.mem_cons_self).goes hopen his hcolumn hq hk hr
  | cons y ys ih =>
    have hx := h x List.mem_cons_self
    have hy := h y (List.mem_cons_of_mem x List.mem_cons_self)
    have hstacked : stacked b text (y :: ys)
        = text y ++ ys.flatMap fun z => spaces b ++ text z := rfl
    have hbegins : BeginsToken (stacked b text (y :: ys) ++ (spaces k ++ r)) := by
      rw [hstacked, List.append_assoc]
      exact hy.begins _
    rw [stacked_cons_cons, List.append_assoc, List.append_assoc] at hq
    have hplace : (q.skip ((text x).length + b)).column = b := hx.lines.column_skip hq
    have hrest : (q.skip ((text x).length + b)).rest
        = stacked b text (y :: ys) ++ (spaces k ++ r) := by
      rw [Cursor.skip_add]
      exact Cursor.rest_skip_spaces (Cursor.rest_skip_append hq)
    have hfirst := hx.goes hopen his hcolumn hq (Nat.le_refl b) hbegins
    have hhead := le_of_mem_head b is'
    rw [arrived_eq (by rw [hplace]; exact hhead)] at hfirst
    have hstays : opened start b ((tokens x).reverse ++ ts') (b :: is')
        = ((tokens x).reverse ++ ts', b :: is') := opened_of_eq b
    have hothers := ih (fun z hz => h z (List.mem_cons_of_mem x hz)) hstays hhead hplace hrest
    have hend : (q.skip ((text x).length + b)).skip ((stacked b text (y :: ys)).length + k)
        = q.skip ((stacked b text (x :: y :: ys)).length + k) := by
      rw [← Cursor.skip_add, stacked_cons_cons, List.length_append, List.length_append,
        length_spaces]
      congr 1
      omega
    rw [hend] at hothers
    rw [List.flatMap_cons, List.reverse_append, List.append_assoc]
    exact hfirst.trans hothers

theorem wholeLines_stacked {α : Type} {text : α → List Char} {x : α} {xs : List α}
    (h : ∀ y ∈ x :: xs, WholeLines (text y)) : WholeLines (stacked b text (x :: xs)) := by
  induction xs generalizing x with
  | nil =>
    rw [stacked, List.flatMap_nil, List.append_nil]
    exact h x List.mem_cons_self
  | cons y ys ih =>
    rw [stacked_cons_cons]
    exact ((ih fun z hz => h z (List.mem_cons_of_mem x hz)).append _).append _

/-- The parts of a collection right of another one. -/
theorem goes_nested {α : Type} {start : Token} {text : α → List Char} {tokens : α → List Token}
    {xs : List α} (h : ∀ y ∈ xs, IsPart start b (text y) (tokens y)) (hxs : xs ≠ []) (hab : a < b)
    (hcolumn : q.column = b) (hq : q.rest = stacked b text xs ++ (spaces k ++ r)) (hk : k ≤ a)
    (hr : BeginsToken r) :
    Goes (between q ts (a :: is) true none)
      (arrived (q.skip ((stacked b text xs).length + k))
        ((start :: xs.flatMap tokens ++ [Token.blockEnd]).reverse ++ ts) (a :: is)) := by
  obtain ⟨x, xs, rfl⟩ := List.exists_cons_of_ne_nil hxs
  have hhead : ∀ c ∈ (a :: is).head?, c < b := fun c hc => by
    obtain rfl := Option.some.inj hc
    exact hab
  have hopen : opened start b ts (a :: is) = (start :: ts, b :: a :: is) := opened_of_lt hhead
  have hplace := (wholeLines_stacked fun y hy => (h y hy).lines).column_skip hq
  have hparts := goes_parts h hopen (fun c hc => Nat.le_of_lt (hhead c hc)) hcolumn hq
    (by omega) hr
  rw [arrived_cons (by omega)] at hparts
  have htokens : (start :: (x :: xs).flatMap tokens ++ [Token.blockEnd]).reverse ++ ts
      = .blockEnd :: (((x :: xs).flatMap tokens).reverse ++ start :: ts) := by
    rw [List.cons_append, List.reverse_cons, List.reverse_append, List.append_assoc,
      List.append_assoc]
    rfl
  rwa [htokens]

/-! ## Values on one line -/

theorem ends_behind_space {m : Lexer} (hp : p.rest = ' ' :: r) (hr : BeginsToken r)
    (ha : a ≤ p.column) (h : Goes (between p.step ts (a :: is) allows none) m) :
    Ends (between p ts (a :: is) allows none) m := by
  have hcolumn := Cursor.column_step_space hp
  have harrives : Arrives (between p ts (a :: is) allows none)
      (between (p.skip 1) ts (a :: is) allows none) :=
    arrives_here (k := 1) hp hr
      (fun b hb => by
        obtain rfl := Option.some.inj hb
        show a ≤ p.step.column
        omega)
      (fun kp hkp => by cases hkp)
  exact harrives.ends.trans h

theorem ends_behind_line {m : Lexer} (hp : p.rest = '\n' :: (spaces b ++ r)) (hr : BeginsToken r)
    (ha : a ≤ b) (h : Goes (between (p.skip (b + 1)) ts (a :: is) true none) m) :
    Ends (between p ts (a :: is) allows none) m := by
  have harrives : Arrives (between p ts (a :: is) allows none)
      (arrived (p.skip (b + 1)) ts (a :: is)) :=
    arrives_line hp hr fun kp hkp => by cases hkp
  have hcolumn := column_skip_feed hp
  have hhead : ∀ c ∈ (a :: is).head?, c ≤ (p.skip (b + 1)).column := fun c hc => by
    obtain rfl := Option.some.inj hc
    rwa [hcolumn]
  rw [arrived_eq hhead] at harrives
  exact harrives.ends.trans h

theorem ne_step_column (hp : p.rest = ' ' :: r) (ha : a ≤ p.column) :
    (a :: is).head? ≠ some p.step.column := by
  have hcolumn := Cursor.column_step_space hp
  rw [List.head?_cons, Ne, Option.some.injEq]
  omega

theorem ends_text (hcoded : Text.Coded s)
    (hp : p.rest = ' ' :: (textLine (a + 2) column s ++ (spaces k ++ r))) (ha : a ≤ p.column)
    (hk : k ≤ a) (hr : BeginsToken r) (hwidth : a + 3 ≤ width) :
    Ends (between p ts (a :: is) allows none)
      (arrived (p.skip ((textLine (a + 2) column s).length + 1 + k))
        (textToken s :: ts) (a :: is)) := by
  have hcolumn := Cursor.column_step_space hp
  rw [Nat.add_right_comm]
  refine ends_behind_space hp (beginsToken_textLine hcoded _) ha ?_
  exact goes_textLine hcoded (Cursor.rest_step_cons hp) hr (by omega)
    (fun _ => .inl (show k < a + 1 by omega)) (show a + 2 = max (a + 1) 1 + 1 by omega) hwidth
    (show a + 1 ≤ p.step.column + 1 by omega) (fun _ => ne_step_column hp ha)

theorem ends_bare (h : IsBare j)
    (hp : p.rest = ' ' :: (plainScalar j ++ '\n' :: (spaces k ++ r))) (ha : a ≤ p.column)
    (hk : k ≤ a) (hr : BeginsToken r) :
    Ends (between p ts (a :: is) allows none)
      (arrived (p.skip ((plainScalar j).length + 2 + k)) (.scalar true (plainScalar j) :: ts)
        (a :: is)) := by
  have hcolumn := Cursor.column_step_space hp
  have hword : Folded 0 true (plainScalar j) (plainScalar j) :=
    folded_word (not_space_plainScalar h) (wordy_plainScalar h).ne_nil
  obtain ⟨c, w, -, -, -, hbegins⟩ :=
    (unquoted_plainScalar h).begins (r := spaces k ++ r) hword (.inl rfl)
  rw [show (plainScalar j).length + 2 + k = (plainScalar j).length + 1 + k + 1 by omega]
  refine ends_behind_space hp hbegins ha ?_
  have hcloses : Closes (a :: is) k r := .inl (Nat.lt_succ_of_le hk)
  have hinner : inner (a :: is) ≤ p.step.column + 1 := by
    rw [Lexer.inner]
    omega
  exact goes_bare h (Cursor.rest_step_cons hp) hr hcloses hinner fun _ => ne_step_column hp ha

theorem ends_bracket {first last : Char} {start stop : Token} (h : Bracket first last start stop)
    (hp : p.rest = ' ' :: first :: last :: '\n' :: (spaces k ++ r)) (ha : a ≤ p.column)
    (hr : BeginsToken r) :
    Ends (between p ts (a :: is) allows none)
      (arrived (p.skip (4 + k)) (stop :: start :: ts) (a :: is)) := by
  have hbegins : BeginsToken (first :: last :: '\n' :: (spaces k ++ r)) := by
    cases h
    · exact ⟨⟨rfl, rfl⟩, by simp⟩
    · exact ⟨⟨rfl, rfl⟩, by simp⟩
  rw [show 4 + k = 3 + k + 1 by omega]
  exact ends_behind_space hp hbegins ha
    (goes_bracket h (Cursor.rest_step_cons hp) hr fun _ => ne_step_column hp ha)

/-! ## Data -/

/-- The value is read where it stands behind a mark, and where it stands behind a key. -/
structure Lexes (j : Json) : Prop where
  afterMark : ∀ {p ts a is k r}, p.rest = afterMark (a + 2) j ++ (spaces k ++ r) →
    p.column = a + 1 → k ≤ a → BeginsToken r → a + 2 * j.levels + 1 ≤ width →
    Ends (between p ts (a :: is) true none)
      (arrived (p.skip ((Yaml.afterMark (a + 2) j).length + k))
        ((valueTokens false j).reverse ++ ts) (a :: is))
  afterKey : ∀ {p ts a is k r column}, p.rest = afterKey a column j ++ (spaces k ++ r) →
    a ≤ p.column → k ≤ a → BeginsToken r → a + 2 * j.levels + 1 ≤ width →
    Ends (between p ts (a :: is) false none)
      (arrived (p.skip ((Yaml.afterKey a column j).length + k)) ((valueTokens true j).reverse ++ ts)
        (a :: is))

theorem separated_afterMark (j : Json) (s : List Char) : separated (afterMark i j ++ s) = true := by
  cases j with
  | list xs => rw [afterMark]; split <;> rfl
  | object es => rw [afterMark]; split <;> rfl
  | _ => rfl

theorem separated_afterKey (j : Json) (s : List Char) :
    separated (afterKey i column j ++ s) = true := by
  cases j with
  | list xs => rw [afterKey]; split <;> rfl
  | object es => rw [afterKey]; split <;> rfl
  | _ => rfl

/-- The text of an item behind its indentation. -/
def itemText (i : Nat) (x : Json) : List Char := '-' :: afterMark (i + 2) x

theorem items_true (hxs : xs ≠ []) : items true i xs = stacked i (itemText i) xs := by
  have htail : ∀ ys, items false i ys = ys.flatMap fun y => spaces i ++ itemText i y := by
    intro ys
    induction ys with
    | nil => rfl
    | cons y ys ih => rw [items, ih, List.flatMap_cons]; rfl
  cases xs with
  | nil => exact absurd rfl hxs
  | cons x xs => rw [items, htail]; rfl

theorem items_false (hxs : xs ≠ []) : items false i xs = spaces i ++ items true i xs := by
  cases xs with
  | nil => exact absurd rfl hxs
  | cons x xs => rw [items_cons, items_cons]; rfl

theorem entries_true (hes : es ≠ []) : entries true i es = stacked i (entryText i) es := by
  have htail : ∀ fs, entries false i fs = fs.flatMap fun f => spaces i ++ entryText i f := by
    intro fs
    induction fs with
    | nil => rfl
    | cons f fs ih => rw [entries_cons, ih, List.flatMap_cons, List.append_assoc]; rfl
  cases es with
  | nil => exact absurd rfl hes
  | cons e es => rw [entries_cons, htail]; rfl

theorem entries_false (hes : es ≠ []) : entries false i es = spaces i ++ entries true i es := by
  cases es with
  | nil => exact absurd rfl hes
  | cons e es => rw [entries_cons, entries_cons]; rfl

/-- An item of a list is read. -/
theorem Lexes.isPart (h : Lexes j) (hlines : WholeLines (Yaml.afterMark (b + 2) j))
    (hwidth : b + 2 * j.levels + 1 ≤ width) :
    IsPart .blockSequence b (itemText b j) (.blockEntry :: valueTokens false j) where
  begins _ := ⟨⟨rfl, rfl⟩, by simp [itemText]⟩
  lines := hlines.cons '-'
  goes {q ts is ts' is' k r} hopen his hcolumn hq hk hr := by
    have hq : q.rest = '-' :: (Yaml.afterMark (b + 2) j ++ (spaces k ++ r)) := hq
    have hrest := Cursor.rest_step_cons hq
    have hstep : q.step.column = b + 1 := by
      rw [Cursor.column_step_printable hq (by decide), hcolumn]
    have hlength : q.skip ((itemText b j).length + k)
        = q.step.skip ((Yaml.afterMark (b + 2) j).length + k) := by
      rw [itemText, List.length_cons, Nat.add_right_comm]
      rfl
    have htoken : ∀ n, q.rest.length < n →
        (between q ts is true none).token n '-' (Yaml.afterMark (b + 2) j ++ (spaces k ++ r))
          = .ok (between q.step (.blockEntry :: ts') (b :: is') true none) := by
      intro n _
      rw [token_hyphen (separated_afterMark j _), hcolumn, hopen]
    rw [hlength, List.reverse_cons, List.append_assoc]
    exact goes_of_token hq htoken (length_rest_step_lt hq) (h.afterMark hrest hstep hk hr hwidth)

theorem entryText_simple {e : String × Json} (hs : isSimpleKey e.1.toList = true) :
    entryText b e = keyText b e.1.toList
      ++ ':' :: afterKey b (b + (Text.codes (keyText b e.1.toList)).length + 1) e.2 := by
  rw [entryText, if_pos hs]

theorem entryText_complex {e : String × Json} (hs : isSimpleKey e.1.toList = false) :
    entryText b e = '?' :: ' ' :: (textLine (b + 2) (b + 2) e.1.toList
      ++ (spaces b ++ ':' :: afterMark (b + 2) e.2)) := by
  rw [entryText, if_neg (by rw [hs]; exact Bool.false_ne_true), List.append_assoc]
  rfl

/-- An entry whose key stands before its colon is read. -/
theorem Lexes.goes_simple {e : String × Json} (h : Lexes e.2) (hkey : LegibleKey e.1.toList)
    (hs : isSimpleKey e.1.toList = true) (hwidth : b + 2 * e.2.levels + 1 ≤ width)
    (hopen : opened .blockMapping b ts is = (ts', b :: is')) (his : ∀ a ∈ is.head?, a ≤ b)
    (hcolumn : q.column = b) (hq : q.rest = entryText b e ++ (spaces k ++ r)) (hk : k ≤ b)
    (hr : BeginsToken r) :
    Goes (between q ts is true none)
      (arrived (q.skip ((entryText b e).length + k)) ((tokensOfEntry e).reverse ++ ts')
        (b :: is')) := by
  obtain ⟨key, v⟩ := e
  rw [entryText_simple hs] at hq ⊢
  rw [List.append_assoc, List.cons_append] at hq
  generalize b + (Text.codes (keyText b key.toList)).length + 1 = c at hq ⊢
  have hinline : Inline (keyText b key.toList) := inline_keyText hkey.coded hs
  have hcolon := Cursor.rest_skip_append hq
  have hrest : (q.skip ((keyText b key.toList).length + 1)).rest
      = Yaml.afterKey b c v ++ (spaces k ++ r) := by
    rw [Cursor.skip_add]
    exact Cursor.rest_step_cons hcolon
  have hplace : b ≤ (q.skip ((keyText b key.toList).length + 1)).column := by
    rw [Cursor.skip_add]
    exact Nat.le_trans (Nat.le_of_eq hcolumn.symm) (Nat.le_trans
      (Cursor.column_skip_inline hq hinline) (Cursor.column_step_inline hcolon (by decide)))
  have hvalue : Ends (between (q.skip ((keyText b key.toList).length + 1))
      (.value :: textToken key.toList :: .key :: ts') (b :: is') false none) _ :=
    h.afterKey hrest hplace hk hr hwidth
  have hlength : (keyText b key.toList).length + 1 + ((Yaml.afterKey b c v).length + k)
      = (keyText b key.toList ++ ':' :: Yaml.afterKey b c v).length + k := by
    rw [List.length_append, List.length_cons]
    omega
  rw [← Cursor.skip_add, hlength] at hvalue
  refine goes_key hkey.coded hs (hkey.reach_column hs b) hq (separated_afterKey v _)
    (by rwa [hcolumn]) ?_
  rw [hcolumn, afterColon, hopen]
  have htokens : (tokensOfEntry (key, v)).reverse ++ ts' = (valueTokens true v).reverse
      ++ .value :: textToken key.toList :: .key :: ts' := by
    simp [tokensOfEntry, hs]
  rwa [htokens]

/-- A question mark and the key behind it are read up to the colon in the next line. -/
theorem goes_questionKey (hcoded : Text.Coded s) (hthree : b + 3 ≤ width)
    (hopen : opened .blockMapping b ts is = (ts', b :: is')) (hcolumn : q.column = b)
    (hq : q.rest = '?' :: ' ' :: (textLine (b + 2) (b + 2) s ++ (spaces b ++ ':' :: r))) :
    let q' := q.skip ((textLine (b + 2) (b + 2) s).length + 1 + b + 1)
    q'.rest = ':' :: r ∧ q'.column = b ∧
      Goes (between q ts is true none)
        (between q' (textToken s :: .key :: ts') (b :: is') true none) := by
  intro q'
  have hrest := Cursor.rest_step_cons hq
  have hstep : q.step.column = b + 1 := by
    rw [Cursor.column_step_printable hq (by decide), hcolumn]
  have hlines : WholeLines (' ' :: textLine (b + 2) (b + 2) s) := wholeLines_textLine.cons ' '
  have hplace : q'.column = b := hlines.column_skip hrest
  have hcolon : q'.rest = ':' :: r :=
    Cursor.rest_skip_append_spaces (w := ' ' :: textLine (b + 2) (b + 2) s) hrest
  have hbegins : BeginsToken (':' :: r) := ⟨⟨rfl, rfl⟩, by simp⟩
  have hkey : Ends (between q.step (.key :: ts') (b :: is') true none) (arrived q' _ (b :: is')) :=
    ends_text hcoded hrest (by omega) (Nat.le_refl b) hbegins hthree
  rw [arrived_eq (by rw [hplace]; exact le_of_mem_head b is')] at hkey
  refine ⟨hcolon, hplace, goes_of_token hq (fun n _ => ?_) (length_rest_step_lt hq) hkey⟩
  rw [token_questionMark rfl, hcolumn, hopen]

/-- A colon in a line of its own and the value behind it are read. -/
theorem Lexes.goes_colonValue (h : Lexes j) (hwidth : b + 2 * j.levels + 1 ≤ width)
    (hcolumn : q.column = b) (hq : q.rest = ':' :: (Yaml.afterMark (b + 2) j ++ (spaces k ++ r)))
    (hk : k ≤ b) (hr : BeginsToken r) :
    Goes (between q ts (b :: is) true none)
      (arrived (q.skip ((Yaml.afterMark (b + 2) j).length + k + 1))
        ((valueTokens false j).reverse ++ .value :: ts) (b :: is)) := by
  have hstep : q.step.column = b + 1 := by
    rw [Cursor.column_step_printable hq (by decide), hcolumn]
  refine goes_of_token hq (fun n _ => ?_) (length_rest_step_lt hq)
    (h.afterMark (Cursor.rest_step_cons hq) hstep hk hr hwidth)
  rw [token_colon (separated_afterMark j _), hcolumn, opened_of_eq]

/-- An entry whose key stands behind a question mark is read. -/
theorem Lexes.goes_complex {e : String × Json} (h : Lexes e.2) (hkey : LegibleKey e.1.toList)
    (hs : isSimpleKey e.1.toList = false) (hwidth : b + 2 * e.2.levels + 1 ≤ width)
    (hthree : b + 3 ≤ width) (hopen : opened .blockMapping b ts is = (ts', b :: is'))
    (hcolumn : q.column = b) (hq : q.rest = entryText b e ++ (spaces k ++ r)) (hk : k ≤ b)
    (hr : BeginsToken r) :
    Goes (between q ts is true none)
      (arrived (q.skip ((entryText b e).length + k)) ((tokensOfEntry e).reverse ++ ts')
        (b :: is')) := by
  obtain ⟨key, v⟩ := e
  rw [entryText_complex hs] at hq ⊢
  have hq : q.rest = '?' :: ' ' :: (textLine (b + 2) (b + 2) key.toList
      ++ (spaces b ++ ':' :: (Yaml.afterMark (b + 2) v ++ (spaces k ++ r)))) := by
    rw [hq]
    simp
  obtain ⟨hcolon, hplace, hkeyText⟩ := goes_questionKey hkey.coded hthree hopen hcolumn hq
  have hvalue : Goes (between _ (textToken key.toList :: .key :: ts') (b :: is') true none) _ :=
    h.goes_colonValue hwidth hplace hcolon hk hr
  have hlength : (textLine (b + 2) (b + 2) key.toList).length + 1 + b + 1
      + ((Yaml.afterMark (b + 2) v).length + k + 1)
        = ('?' :: ' ' :: (textLine (b + 2) (b + 2) key.toList
          ++ (spaces b ++ ':' :: Yaml.afterMark (b + 2) v))).length + k := by
    simp only [List.length_cons, List.length_append, length_spaces]
    omega
  have htokens : (tokensOfEntry (key, v)).reverse ++ ts' = (valueTokens false v).reverse
      ++ .value :: textToken key.toList :: .key :: ts' := by
    simp [tokensOfEntry, hs]
  rw [← Cursor.skip_add, hlength] at hvalue
  rw [htokens]
  exact hkeyText.trans hvalue

/-- An entry of a mapping is read. -/
theorem Lexes.isPart_entry {e : String × Json} (h : Lexes e.2) (hkey : LegibleKey e.1.toList)
    (hlines : WholeLines (entryText b e)) (hwidth : b + 2 * e.2.levels + 1 ≤ width) :
    IsPart .blockMapping b (entryText b e) (tokensOfEntry e) where
  begins s := by
    cases hs : isSimpleKey e.1.toList with
    | true =>
      rw [entryText_simple hs, List.append_assoc]
      exact (begins_keyText hkey.coded _).2
    | false =>
      rw [entryText_complex hs]
      exact ⟨⟨rfl, rfl⟩, by simp⟩
  lines := hlines
  goes hopen his hcolumn hq hk hr := by
    have hlevels := Json.one_le_levels e.2
    cases hs : isSimpleKey e.1.toList with
    | true => exact h.goes_simple hkey hs hwidth hopen his hcolumn hq hk hr
    | false => exact h.goes_complex hkey hs hwidth (by omega) hopen hcolumn hq hk hr

section Nested

variable {α : Type} {start : Token} {text : α → List Char} {tokens : α → List Token} {xs : List α}

theorem begins_stacked (h : ∀ y ∈ xs, IsPart start b (text y) (tokens y)) (hxs : xs ≠ [])
    (s : List Char) : BeginsToken (stacked b text xs ++ s) := by
  cases xs with
  | nil => exact absurd rfl hxs
  | cons x xs =>
    rw [stacked, List.append_assoc]
    exact (h x List.mem_cons_self).begins _

/-- A collection that begins behind a mark. -/
theorem ends_nested_mark (h : ∀ y ∈ xs, IsPart start (a + 2) (text y) (tokens y)) (hxs : xs ≠ [])
    (hp : p.rest = ' ' :: (stacked (a + 2) text xs ++ (spaces k ++ r)))
    (hcolumn : p.column = a + 1) (hk : k ≤ a) (hr : BeginsToken r) :
    Ends (between p ts (a :: is) true none)
      (arrived (p.skip ((stacked (a + 2) text xs).length + 1 + k))
        ((start :: xs.flatMap tokens ++ [Token.blockEnd]).reverse ++ ts) (a :: is)) := by
  have hstep : p.step.column = a + 2 := by rw [Cursor.column_step_space hp, hcolumn]
  rw [Nat.add_right_comm]
  exact ends_behind_space hp (begins_stacked h hxs _) (by omega)
    (goes_nested h hxs (by omega) hstep (Cursor.rest_step_cons hp) hk hr)

/-- A collection that begins in the line below a key. -/
theorem ends_nested_line (h : ∀ y ∈ xs, IsPart start (a + 2) (text y) (tokens y)) (hxs : xs ≠ [])
    (hp : p.rest = '\n' :: (spaces (a + 2) ++ (stacked (a + 2) text xs ++ (spaces k ++ r))))
    (hk : k ≤ a) (hr : BeginsToken r) :
    Ends (between p ts (a :: is) allows none)
      (arrived (p.skip (a + 2 + (stacked (a + 2) text xs).length + 1 + k))
        ((start :: xs.flatMap tokens ++ [Token.blockEnd]).reverse ++ ts) (a :: is)) := by
  have hrest : (p.step.skip (a + 2)).rest = stacked (a + 2) text xs ++ (spaces k ++ r) :=
    Cursor.rest_skip_spaces (Cursor.rest_step_cons hp)
  rw [show a + 2 + (stacked (a + 2) text xs).length + 1 + k
    = a + 2 + 1 + ((stacked (a + 2) text xs).length + k) by omega, Cursor.skip_add]
  exact ends_behind_line hp (begins_stacked h hxs _) (by omega)
    (goes_nested h hxs (by omega) (column_skip_feed hp) hrest hk hr)

/-- A list that begins in the line below its key, at the column of the key. -/
theorem ends_bare_line (h : ∀ y ∈ xs, IsPart start a (text y) (tokens y)) (hxs : xs ≠ [])
    (hp : p.rest = '\n' :: (spaces a ++ (stacked a text xs ++ (spaces k ++ r))))
    (hk : k ≤ a) (hr : BeginsToken r) :
    Ends (between p ts (a :: is) allows none)
      (arrived (p.skip (a + (stacked a text xs).length + 1 + k))
        ((xs.flatMap tokens).reverse ++ ts) (a :: is)) := by
  have hrest : (p.step.skip a).rest = stacked a text xs ++ (spaces k ++ r) :=
    Cursor.rest_skip_spaces (Cursor.rest_step_cons hp)
  have hbegins := begins_stacked h hxs (spaces k ++ r)
  obtain ⟨x, xs, rfl⟩ := List.exists_cons_of_ne_nil hxs
  rw [show a + (stacked a text (x :: xs)).length + 1 + k
    = a + 1 + ((stacked a text (x :: xs)).length + k) by omega, Cursor.skip_add]
  exact ends_behind_line hp hbegins (Nat.le_refl a)
    (goes_parts h (opened_of_eq a) (le_of_mem_head a is) (column_skip_feed hp) hrest hk hr)

end Nested

/-- A word behind a mark or a key is read. -/
theorem lexes_bare (h : IsBare j) : Lexes j := by
  have hword : ∀ {k r}, ' ' :: plainScalar j ++ ['\n'] ++ (spaces k ++ r)
      = ' ' :: (plainScalar j ++ '\n' :: (spaces k ++ r)) := fun {k r} => by simp
  refine ⟨fun {p ts a is k r} hp hcolumn hk hr hwidth => ?_,
    fun {p ts a is k r column} hp ha hk hr hwidth => ?_⟩
  · rw [afterMark_bare h, hword] at hp
    rw [afterMark_bare h, valueTokens_bare h, List.length_append, List.length_cons]
    exact ends_bare h hp (by omega) hk hr
  · rw [afterKey_bare h, hword] at hp
    rw [afterKey_bare h, valueTokens_bare h, List.length_append, List.length_cons]
    exact ends_bare h hp ha hk hr

theorem lexes_text {s : String} (h : Text.Coded s.toList) : Lexes (.str s) := by
  have hone : (Json.str s).levels = 1 := rfl
  exact ⟨fun hp hcolumn hk hr hwidth => ends_text h hp (by omega) hk hr (by omega),
    fun hp ha hk hr hwidth => ends_text h hp ha hk hr (by omega)⟩

/-- A list is read item by item; behind a key it stands at the column of the key. -/
theorem lexes_list (hxs : xs ≠ []) (h : ∀ {b}, b + 2 * Json.itemLevels xs + 1 ≤ width →
    ∀ x ∈ xs, IsPart .blockSequence b (itemText b x) (.blockEntry :: valueTokens false x)) :
    Lexes (.list xs) := by
  refine ⟨fun {p ts a is k r} hp hcolumn hk hr hwidth => ?_,
    fun {p ts a is k r column} hp ha hk hr hwidth => ?_⟩
  · rw [Json.levels] at hwidth
    rw [afterMark_list hxs, items_true hxs] at hp ⊢
    rw [valueTokens_list hxs, if_neg Bool.false_ne_true, itemTokens_eq]
    exact ends_nested_mark (h (by omega)) hxs hp hcolumn hk hr
  · rw [Json.levels] at hwidth
    rw [afterKey_list hxs, items_false hxs, items_true hxs] at hp ⊢
    rw [valueTokens_list hxs, if_pos rfl, itemTokens_eq]
    rw [List.cons_append, List.append_assoc] at hp
    rw [List.length_cons, List.length_append, length_spaces]
    exact ends_bare_line (h (by omega)) hxs hp hk hr

/-- An object is read entry by entry. -/
theorem lexes_object (hes : es ≠ []) (h : ∀ {b}, b + 2 * Json.fieldLevels es + 1 ≤ width →
    ∀ e ∈ es, IsPart .blockMapping b (entryText b e) (tokensOfEntry e)) : Lexes (.object es) := by
  refine ⟨fun {p ts a is k r} hp hcolumn hk hr hwidth => ?_,
    fun {p ts a is k r column} hp ha hk hr hwidth => ?_⟩
  · rw [Json.levels] at hwidth
    rw [afterMark_object hes, entries_true hes] at hp ⊢
    rw [valueTokens_object hes, entryTokens_eq]
    exact ends_nested_mark (h (by omega)) hes hp hcolumn hk hr
  · rw [Json.levels] at hwidth
    rw [afterKey_object hes, entries_false hes, entries_true hes] at hp ⊢
    rw [valueTokens_object hes, entryTokens_eq]
    rw [List.cons_append, List.append_assoc] at hp
    rw [List.length_cons, List.length_append, length_spaces]
    exact ends_nested_line (h (by omega)) hes hp hk hr

/-- Written data are cut into their tokens. -/
theorem Legible.lexes (h : Legible j) : Lexes j := by
  induction h with
  | bare h => exact lexes_bare h
  | text h => exact lexes_text h
  | @list xs h ih =>
    by_cases hxs : xs = []
    · subst hxs
      exact ⟨fun hp hcolumn hk hr _ => ends_bracket .list hp (by omega) hr,
        fun hp ha hk hr _ => ends_bracket .list hp ha hr⟩
    · refine lexes_list hxs fun {b} hb x hx => ?_
      have hlevels := Json.levels_le_itemLevels hx
      exact (ih x hx).isPart ((h x hx).wholeLines.1 (b + 2)) (by omega)
  | @object es hkeys _ h ih =>
    by_cases hes : es = []
    · subst hes
      exact ⟨fun hp hcolumn hk hr _ => ends_bracket .map hp (by omega) hr,
        fun hp ha hk hr _ => ends_bracket .map hp ha hr⟩
    · refine lexes_object hes fun {b} hb e he => ?_
      have hlevels := Json.levels_le_fieldLevels he
      have hlines := (h e he).wholeLines
      exact (ih e he).isPart_entry (hkeys e he)
        (wholeLines_entryText (hlines.1 (b + 2)) fun column => hlines.2 b column) (by omega)

end AppPipeline.Yaml
