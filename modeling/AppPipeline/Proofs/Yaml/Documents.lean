import AppPipeline.Proofs.Yaml.Tokens

/-!
# Tokens of whole documents

A written document is cut into the tokens of its data and at most one more, for the mark
at its end (`tokens_document`).
-/

namespace AppPipeline.Yaml

open Lexer

variable {p q : Cursor} {ts us : List Token} {is : List Nat} {allows : Bool}
variable {s r : List Char} {k n : Nat} {j : Json}
variable {xs : List Json} {es : List (String × Json)}

/-! ## The end of a text -/

theorem closeBlocks_between : (between p ts is allows none).closeBlocks
    = .ok (between p (List.replicate is.length .blockEnd ++ ts) [] false none) := by
  have hall : is.takeWhile (fun _ => true) = is := List.takeWhile_eq_self_iff.2 fun _ _ => rfl
  have hunwind : (between p ts is allows none).unwind (fun _ => true)
      = between p (List.replicate is.length .blockEnd ++ ts) [] allows none := by
    rw [unwind, between, between]
    simp only [inFlow, List.length_singleton, Nat.lt_irrefl, decide_false, Bool.false_eq_true,
      if_false, hall, List.drop_length, List.length_append, List.length_replicate]
    rw [Nat.add_comm]
  rw [closeBlocks, hunwind]
  rfl

/-- Where nothing is left the open collections end. -/
theorem run_end {l : Lexer} (h : Arrives l (between p ts is allows none)) (hp : p.rest = [])
    (hn : l.place.rest.length + 1 < n) :
    l.run n = (List.replicate is.length Token.blockEnd ++ ts).reverse := by
  obtain ⟨n, rfl⟩ : ∃ m, n = m + 1 := ⟨n - 1, by omega⟩
  have hkeys := h.keys
  have hrest : (between p ts is allows none).place.rest = [] := hp
  rw [run, if_neg (by omega), h.next n (by omega)]
  simp only [hrest, closeBlocks_between]
  rfl

/-- The mark at the end of a document. -/
theorem goes_endMark (hp : p.rest = endMark) (hcolumn : p.column = 0) :
    Goes (between p ts is true none)
      (between (p.skip 4) (.documentEnd :: (List.replicate is.length .blockEnd ++ ts)) [] true
        none) := by
  have hp : p.rest = '.' :: ['.', '.', '\n'] := hp
  have htoken : ∀ n, p.rest.length < n → (between p ts is true none).token n '.' ['.', '.', '\n']
      = .ok (between (p.skip 3)
          (.documentEnd :: (List.replicate is.length .blockEnd ++ ts)) [] false none) := by
    intro n _
    have hmark : (between p ts is true none).token n '.' ['.', '.', '\n']
        = (between p ts is true none).documentMark .documentEnd := by
      have hstart : (between p ts is true none).place.column = 0 := hcolumn
      have hends : isDocumentMark ['.', '.', '.', '\n'] = true := by decide
      simp [token, hstart, hends]
    rw [hmark, documentMark, closeBlocks_between]
    rfl
  have hrest : (p.skip 3).rest = '\n' :: (spaces 0 ++ []) :=
    Cursor.rest_skip_append (w := ['.', '.', '.']) hp
  have hend : Arrives (between (p.skip 3)
      (.documentEnd :: (List.replicate is.length .blockEnd ++ ts)) [] false none)
      (arrived ((p.skip 3).skip 1)
        (.documentEnd :: (List.replicate is.length .blockEnd ++ ts)) []) :=
    arrives_line (k := 0) hrest ⟨⟨rfl, rfl⟩, by simp⟩ fun kp hkp => by cases hkp
  refine goes_of_token hp htoken ?_ hend.ends
  show (p.skip 3).rest.length < p.rest.length
  rw [hrest, hp]
  decide

/-- What may follow the data of a document. -/
def IsRest (r : List Char) : Prop := r = [] ∨ r = endMark

theorem IsRest.beginsToken (h : IsRest r) : BeginsToken r := by
  rcases h with rfl | rfl
  · exact ⟨⟨rfl, rfl⟩, by decide⟩
  · exact ⟨⟨rfl, rfl⟩, by decide⟩

theorem isRest_ite (c : Prop) [Decidable c] : IsRest (if c then endMark else []) := by
  split
  · exact .inr rfl
  · exact .inl rfl

theorem IsRest.harmless (h : IsRest r) : Harmless r := by
  rcases h with rfl | rfl
  · exact fun c hc => by cases hc
  · exact harmless_append.2 ⟨harmless_printable (w := ['.', '.', '.']) (by decide), harmless_feed⟩

/-- The tokens that may follow those of the data. -/
def IsEnd (us : List Token) : Prop := us = [] ∨ us = [.documentEnd]

/-- The tokens of a text are those up to its end and those that end collections. -/
theorem tokens_of_goes (hs : Harmless s) (hbegins : BeginsToken s) (hr : IsRest r)
    (hgoes : Goes (between (Cursor.start s) [] [] true none) (between p ts is true none))
    (hp : p.rest = r) (hcolumn : p.column = 0) :
    ∃ us, IsEnd us ∧ tokens s = (List.replicate is.length Token.blockEnd ++ ts).reverse ++ us := by
  have hallowed : s.all isAllowed = true := List.all_eq_true.2 fun c hc => (hs c hc).1
  have horder : (s.head? == some byteOrderMark) = false := by
    rw [beq_eq_false_iff_ne]
    intro hhead
    exact (hs byteOrderMark (List.mem_of_mem_head? hhead)).2 rfl
  have hstart : Lexer.start s = between (Cursor.start s) [] [] true none := by
    rw [Lexer.start, horder]
    rfl
  have hbegin : Arrives (between (Cursor.start s) [] [] true none)
      (between (Cursor.start s) [] [] true none) :=
    arrives_here (k := 0) rfl hbegins (fun a ha => by cases ha) fun kp hkp => by cases hkp
  rw [tokens, if_pos hallowed, hstart]
  rcases hr with rfl | rfl
  · obtain ⟨l, hleads, harrives⟩ := hgoes _ hbegin
    obtain ⟨m, hm, hrun⟩ := hleads (s.length + 2) (Nat.lt_succ_self _)
    exact ⟨[], .inl rfl, by rw [hrun, run_end harrives hp hm, List.append_nil]⟩
  · obtain ⟨l, hleads, harrives⟩ := (hgoes.trans (goes_endMark hp hcolumn)) _ hbegin
    obtain ⟨m, hm, hrun⟩ := hleads (s.length + 2) (Nat.lt_succ_self _)
    have hrest : (p.skip 4).rest = [] := by
      rw [Cursor.rest_skip, hp]
      rfl
    refine ⟨[.documentEnd], .inr rfl, ?_⟩
    rw [hrun, run_end harrives hrest hm]
    exact List.reverse_cons

/-! ## Documents -/

/-- A text that is a document. -/
theorem tokens_text {s : String} (hcoded : Text.Coded s.toList) :
    ∃ us, IsEnd us ∧ tokens (document (.str s)) = valueTokens false (.str s) ++ us := by
  obtain ⟨r, hr, hdocument, hplain⟩ : ∃ r, IsRest r ∧
      document (.str s) = textLine 2 0 s.toList ++ r ∧
        (styleOf false s.toList = .plain → r = endMark) := by
    refine ⟨_, isRest_ite _, rfl, fun hstyle => ?_⟩
    rw [hstyle]
    rfl
  rw [hdocument]
  have hp : (Cursor.start (textLine 2 0 s.toList ++ r)).rest
      = textLine 2 0 s.toList ++ (spaces 0 ++ r) := rfl
  have hline : Goes (between (Cursor.start (textLine 2 0 s.toList ++ r)) [] [] true none)
      (arrived ((Cursor.start _).skip ((textLine 2 0 s.toList).length + 0))
        [textToken s.toList] []) :=
    goes_textLine hcoded hp hr.beginsToken (by decide)
      (fun hstyle => .inr ⟨rfl, by rw [hplain hstyle]; decide⟩) rfl (by decide) (Nat.zero_le _)
      (by simp)
  exact tokens_of_goes (harmless_append.2 ⟨harmless_textLine hcoded, hr.harmless⟩)
    (beginsToken_textLine hcoded r) hr hline
    (by rw [Nat.add_zero]; exact Cursor.rest_skip_append hp)
    (wholeLines_textLine.column_skip hp)

theorem document_bare (h : IsBare j) : document j = plainScalar j ++ '\n' :: endMark := by
  cases j <;> first | rfl | exact absurd h id

/-- A value of one word that is a document. -/
theorem tokens_bare (h : IsBare j) :
    ∃ us, IsEnd us ∧ tokens (document j) = valueTokens false j ++ us := by
  rw [document_bare h, valueTokens_bare h]
  have hr : IsRest endMark := .inr rfl
  have hp : (Cursor.start (plainScalar j ++ '\n' :: endMark)).rest
      = (plainScalar j ++ ['\n']) ++ (spaces 0 ++ endMark) := (List.append_assoc _ ['\n'] _).symm
  have hword : Folded 0 true (plainScalar j) (plainScalar j) :=
    folded_word (not_space_plainScalar h) (wordy_plainScalar h).ne_nil
  obtain ⟨c, w, -, -, -, hbegins⟩ :=
    (unquoted_plainScalar h).begins (r := endMark) hword (.inl rfl)
  have hline : Goes (between (Cursor.start (plainScalar j ++ '\n' :: endMark)) [] [] true none)
      (arrived ((Cursor.start _).skip ((plainScalar j).length + 1 + 0))
        [.scalar true (plainScalar j)] []) :=
    goes_bare h rfl hr.beginsToken (.inr ⟨rfl, by decide⟩) (Nat.zero_le _) (by simp)
  have hlines : WholeLines (plainScalar j ++ ['\n']) := WholeLines.append (w := ['\n']) _ rfl
  have hlength : (plainScalar j ++ ['\n']).length = (plainScalar j).length + 1 :=
    List.length_append
  have hharmless : Harmless (plainScalar j ++ '\n' :: endMark) :=
    harmless_append.2 ⟨harmless_plainScalar h, harmless_append.2 ⟨harmless_feed, hr.harmless⟩⟩
  exact tokens_of_goes hharmless hbegins hr hline
    (by rw [Nat.add_zero, ← hlength]; exact Cursor.rest_skip_append hp)
    (by rw [← hlength]; exact hlines.column_skip hp)

/-- A collection that is a document. -/
theorem tokens_parts {α : Type} {start : Token} {text : α → List Char}
    {tokens : α → List Token} {xs : List α} (h : ∀ y ∈ xs, IsPart start 0 (text y) (tokens y))
    (hxs : xs ≠ []) (hharmless : Harmless (stacked 0 text xs)) (hr : IsRest r) :
    ∃ us, IsEnd us ∧ Yaml.tokens (stacked 0 text xs ++ r)
      = start :: xs.flatMap tokens ++ [Token.blockEnd] ++ us := by
  have hp : (Cursor.start (stacked 0 text xs ++ r)).rest
      = stacked 0 text xs ++ (spaces 0 ++ r) := rfl
  have hbegins := begins_stacked h hxs r
  obtain ⟨x, xs, rfl⟩ := List.exists_cons_of_ne_nil hxs
  have hopen : opened start 0 [] [] = ([start], [0]) := opened_of_lt fun a ha => by cases ha
  have hcolumn := (wholeLines_stacked fun y hy => (h y hy).lines).column_skip hp
  have hparts := goes_parts h hopen (fun a ha => by cases ha) rfl hp (Nat.le_refl 0) hr.beginsToken
  rw [arrived_eq (by rw [hcolumn]; exact le_of_mem_head 0 [])] at hparts
  obtain ⟨us, hus, htokens⟩ := tokens_of_goes (harmless_append.2 ⟨hharmless, hr.harmless⟩) hbegins
    hr hparts (by rw [Nat.add_zero]; exact Cursor.rest_skip_append hp) hcolumn
  refine ⟨us, hus, ?_⟩
  rw [htokens]
  simp

/-- An empty collection that is a document. -/
theorem tokens_bracket {first last : Char} {start stop : Token}
    (h : Bracket first last start stop) :
    ∃ us, IsEnd us ∧ tokens [first, last, '\n'] = [start, stop] ++ us := by
  have hbracket : Goes (between (Cursor.start [first, last, '\n']) [] [] true none)
      (arrived ((Cursor.start _).skip 3) [stop, start] []) :=
    goes_bracket (k := 0) (r := []) h rfl ⟨⟨rfl, rfl⟩, by simp⟩ (by simp)
  have hlines : WholeLines [first, last, '\n'] := rfl
  have hharmless : Harmless [first, last, '\n'] := by
    cases h
    · exact harmless_append.2 ⟨harmless_printable (w := ['[', ']']) (by decide), harmless_feed⟩
    · exact harmless_append.2
        ⟨harmless_printable (w := ['\x7b', '\x7d']) (by decide), harmless_feed⟩
  have hbegins : BeginsToken [first, last, '\n'] := by
    cases h
    · exact ⟨⟨rfl, rfl⟩, by simp⟩
    · exact ⟨⟨rfl, rfl⟩, by simp⟩
  have hrest : ((Cursor.start [first, last, '\n']).skip 3).rest = [] := by
    rw [Cursor.rest_skip]
    rfl
  exact tokens_of_goes hharmless hbegins (.inl rfl) hbracket hrest
    (hlines.column_skip (k := 0) (r := []) rfl)

theorem tokens_list (h : ∀ x ∈ xs, Legible x) (hxs : xs ≠ [])
    (hlevels : Json.itemLevels xs < mostLevels) :
    ∃ us, IsEnd us ∧ tokens (document (.list xs)) = valueTokens false (.list xs) ++ us := by
  have hwidth : 2 * mostLevels + 1 ≤ width := by decide
  have hparts : ∀ x ∈ xs,
      IsPart .blockSequence 0 (itemText 0 x) (.blockEntry :: valueTokens false x) := by
    intro x hx
    have hx' := Json.levels_le_itemLevels hx
    exact (h x hx).lexes.isPart ((h x hx).wholeLines.1 _) (by omega)
  have hharmless : Harmless (items true 0 xs) :=
    harmless_items fun x hx => (h x hx).harmless.1 _
  rw [items_true hxs] at hharmless
  rw [document, if_neg (by rwa [List.isEmpty_iff]), items_true hxs, valueTokens_list hxs,
    if_neg Bool.false_ne_true, itemTokens_eq]
  exact tokens_parts hparts hxs hharmless (isRest_ite _)

theorem tokens_object (hkeys : ∀ e ∈ es, LegibleKey e.1.toList) (h : ∀ e ∈ es, Legible e.2)
    (hes : es ≠ []) (hlevels : Json.fieldLevels es < mostLevels) :
    ∃ us, IsEnd us ∧ tokens (document (.object es)) = valueTokens false (.object es) ++ us := by
  have hwidth : 2 * mostLevels + 1 ≤ width := by decide
  have hparts : ∀ e ∈ es, IsPart .blockMapping 0 (entryText 0 e) (tokensOfEntry e) := by
    intro e he
    have he' := Json.levels_le_fieldLevels he
    have hlines := (h e he).wholeLines
    exact (h e he).lexes.isPart_entry (hkeys e he)
      (wholeLines_entryText (hlines.1 _) fun column => hlines.2 _ column) (by omega)
  have hharmless : Harmless (entries true 0 es) := harmless_entries fun e he =>
    harmless_entryText (hkeys e he).coded ((h e he).harmless.1 _) fun column =>
      (h e he).harmless.2 _ column
  rw [entries_true hes] at hharmless
  rw [document, if_neg (by rwa [List.isEmpty_iff]), entries_true hes, valueTokens_object hes,
    entryTokens_eq]
  exact tokens_parts hparts hes hharmless (isRest_ite _)

/-- A written document is cut into the tokens of its data, and perhaps one for its end. -/
theorem tokens_document (h : Legible j) (hlevels : j.levels ≤ mostLevels) :
    ∃ us, IsEnd us ∧ tokens (document j) = valueTokens false j ++ us := by
  cases h with
  | bare h => exact tokens_bare h
  | text h => exact tokens_text h
  | @list xs h =>
    rw [Json.levels] at hlevels
    by_cases hxs : xs = []
    · subst hxs
      exact tokens_bracket .list
    · exact tokens_list h hxs (by omega)
  | @object es hkeys _ h =>
    rw [Json.levels] at hlevels
    by_cases hes : es = []
    · subst hes
      exact tokens_bracket .map
    · exact tokens_object hkeys h hes (by omega)

end AppPipeline.Yaml
