import AppPipeline.Proofs.Yaml.Quoting
import AppPipeline.Yaml.Block

/-!
# Literal blocks

A literal block is read with every line break as a line end, and with the line breaks
at its end that the header asks for (`blockText_literal`).
-/

namespace AppPipeline.Yaml

variable {p : Cursor} {s r : List Char} {indent k n : Nat}

/-! ## Lines of a block -/

theorem literalBody_line {line : List Char} (hline : ∀ c ∈ line, isBreak c = false)
    (s : List Char) :
    literalBody indent false (line ++ s) = line ++ literalBody indent false s := by
  induction line with
  | nil => rfl
  | cons c line ih =>
    rw [List.cons_append, literalBody, hline c List.mem_cons_self,
      ih fun d hd => hline d (List.mem_cons_of_mem c hd)]
    rfl

theorem literalBody_breaks {bs : List Char} (hbs : ∀ c ∈ bs, isBreak c = true) (s : List Char) :
    literalBody indent true (bs ++ s) = bs ++ literalBody indent true s := by
  induction bs with
  | nil => rfl
  | cons b bs ih =>
    rw [List.cons_append, literalBody, hbs b List.mem_cons_self,
      ih fun c hc => hbs c (List.mem_cons_of_mem b hc)]
    rfl

theorem literalBody_start (hne : s ≠ []) (hs : s.head?.any isBreak = false) :
    literalBody indent true s = spaces indent ++ literalBody indent false s := by
  cases s with
  | nil => exact absurd rfl hne
  | cons c s =>
    have hc : isBreak c = false := by simpa using hs
    rw [literalBody, literalBody, hc]
    rfl

/-- The text of a block ends with a line break. -/
def closed (s : List Char) : List Char := if s.getLast?.any isBreak then s else s ++ ['\n']

theorem skipIndent_eq (hp : p.rest = spaces k ++ s) (hk : k ≤ indent)
    (hs : k = indent ∨ s.head?.any (· == ' ') = false) : p.skipIndent indent = p.skip k := by
  have htake : (p.rest.take indent).takeWhile (· == ' ') = spaces k := by
    rw [hp, List.take_append, length_spaces, List.take_of_length_le (by rwa [length_spaces])]
    apply Cursor.takeWhile_append_of_head (fun c hc => by rw [mem_spaces hc]; rfl)
    rcases hs with rfl | hs
    · rw [Nat.sub_self]
      rfl
    · cases s with
      | nil => rw [List.take_nil]; rfl
      | cons c s =>
        cases indent - k with
        | zero => rfl
        | succ j => exact hs
  rw [Cursor.skipIndent, htake, length_spaces]

/-- The empty lines that stand here, and the indentation of the next line. -/
theorem blockBreaks_eq {bs : List Char} (hp : p.rest = bs ++ (spaces k ++ s))
    (hbs : ∀ c ∈ bs, isBreak c = true) (hcolumn : p.column = 0) (hk : k ≤ indent)
    (hs : k = indent ∨ s.head?.any (· == ' ') = false) (hend : s.head?.any endsLine = false)
    (hn : bs.length < n) :
    blockBreaks indent n p = (bs.map lineFeed, p.skip (bs.length + k)) := by
  induction bs generalizing p n with
  | nil =>
    obtain ⟨m, rfl⟩ : ∃ m, n = m + 1 := ⟨n - 1, by simp at hn; omega⟩
    have hafter : (p.skip k).rest = s := Cursor.rest_skip_spaces hp
    have hskip : p.skipIndent (indent - p.column) = p.skip k := by
      rw [hcolumn]
      exact skipIndent_eq hp hk hs
    have hnone : (p.skip k).lineEnd? = none := Cursor.lineEnd?_eq_none (by rwa [hafter])
    simp only [blockBreaks, hskip, hnone, List.map_nil, List.length_nil, Nat.zero_add]
  | cons b bs ih =>
    obtain ⟨m, rfl⟩ : ∃ m, n = m + 1 := ⟨n - 1, by simp at hn; omega⟩
    rw [List.cons_append] at hp
    have hb := hbs b List.mem_cons_self
    have hskip : p.skipIndent (indent - p.column) = p := by
      have hblank : (b == ' ') = false := beq_eq_false_iff_ne.2 (ne_of_isBreak hb (by decide))
      exact skipIndent_eq (k := 0) (s := b :: (bs ++ (spaces k ++ s))) hp (Nat.zero_le _)
        (.inr hblank)
    have hstep := Cursor.step_eq_of_break hp hb
    have htail := ih (n := m) (Cursor.rest_step_cons hp)
      (fun c hc => hbs c (List.mem_cons_of_mem b hc)) (by rw [hstep]) (by simpa using hn)
    simp only [blockBreaks, hskip, Cursor.lineEnd?_eq_some hp hb, htail]
    rw [List.length_cons, Nat.add_right_comm]
    rfl

/-- What the reader finds from the first line of a block on. -/
structure ReadsLines (s before : List Char) (after : Cursor) (b : BlockLines) : Prop where
  text : b.text ++ (b.lineEnd ++ b.breaks) = before ++ (closed s).map lineFeed
  one : b.lineEnd.length = 1
  breaks : ∀ c ∈ b.lineEnd ++ b.breaks, isBreak c = true
  after : b.after = after

theorem startsLine_of_eq (hcolumn : p.column = indent) (hne : p.rest ≠ []) :
    startsLine indent p = true := by
  simp [startsLine, hcolumn, hne]

theorem startsLine_of_ne (hcolumn : p.column ≠ indent) : startsLine indent p = false := by
  rw [startsLine, beq_eq_false_iff_ne.2 hcolumn, Bool.false_and]

/-- One line of a block, with the empty lines behind it. -/
theorem blockLines_line {line before breaks : List Char} {c : Char} {q : Cursor}
    (hstart : startsLine indent p = true) (hp : p.rest = line ++ c :: s)
    (hline : Inline line) (hc : isBreak c = true)
    (hbreaks : blockBreaks indent n (p.skip (line.length + 1)) = (breaks, q)) :
    blockLines false indent (n + 1) before p =
      if startsLine indent q then
        let more := blockLines false indent n breaks q
        { more with text := before ++ line ++ [lineFeed c] ++ more.text }
      else ⟨before ++ line, [lineFeed c], breaks, q⟩ := by
  have htake : p.rest.takeWhile (fun c => !endsLine c) = line := by
    rw [hp]
    apply Cursor.takeWhile_append_of_head
    · intro d hd
      rw [hline d hd]
      rfl
    · simp [endsLine_of_isBreak hc]
  have hend := Cursor.lineEnd?_eq_some (Cursor.rest_skip_append hp) hc
  have hskip : (p.skip line.length).step = p.skip (line.length + 1) := by
    rw [Cursor.skip_add]
    rfl
  rw [hskip] at hend
  rw [blockLines, if_pos hstart]
  simp only [htake, hend, hbreaks, blockJoint, Bool.false_and, Bool.false_eq_true, if_false]

theorem isBreak_lineFeed {c : Char} (hc : isBreak c = true) : isBreak (lineFeed c) = true := by
  rw [lineFeed]
  split
  · decide
  · exact hc

theorem lineFeed_of_not_isBreak {c : Char} (hc : isBreak c = false) : lineFeed c = c := by
  rw [lineFeed, if_neg]
  intro h
  rw [isBreak, h] at hc
  cases hc

theorem map_lineFeed_line {line : List Char} (hline : ∀ c ∈ line, isBreak c = false) :
    line.map lineFeed = line := by
  rw [List.map_congr_left fun c hc => lineFeed_of_not_isBreak (hline c hc), List.map_id']

theorem closed_append {w : List Char} (hs : s ≠ []) : closed (w ++ s) = w ++ closed s := by
  rw [closed, closed, List.getLast?_append_of_ne_nil _ hs]
  split
  · rfl
  · rw [List.append_assoc]

theorem closed_of_breaks {bs : List Char} (hne : bs ≠ []) (hbs : ∀ c ∈ bs, isBreak c = true) :
    closed bs = bs := by
  rw [closed, List.getLast?_eq_some_getLast hne, Option.any_some,
    hbs _ (List.getLast_mem hne), if_pos rfl]

theorem closed_of_line {line : List Char} (hline : ∀ c ∈ line, isBreak c = false) :
    closed line = line ++ ['\n'] := by
  rw [closed, if_neg]
  cases h : line.getLast? with
  | none => simp
  | some c =>
    rw [Option.any_some, hline c (List.mem_of_getLast? h)]
    exact Bool.false_ne_true

/-- The first line of a text, its end and the empty lines behind it. -/
theorem exists_line (hne : s ≠ []) (hhead : s.head?.any isBreak = false) :
    ∃ line t, s = line ++ t ∧ line ≠ [] ∧ (∀ c ∈ line, isBreak c = false) ∧
      (t = [] ∨ ∃ e bs s', t = e :: bs ++ s' ∧ (∀ c ∈ e :: bs, isBreak c = true) ∧
        s'.head?.any isBreak = false) := by
  refine ⟨s.takeWhile (!isBreak ·), s.dropWhile (!isBreak ·),
    List.takeWhile_append_dropWhile.symm, ?_, ?_, ?_⟩
  · cases s with
    | nil => exact absurd rfl hne
    | cons c s =>
      have hc : isBreak c = false := by simpa using hhead
      simp [hc]
  · exact fun c hc => by simpa using List.mem_takeWhile_imp hc
  · have hdrop := head_dropWhile_any (!isBreak ·) s
    cases ht : s.dropWhile (!isBreak ·) with
    | nil => exact .inl rfl
    | cons e t =>
      rw [ht] at hdrop
      have he : isBreak e = true := by simpa using hdrop
      refine .inr ⟨e, t.takeWhile isBreak, t.dropWhile isBreak, ?_, ?_, head_dropWhile_any _ t⟩
      · rw [List.cons_append, List.takeWhile_append_dropWhile]
      · rintro c (_ | ⟨_, hc⟩)
        · exact he
        · exact List.mem_takeWhile_imp hc

theorem isBreak_map_lineFeed {bs : List Char} (hbs : ∀ c ∈ bs, isBreak c = true) :
    ∀ c ∈ bs.map lineFeed, isBreak c = true := by
  intro c hc
  obtain ⟨d, hd, rfl⟩ := List.mem_map.1 hc
  exact isBreak_lineFeed (hbs d hd)

/-- The last line of a block. -/
theorem blockLines_last {line before bs : List Char} {e : Char}
    (hstart : startsLine indent p = true) (hp : p.rest = line ++ e :: (bs ++ (spaces k ++ r)))
    (hline : Inline line) (hbs : ∀ c ∈ e :: bs, isBreak c = true) (hk : k < indent)
    (hr : BeginsLine r) (hn : bs.length < n) :
    blockLines false indent (n + 1) before p
      = ⟨before ++ line, [lineFeed e], bs.map lineFeed,
        p.skip (line.length + 1 + (bs.length + k))⟩ := by
  have he := hbs e List.mem_cons_self
  have htail : ∀ c ∈ bs, isBreak c = true := fun c hc => hbs c (List.mem_cons_of_mem e hc)
  have hcolumn := Cursor.column_skip_break hp he
  have hrest : (p.skip (line.length + 1)).rest = bs ++ (spaces k ++ r) := by
    rw [Cursor.skip_add]
    exact Cursor.rest_step_cons (Cursor.rest_skip_append hp)
  have hbreaks := blockBreaks_eq hrest htail hcolumn (Nat.le_of_lt hk) (.inr hr.not_space)
    hr.not_lineEnd hn
  rw [← Cursor.skip_add] at hbreaks
  have hstop : startsLine indent (p.skip (line.length + 1 + (bs.length + k))) = false := by
    apply startsLine_of_ne
    rw [Cursor.skip_add, Cursor.column_skip_breaks hcolumn hrest htail]
    omega
  rw [blockLines_line hstart hp hline he hbreaks, hstop, if_neg Bool.false_ne_true]

/-- Where the line starts that stands behind empty lines. -/
theorem place_further {line bs : List Char} {e : Char}
    (hp : p.rest = line ++ e :: (bs ++ (spaces indent ++ s)))
    (hbs : ∀ c ∈ e :: bs, isBreak c = true) :
    (p.skip (line.length + 1 + (bs.length + indent))).rest = s ∧
      (p.skip (line.length + 1 + (bs.length + indent))).column = indent := by
  have hcolumn := Cursor.column_skip_break hp (hbs e List.mem_cons_self)
  have hrest : (p.skip (line.length + 1)).rest = bs ++ (spaces indent ++ s) := by
    rw [Cursor.skip_add]
    exact Cursor.rest_step_cons (Cursor.rest_skip_append hp)
  rw [Cursor.skip_add]
  exact ⟨Cursor.rest_skip_append_spaces hrest,
    Cursor.column_skip_breaks hcolumn hrest fun c hc => hbs c (List.mem_cons_of_mem e hc)⟩

/-- A line that a further line follows. -/
theorem blockLines_further {line before bs : List Char} {e : Char}
    (hstart : startsLine indent p = true)
    (hp : p.rest = line ++ e :: (bs ++ (spaces indent ++ s))) (hline : Inline line)
    (hbs : ∀ c ∈ e :: bs, isBreak c = true) (hne : s ≠ [])
    (hend : s.head?.any endsLine = false) (hn : bs.length < n) :
    blockLines false indent (n + 1) before p =
      let more := blockLines false indent n (bs.map lineFeed)
        (p.skip (line.length + 1 + (bs.length + indent)))
      { more with text := before ++ line ++ [lineFeed e] ++ more.text } := by
  have he := hbs e List.mem_cons_self
  have hrest : (p.skip (line.length + 1)).rest = bs ++ (spaces indent ++ s) := by
    rw [Cursor.skip_add]
    exact Cursor.rest_step_cons (Cursor.rest_skip_append hp)
  obtain ⟨hnext, hcolumn⟩ := place_further hp hbs
  have hbreaks := blockBreaks_eq hrest (fun c hc => hbs c (List.mem_cons_of_mem e hc))
    (Cursor.column_skip_break hp he) (Nat.le_refl indent) (.inl rfl) hend hn
  rw [← Cursor.skip_add] at hbreaks
  have hgo := startsLine_of_eq hcolumn (by rwa [hnext])
  rw [blockLines_line hstart hp hline he hbreaks, hgo, if_pos rfl]

theorem readsLines_line {line before : List Char} (hline : ∀ c ∈ line, isBreak c = false)
    (q : Cursor) : ReadsLines line before q ⟨before ++ line, [lineFeed '\n'], [], q⟩ where
  text := by simp [closed_of_line hline, map_lineFeed_line hline]
  one := rfl
  breaks := by simpa using isBreak_lineFeed (c := '\n') rfl
  after := rfl

theorem readsLines_breaks {line before bs : List Char} {e : Char}
    (hline : ∀ c ∈ line, isBreak c = false) (hbs : ∀ c ∈ e :: bs, isBreak c = true)
    (q : Cursor) : ReadsLines (line ++ e :: bs) before q
      ⟨before ++ line, [lineFeed e], bs.map lineFeed, q⟩ where
  text := by
    rw [closed_append (List.cons_ne_nil e bs), closed_of_breaks (List.cons_ne_nil e bs) hbs]
    simp [map_lineFeed_line hline]
  one := rfl
  breaks := isBreak_map_lineFeed hbs
  after := rfl

theorem ReadsLines.behind {line before bs : List Char} {e : Char} {q : Cursor} {more : BlockLines}
    (h : ReadsLines s (bs.map lineFeed) q more) (hline : ∀ c ∈ line, isBreak c = false)
    (hne : s ≠ []) : ReadsLines (line ++ (e :: bs ++ s)) before q
      { more with text := before ++ line ++ [lineFeed e] ++ more.text } where
  text := by
    have htext := h.text
    simp only [List.append_assoc] at htext ⊢
    rw [htext, closed_append (by simp), closed_append hne]
    simp [map_lineFeed_line hline]
  one := h.one
  breaks := h.breaks
  after := h.after

/-- A block is read line by line. -/
theorem blockLines_eq {before : List Char} (hne : s ≠ []) (hhead : s.head?.any isBreak = false)
    (hchars : ∀ c ∈ s, endsLine c = isBreak c)
    (hp : p.rest = literalBody indent false s ++ (spaces k ++ r)) (hcolumn : p.column = indent)
    (hk : k < indent) (hr : BeginsLine r) (hn : s.length < n) :
    ReadsLines s before (p.skip ((literalBody indent false s).length + k))
      (blockLines false indent n before p) := by
  induction hlen : s.length using Nat.strong_induction_on generalizing s before p n with
  | _ len ih =>
    subst hlen
    obtain ⟨line, t, rfl, hlineNe, hline, ht⟩ := exists_line hne hhead
    have hinline : Inline line := fun c hc =>
      (hchars c (List.mem_append_left t hc)).trans (hline c hc)
    have hpos : 0 < line.length := List.length_pos_iff.2 hlineNe
    rw [List.length_append] at hn ih
    obtain ⟨m, rfl⟩ : ∃ m, n = m + 1 := ⟨n - 1, by omega⟩
    rw [literalBody_line hline] at hp ⊢
    have hstart : startsLine indent p = true :=
      startsLine_of_eq hcolumn (by rw [hp]; simp [hlineNe])
    rcases ht with rfl | ⟨e, bs, s', rfl, hbs, hs'⟩
    · -- the text ends inside its last line, which the block ends
      have hp' : p.rest = line ++ '\n' :: ([] ++ (spaces k ++ r)) := by
        rw [hp, literalBody]
        simp
      rw [blockLines_last hstart hp' hinline (by decide) hk hr (show 0 < m by omega),
        List.append_nil]
      simpa [literalBody, Nat.add_assoc] using readsLines_line hline _
    rw [List.cons_append, literalBody, if_pos (hbs e List.mem_cons_self),
      literalBody_breaks fun c hc => hbs c (List.mem_cons_of_mem e hc)] at hp ⊢
    rw [List.length_append, List.length_cons] at hn ih
    by_cases hlast : s' = []
    · -- the text ends with its line breaks
      subst hlast
      have hp' : p.rest = line ++ e :: (bs ++ (spaces k ++ r)) := by
        rw [hp, literalBody]
        simp
      have hlength : (line ++ e :: (bs ++ literalBody indent true [])).length + k
          = line.length + 1 + (bs.length + k) := by
        rw [literalBody, if_pos rfl, List.append_nil, List.length_append, List.length_cons]
        omega
      rw [blockLines_last hstart hp' hinline hbs hk hr (by omega), List.append_nil, hlength]
      exact readsLines_breaks hline hbs _
    · -- a further line follows, which is read by induction
      rw [literalBody_start hlast hs'] at hp ⊢
      have hcharsNext : ∀ d ∈ s', endsLine d = isBreak d := fun d hd =>
        hchars d (List.mem_append_right _ (List.mem_append_right _ hd))
      have hp' : p.rest = line ++ e :: (bs ++ (spaces indent ++
          (literalBody indent false s' ++ (spaces k ++ r)))) := by
        rw [hp]
        simp only [List.append_assoc, List.cons_append]
      obtain ⟨c, s'', rfl⟩ := List.exists_cons_of_ne_nil hlast
      have hc : isBreak c = false := by simpa using hs'
      have hcend : endsLine c = false := (hcharsNext c List.mem_cons_self).trans hc
      obtain ⟨hrestNext, hcolNext⟩ := place_further hp' hbs
      have hmore : ReadsLines (c :: s'') (bs.map lineFeed) _
          (blockLines false indent m (bs.map lineFeed) _) :=
        ih _ (by omega) hlast hs' hcharsNext hrestNext hcolNext (by omega) rfl
      rw [blockLines_further hstart hp' hinline hbs (by simp [literalBody, hc])
        (by simpa [literalBody, hc] using hcend) (by omega)]
      have hlength : (line ++ e :: (bs ++ (spaces indent
          ++ literalBody indent false (c :: s'')))).length + k
            = line.length + 1 + (bs.length + indent)
              + ((literalBody indent false (c :: s'')).length + k) := by
        simp only [List.length_append, List.length_cons, length_spaces]
        omega
      rw [hlength, Cursor.skip_add]
      exact hmore.behind hline hlast

/-! ## Headers -/

/-- What the header says becomes of the last line ends. -/
def chompOf (s : List Char) : Chomp :=
  if !s.getLast?.any isBreak then .strip else if keepsBreaks s then .keep else .clip

/-- The indentation in the header. -/
def hintOf (s : List Char) : Option Nat :=
  if s.head?.any (fun c => c == ' ' || isBreak c) then some 2 else none

theorem blockMarks_blockHints (t : List Char) :
    blockMarks (blockHints s ++ '\n' :: t) = (⟨chompOf s, hintOf s⟩, (blockHints s).length) := by
  unfold blockHints chompOf hintOf
  cases s.head?.any (fun c => c == ' ' || isBreak c) <;> cases s.getLast?.any isBreak <;>
    cases keepsBreaks s <;> rfl

theorem blockHeader_eq (hp : p.rest = blockHints s ++ '\n' :: r) :
    blockHeader p = .ok (⟨chompOf s, hintOf s⟩, p.skip ((blockHints s).length + 1)) := by
  have hrest := Cursor.rest_skip_append hp
  have hzero : (hintOf s == some 0) = false := by
    unfold hintOf
    split <;> rfl
  have hstay : (p.skip (blockHints s).length).skipComment = p.skip (blockHints s).length := by
    have hspaces : (p.skip (blockHints s).length).skipSpaces = p.skip (blockHints s).length :=
      Cursor.skipSpaces_eq (n := 0) hrest rfl
    rw [Cursor.skipComment, hspaces, hrest]
    rfl
  have hfinish : (p.skip (blockHints s).length).finishLine
      = .ok (p.skip ((blockHints s).length + 1)) := by
    rw [Cursor.finishLine, hstay, Cursor.lineEnd?_eq_some hrest (by decide), Cursor.skip_add]
    simp only [hrest]
    rfl
  rw [blockHeader, hp, blockMarks_blockHints]
  simp only [hzero, hrest, hfinish]
  rfl

/-- The indentation that the first line of a block shows. -/
theorem leadingLines_spaces {most : Nat} (hp : p.rest = spaces (k + 1) ++ s)
    (hmost : most ≤ p.column) (hs : BeginsLine s) (hn : k < n) :
    leadingLines n most p = ([], p.column + (k + 1), p.skip (k + 1)) := by
  induction k generalizing p n most with
  | zero =>
    obtain ⟨m, rfl⟩ : ∃ m, n = m + 1 := ⟨n - 1, by omega⟩
    have hcolumn := Cursor.column_step_space hp
    have hrest : p.step.rest = s := Cursor.rest_step_cons hp
    have hend : leadingLines m (p.column + 1) p.step = ([], p.column + 1, p.step) := by
      cases m with
      | zero => rfl
      | succ m =>
        rw [leadingLines, Cursor.lineEnd?_eq_none (by rw [hrest]; exact hs.not_lineEnd), hrest]
        split
        · next h =>
          have hspace := hs.not_space
          cases hspace
        · rfl
    rw [leadingLines, hp]
    show leadingLines m (max most p.step.column) p.step = _
    rw [hcolumn, Nat.max_eq_right (by omega), hend]
    rfl
  | succ k ih =>
    obtain ⟨m, rfl⟩ : ∃ m, n = m + 1 := ⟨n - 1, by omega⟩
    have hcolumn := Cursor.column_step_space hp
    have hrest : p.step.rest = spaces (k + 1) ++ s := Cursor.rest_step_cons hp
    rw [leadingLines, hp]
    show leadingLines m (max most p.step.column) p.step = _
    rw [hcolumn, Nat.max_eq_right (by omega), ih hrest (by omega) (by omega), hcolumn]
    congr 2
    omega

/-! ## Whole blocks -/

/-- A last line that holds no break is the last line of the block. -/
theorem breaks_eq_nil {t bs u : List Char} {e x : Char} (h : t ++ e :: bs = u ++ [x])
    (hbs : ∀ c ∈ e :: bs, isBreak c = true) (hu : u.getLast?.any isBreak = false) :
    bs = [] ∧ t = u ∧ e = x := by
  rcases List.eq_nil_or_concat bs with rfl | ⟨bs', b, rfl⟩
  · obtain ⟨ht, he⟩ := List.append_inj' h rfl
    exact ⟨rfl, ht, (List.cons.inj he).1⟩
  · rw [List.concat_eq_append, ← List.cons_append, ← List.append_assoc] at h
    obtain ⟨rfl, -⟩ := List.append_inj' h rfl
    rw [List.getLast?_append_of_ne_nil _ (List.cons_ne_nil e bs'),
      List.getLast?_eq_some_getLast (List.cons_ne_nil e bs'), Option.any_some, hbs _ ?_] at hu
    · cases hu
    · rw [List.concat_eq_append, ← List.cons_append]
      exact List.mem_append_left _ (List.getLast_mem _)

theorem isBreak_lineFeed_eq (c : Char) : isBreak (lineFeed c) = isBreak c := by
  cases h : isBreak c
  · rw [lineFeed_of_not_isBreak h, h]
  · exact isBreak_lineFeed h

theorem getLast?_map_lineFeed (s : List Char) :
    (s.map lineFeed).getLast?.any isBreak = s.getLast?.any isBreak := by
  rw [List.getLast?_map, Option.any_map]
  congr 1
  exact funext isBreak_lineFeed_eq

/-- The header keeps as many line ends as the text has. -/
theorem chomped_eq {b : BlockLines} {after : Cursor} (h : ReadsLines s [] after b) :
    b.chomped (chompOf s) = s.map lineFeed := by
  obtain ⟨e, he⟩ := List.length_eq_one_iff.1 h.one
  have htext := h.text
  have hbreaks := h.breaks
  rw [he, List.singleton_append] at htext hbreaks
  rw [List.nil_append] at htext
  rw [chompOf]
  cases hlast : s.getLast?.any isBreak
  · rw [closed, hlast, if_neg Bool.false_ne_true, List.map_append] at htext
    obtain ⟨-, ht, -⟩ := breaks_eq_nil htext hbreaks (by rw [getLast?_map_lineFeed, hlast])
    exact ht
  · rw [closed, hlast, if_pos rfl] at htext
    cases hkeep : keepsBreaks s
    · -- one break at the end, behind a character that is none
      have hreverse : s.reverse.reverse = s := List.reverse_reverse s
      rw [keepsBreaks] at hkeep
      cases hs : s.reverse with
      | nil =>
        rw [List.reverse_eq_nil_iff] at hs
        rw [hs] at hlast
        cases hlast
      | cons c t =>
        rw [hs, List.reverse_cons] at hreverse
        rw [← hreverse, List.getLast?_concat, Option.any_some] at hlast
        rw [hs] at hkeep
        cases t with
        | nil =>
          change isBreak c = false at hkeep
          rw [hlast] at hkeep
          cases hkeep
        | cons d t =>
          simp only [hlast, Bool.true_and] at hkeep
          rw [← hreverse, List.map_append] at htext ⊢
          obtain ⟨-, ht, hx⟩ := breaks_eq_nil htext hbreaks (by
            rw [getLast?_map_lineFeed, List.reverse_cons, List.getLast?_concat, Option.any_some,
              hkeep])
          show b.text ++ b.lineEnd = _
          rw [ht, he, hx]
          rfl
    · show b.text ++ b.lineEnd ++ b.breaks = _
      rw [he, List.append_assoc, List.singleton_append, htext]

theorem chompOf_breaks (hne : s ≠ []) (hbs : ∀ c ∈ s, isBreak c = true) : chompOf s = .keep := by
  have hlast : s.getLast?.any isBreak = true := by
    rw [List.getLast?_eq_some_getLast hne, Option.any_some, hbs _ (List.getLast_mem hne)]
  have hkeep : keepsBreaks s = true := by
    have hreverse : ∀ c ∈ s.reverse, isBreak c = true := fun c hc => hbs c (List.mem_reverse.1 hc)
    rw [keepsBreaks]
    match hs : s.reverse with
    | [] => exact absurd (List.reverse_eq_nil_iff.1 hs) hne
    | [c] => exact hreverse c (by rw [hs]; exact List.mem_cons_self)
    | c :: d :: t =>
      rw [hs] at hreverse
      simp only [hreverse c (by simp), hreverse d (by simp), Bool.and_self]
  rw [chompOf, hlast, hkeep]
  rfl

/-- The lines of a block whose indentation is known: the empty ones first. -/
def linesAt (indent n : Nat) (p : Cursor) : BlockLines :=
  blockLines false indent n (blockBreaks indent n p).1 (blockBreaks indent n p).2

/-- The lines of a text of empty lines only. -/
theorem linesAt_breaks {bs : List Char} (hbs : ∀ c ∈ bs, isBreak c = true)
    (hp : p.rest = bs ++ (spaces k ++ r)) (hcolumn : p.column = 0) (hk : k < indent)
    (hr : BeginsLine r) (hn : bs.length < n) :
    linesAt indent n p = ⟨[], [], bs.map lineFeed, p.skip (bs.length + k)⟩ := by
  have hbreaks := blockBreaks_eq hp hbs hcolumn (Nat.le_of_lt hk) (.inr hr.not_space)
    hr.not_lineEnd hn
  have hstop : startsLine indent (p.skip (bs.length + k)) = false := by
    apply startsLine_of_ne
    rw [Cursor.column_skip_breaks hcolumn hp hbs]
    omega
  obtain ⟨m, rfl⟩ : ∃ m, n = m + 1 := ⟨n - 1, by omega⟩
  rw [linesAt, hbreaks, blockLines, hstop, if_neg Bool.false_ne_true]

theorem linesAt_eq (hne : s ≠ []) (hchars : ∀ c ∈ s, endsLine c = isBreak c)
    (hp : p.rest = literalBody indent true s ++ (spaces k ++ r)) (hcolumn : p.column = 0)
    (hk : k < indent) (hr : BeginsLine r) (hn : s.length < n) :
    (linesAt indent n p).chomped (chompOf s) = s.map lineFeed ∧
      (linesAt indent n p).after = p.skip ((literalBody indent true s).length + k) := by
  obtain ⟨bs, s', rfl, hbs, hs'⟩ : ∃ bs s', s = bs ++ s' ∧ (∀ c ∈ bs, isBreak c = true) ∧
      s'.head?.any isBreak = false :=
    ⟨s.takeWhile isBreak, s.dropWhile isBreak, List.takeWhile_append_dropWhile.symm,
      fun c hc => List.mem_takeWhile_imp hc, head_dropWhile_any _ s⟩
  rw [literalBody_breaks hbs, List.append_assoc] at hp
  rw [literalBody_breaks hbs, List.length_append]
  rw [List.length_append] at hn
  by_cases hlast : s' = []
  · -- a text of empty lines only
    subst hlast
    rw [List.append_nil] at hne ⊢
    rw [literalBody, if_pos rfl, List.nil_append] at hp
    rw [linesAt_breaks hbs hp hcolumn hk hr (by omega), chompOf_breaks hne hbs]
    exact ⟨rfl, rfl⟩
  · obtain ⟨c, s'', rfl⟩ := List.exists_cons_of_ne_nil hlast
    have hc : isBreak c = false := by simpa using hs'
    have hcend : endsLine c = false := (hchars c (by simp)).trans hc
    rw [literalBody_start hlast hs', List.append_assoc] at hp
    rw [literalBody_start hlast hs', List.length_append, length_spaces]
    have hbreaks := blockBreaks_eq (n := n) hp hbs hcolumn (Nat.le_refl indent) (.inl rfl)
      (by simpa [literalBody, hc] using hcend) (by omega)
    have hread : ReadsLines (c :: s'') (bs.map lineFeed) _
        (blockLines false indent n (bs.map lineFeed) _) :=
      blockLines_eq hlast hs' (fun d hd => hchars d (List.mem_append_right _ hd))
        (Cursor.rest_skip_append_spaces hp) (Cursor.column_skip_breaks hcolumn hp hbs) hk hr (by omega)
    have hafter : (linesAt indent n p).after
        = p.skip (bs.length + (indent + (literalBody indent false (c :: s'')).length) + k) := by
      rw [linesAt, hbreaks, hread.after, ← Cursor.skip_add]
      congr 1
      omega
    refine ⟨chomped_eq (s := bs ++ c :: s'') ⟨?_, ?_, ?_, hafter⟩, hafter⟩
    · rw [linesAt, hbreaks, hread.text, closed_append hlast, List.map_append, List.nil_append]
    · rw [linesAt, hbreaks]
      exact hread.one
    · rw [linesAt, hbreaks]
      exact hread.breaks

/-- The lines of a block whose indentation is that of its first line. -/
def linesAfter (least n : Nat) (p : Cursor) : BlockLines :=
  blockLines false (max (max least 1) (leadingLines n 0 p).2.1) n (leadingLines n 0 p).1
    (leadingLines n 0 p).2.2

theorem linesAfter_eq {least : Nat} (hne : s ≠ []) (hchars : ∀ c ∈ s, endsLine c = isBreak c)
    (hhead : s.head?.any (fun c => c == ' ' || isBreak c) = false)
    (hp : p.rest = literalBody indent true s ++ (spaces k ++ r)) (hcolumn : p.column = 0)
    (hindent : max least 1 ≤ indent) (hk : k < indent) (hr : BeginsLine r)
    (hn : (literalBody indent true s).length < n) (hns : s.length < n) :
    (linesAfter least n p).chomped (chompOf s) = s.map lineFeed ∧
      (linesAfter least n p).after = p.skip ((literalBody indent true s).length + k) := by
  obtain ⟨c, s', rfl⟩ := List.exists_cons_of_ne_nil hne
  rw [List.head?_cons, Option.any_some, Bool.or_eq_false_iff] at hhead
  have hs : (c :: s').head?.any isBreak = false := hhead.2
  rw [literalBody_start hne hs, List.append_assoc] at hp
  rw [literalBody_start hne hs, List.length_append, length_spaces] at hn ⊢
  obtain ⟨j, rfl⟩ : ∃ j, indent = j + 1 := ⟨indent - 1, by omega⟩
  have hbegins : BeginsLine (literalBody (j + 1) false (c :: s') ++ (spaces k ++ r)) := by
    rw [literalBody, hhead.2]
    exact ⟨hhead.1, (hchars c List.mem_cons_self).trans hhead.2⟩
  have hleading := leadingLines_spaces (n := n) hp (Nat.zero_le _) hbegins (by omega)
  have hrest := Cursor.rest_skip_spaces hp
  have hcol : (p.skip (j + 1)).column = j + 1 := by
    rw [Cursor.column_skip_spaces hp, hcolumn, Nat.zero_add]
  have hread : ReadsLines (c :: s') [] _ (blockLines false (j + 1) n [] (p.skip (j + 1))) :=
    blockLines_eq hne hs hchars hrest hcol hk hr hns
  have hlines : linesAfter least n p = blockLines false (j + 1) n [] (p.skip (j + 1)) := by
    rw [linesAfter, hleading, hcolumn, Nat.zero_add, Nat.max_eq_right hindent]
  rw [hlines, hread.after, ← Cursor.skip_add, ← Nat.add_assoc]
  exact ⟨chomped_eq hread, rfl⟩

theorem length_le_literalBody (start : Bool) : s.length ≤ (literalBody indent start s).length := by
  induction s generalizing start with
  | nil => exact Nat.zero_le _
  | cons c s ih =>
    rw [literalBody]
    split
    · exact Nat.succ_le_succ (ih true)
    · rw [List.length_append, List.length_cons, List.length_cons]
      have := ih false
      omega

/-- A literal block is read with every line break as a line end. -/
theorem blockText_literal {fold : Bool} {least column : Nat} (hne : s ≠ [])
    (hchars : ∀ c ∈ s, endsLine c = isBreak c) (hindent : indent = max least 1 + 1)
    (hp : p.rest = styled .literal fold indent column s ++ (spaces k ++ r)) (hk : k < indent)
    (hr : BeginsLine r) (hn : (styled .literal fold indent column s).length < n) :
    blockText false least n p
      = .ok (s.map lineFeed, p.skip ((styled .literal fold indent column s).length + k)) := by
  have hheader : p.step.rest
      = blockHints s ++ '\n' :: (literalBody indent true s ++ (spaces k ++ r)) := by
    rw [styled, List.cons_append, List.cons_append, List.append_assoc, List.cons_append] at hp
    exact Cursor.rest_step_cons hp
  have hlength : (styled .literal fold indent column s).length
      = (blockHints s).length + 1 + (literalBody indent true s).length + 1 := by
    rw [styled, List.length_append, List.length_cons, List.length_cons]
    omega
  rw [hlength] at hn ⊢
  have hcolumn := Cursor.column_skip_break hheader (by decide)
  have hrest : (p.step.skip ((blockHints s).length + 1)).rest
      = literalBody indent true s ++ (spaces k ++ r) := by
    rw [Cursor.skip_add]
    exact Cursor.rest_step_cons (Cursor.rest_skip_append hheader)
  have hlen : s.length ≤ (literalBody indent true s).length := length_le_literalBody true
  have hafter : (p.step.skip ((blockHints s).length + 1)).skip
      ((literalBody indent true s).length + k)
        = p.skip ((blockHints s).length + 1 + (literalBody indent true s).length + 1 + k) := by
    rw [← Cursor.skip_add, ← Cursor.skip]
    congr 1
    omega
  rw [blockText, blockHeader_eq hheader]
  by_cases hhead : s.head?.any (fun c => c == ' ' || isBreak c) = true
  · obtain ⟨htext, hplace⟩ := linesAt_eq (n := n) hne hchars hrest hcolumn hk hr (by omega)
    have hwidth : max least 1 + 2 - 1 = indent := by omega
    rw [hintOf, if_pos hhead]
    show Except.ok ((linesAt (max least 1 + 2 - 1) n _).chomped (chompOf s),
      (linesAt (max least 1 + 2 - 1) n _).after) = _
    rw [hwidth, htext, hplace, hafter]
  · obtain ⟨htext, hplace⟩ := linesAfter_eq (n := n) hne hchars (Bool.not_eq_true _ ▸ hhead)
      hrest hcolumn (by omega : max least 1 ≤ indent) hk hr (by omega) (by omega)
    rw [hintOf, if_neg hhead]
    show Except.ok ((linesAfter least n _).chomped (chompOf s), (linesAfter least n _).after) = _
    rw [htext, hplace, hafter]

end AppPipeline.Yaml
