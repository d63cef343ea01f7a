import AppPipeline.Yaml.Cursor

/-!
# Moving through a text

What `Cursor.skip` does to the place of a cursor that a known text follows. Inside a
line the column never falls and the index grows by the number of codes
(`index_skip_inline`); at the end of a line the column starts again
(`column_skip_line`) and the line is left behind (`line_lt_skip`).
-/

namespace AppPipeline.Text

/-- What all characters of a text are is decided over the text; an instance for all characters
would go through every one there is. -/
instance (priority := 2000) decidableAllChars {p : Char → Prop} [DecidablePred p]
    (s : List Char) : Decidable (∀ c ∈ s, p c) := List.decidableBAll p s

theorem takenMark_ne {c : Char} (h : c.toNat ≠ 0x10E000) : c ≠ takenMark :=
  fun he => h ((eq_takenMark_iff c).1 he)

end AppPipeline.Text

namespace AppPipeline.Yaml

theorem spaces_succ (n : Nat) : spaces (n + 1) = ' ' :: spaces n := rfl

theorem length_spaces (n : Nat) : (spaces n).length = n := List.length_replicate

theorem mem_spaces {n : Nat} {c : Char} (h : c ∈ spaces n) : c = ' ' := List.eq_of_mem_replicate h

/-- What is read for a line break. -/
def lineFeed (c : Char) : Char := if c.toNat = 0x85 then '\n' else c

/-- No character of the text ends a line. -/
def Inline (w : List Char) : Prop := ∀ c ∈ w, endsLine c = false

theorem Inline.of_cons {c : Char} {w : List Char} (h : Inline (c :: w)) :
    endsLine c = false ∧ Inline w :=
  ⟨h c List.mem_cons_self, fun d hd => h d (List.mem_cons_of_mem c hd)⟩

/-- The text begins with no space and no line end; it may be empty. -/
structure BeginsLine (s : List Char) : Prop where
  not_space : s.head?.any (· == ' ') = false
  not_lineEnd : s.head?.any endsLine = false

namespace Cursor

variable {p : Cursor} {c : Char} {s w r : List Char}

/-! ## One step -/

theorem step_eq_of_inline (hp : p.rest = c :: s) (hc : endsLine c = false) :
    p.step = if Text.isMarkBefore c s then ⟨s, p.index, p.line, p.column⟩
      else ⟨s, p.index + 1, p.line, if c == byteOrderMark then p.column else p.column + 1⟩ := by
  rw [endsLine, Bool.or_eq_false_iff] at hc
  unfold step
  rw [hp]
  simp only [hc.1, hc.2, Bool.false_and, Bool.or_false, Bool.false_eq_true, if_false]

theorem line_step_inline (hp : p.rest = c :: s) (hc : endsLine c = false) :
    p.step.line = p.line := by
  rw [step_eq_of_inline hp hc]
  split <;> rfl

theorem column_step_inline (hp : p.rest = c :: s) (hc : endsLine c = false) :
    p.column ≤ p.step.column := by
  rw [step_eq_of_inline hp hc]
  split
  · exact Nat.le_refl _
  · dsimp only
    split <;> omega

theorem column_step_printable (hp : p.rest = c :: s) (hc : 0x20 ≤ c.toNat ∧ c.toNat ≤ 0x7E) :
    p.step.column = p.column + 1 := by
  have hend : endsLine c = false := by
    rw [endsLine, isBreak, isBreakCode, Bool.or_eq_false_iff, beq_eq_false_iff_ne]
    refine ⟨?_, ?_⟩
    · rintro rfl
      exact absurd hc (by decide)
    · simp
      omega
  have hmark : Text.isMarkBefore c s = false := by
    rw [Text.isMarkBefore, decide_eq_false (Text.takenMark_ne (by omega)), Bool.false_and]
  have horder : (c == byteOrderMark) = false := by
    rw [beq_eq_false_iff_ne]
    rintro rfl
    exact absurd hc (by decide)
  rw [step_eq_of_inline hp hend, hmark, horder]
  rfl

theorem column_step_space (hp : p.rest = ' ' :: s) : p.step.column = p.column + 1 :=
  column_step_printable hp (by decide)

theorem step_eq_of_break (hp : p.rest = c :: s) (hc : isBreak c = true) :
    p.step = ⟨s, p.index + 1, p.line + 1, 0⟩ := by
  unfold step
  rw [hp]
  simp only [hc, Bool.true_or, if_true]

theorem line_le_step (p : Cursor) : p.line ≤ p.step.line := by
  unfold step
  split
  · exact Nat.le_refl _
  · split
    · exact Nat.le_succ _
    · split <;> exact Nat.le_refl _

/-! ## Many steps -/

theorem rest_skip_append (hp : p.rest = w ++ r) : (p.skip w.length).rest = r := by
  rw [rest_skip, hp, List.drop_left]

theorem rest_skip_spaces {n : Nat} (hp : p.rest = spaces n ++ r) : (p.skip n).rest = r := by
  have h := rest_skip_append hp
  rwa [length_spaces] at h

/-- Behind empty lines and the indentation of the next one. -/
theorem rest_skip_append_spaces {k : Nat} (hp : p.rest = w ++ (spaces k ++ r)) :
    (p.skip (w.length + k)).rest = r := by
  rw [skip_add]
  exact rest_skip_spaces (rest_skip_append hp)

theorem rest_step_cons (hp : p.rest = c :: s) : p.step.rest = s := by
  rw [rest_step, hp]
  rfl

theorem line_le_skip (n : Nat) (p : Cursor) : p.line ≤ (p.skip n).line := by
  induction n generalizing p with
  | zero => exact Nat.le_refl _
  | succ n ih => exact Nat.le_trans (line_le_step p) (ih p.step)

theorem line_skip_inline (hp : p.rest = w ++ r) (hw : Inline w) :
    (p.skip w.length).line = p.line := by
  induction w generalizing p with
  | nil => rfl
  | cons c w ih =>
    obtain ⟨hc, hw⟩ := hw.of_cons
    rw [List.length_cons, skip, ih (rest_step_cons hp) hw, line_step_inline hp hc]

theorem column_skip_inline (hp : p.rest = w ++ r) (hw : Inline w) :
    p.column ≤ (p.skip w.length).column := by
  induction w generalizing p with
  | nil => exact Nat.le_refl _
  | cons c w ih =>
    obtain ⟨hc, hw⟩ := hw.of_cons
    exact Nat.le_trans (column_step_inline hp hc) (ih (rest_step_cons hp) hw)

theorem column_skip_spaces {n : Nat} (hp : p.rest = spaces n ++ r) :
    (p.skip n).column = p.column + n := by
  induction n generalizing p with
  | zero => rfl
  | succ n ih =>
    rw [spaces_succ, List.cons_append] at hp
    rw [skip, ih (rest_step_cons hp), column_step_space hp, Nat.add_assoc, Nat.add_comm 1]

/-- A line is left behind where it ends. -/
theorem line_lt_skip (hp : p.rest = w ++ c :: r) (hc : isBreak c = true) {n : Nat}
    (hn : w.length < n) : p.line < (p.skip n).line := by
  obtain ⟨m, rfl⟩ : ∃ m, n = w.length + (1 + m) := ⟨n - w.length - 1, by omega⟩
  rw [skip_add, skip_add]
  refine Nat.lt_of_le_of_lt (line_le_skip w.length p) (Nat.lt_of_lt_of_le ?_ (line_le_skip m _))
  rw [skip, skip, step_eq_of_break (rest_skip_append hp) hc]
  exact Nat.lt_succ_self _

theorem column_skip_break (hp : p.rest = w ++ c :: r) (hc : isBreak c = true) :
    (p.skip (w.length + 1)).column = 0 := by
  rw [skip_add, skip, skip, step_eq_of_break (rest_skip_append hp) hc]

/-- Behind empty lines the column is the number of spaces. -/
theorem column_skip_breaks {k : Nat} (hcolumn : p.column = 0) (hp : p.rest = w ++ (spaces k ++ r))
    (hw : ∀ c ∈ w, isBreak c = true) : (p.skip (w.length + k)).column = k := by
  induction w generalizing p with
  | nil =>
    rw [List.length_nil, Nat.zero_add, column_skip_spaces hp, hcolumn, Nat.zero_add]
  | cons c w ih =>
    have hc := hw c List.mem_cons_self
    rw [List.cons_append] at hp
    rw [List.length_cons, Nat.add_right_comm, skip]
    exact ih (by rw [step_eq_of_break hp hc]) (rest_step_cons hp)
      fun d hd => hw d (List.mem_cons_of_mem c hd)

/-- On a new line the column is the number of spaces that it starts with. -/
theorem column_skip_line {n : Nat} (hp : p.rest = w ++ c :: spaces n ++ r)
    (hc : isBreak c = true) : (p.skip (w.length + 1 + n)).column = n := by
  rw [List.append_assoc, List.cons_append] at hp
  have hstep := step_eq_of_break (rest_skip_append hp) hc
  rw [skip_add, skip_add, skip, skip, column_skip_spaces (r := r) (by rw [hstep]), hstep]
  exact Nat.zero_add n

/-- Inside a line the index counts the codes. -/
theorem index_skip_inline (hp : p.rest = w ++ r) (hw : Inline w)
    (hr : r.head?.any Text.followsMark = false) :
    (p.skip w.length).index = p.index + (Text.codes w).length := by
  fun_induction Text.codes w generalizing p with
  | case1 => rfl
  | case2 c =>
    have hmark : Text.isMarkBefore c r = false := by rw [Text.isMarkBefore, hr, Bool.and_false]
    rw [List.singleton_append] at hp
    rw [List.length_singleton, skip, skip, step_eq_of_inline hp (hw c List.mem_cons_self), hmark]
    rfl
  | case3 c d rest h ih =>
    obtain ⟨hc, hd, hrest⟩ := hw.of_cons.imp_right Inline.of_cons
    rw [Bool.and_eq_true, decide_eq_true_eq] at h
    rw [List.cons_append, List.cons_append] at hp
    have hbefore : Text.isMarkBefore c (d :: (rest ++ r)) = true := by
      rw [Text.isMarkBefore, decide_eq_true h.1]
      exact h.2
    have hdmark : Text.isMarkBefore d (rest ++ r) = false := by
      have hfollows := (Text.followsMark_iff d).1 h.2
      rw [Text.isMarkBefore, decide_eq_false (Text.takenMark_ne (by omega)), Bool.false_and]
    have hp₁ := rest_step_cons hp
    have hindex : p.step.step.index = p.index + 1 := by
      rw [step_eq_of_inline hp₁ hd, hdmark, step_eq_of_inline hp hc, hbefore]
      rfl
    rw [List.length_cons, List.length_cons, skip, skip, ih (rest_step_cons hp₁) hrest, hindex,
      List.length_cons, Nat.add_assoc, Nat.add_comm 1]
  | case4 c d rest h ih =>
    obtain ⟨hc, hrest⟩ := hw.of_cons
    have hmark : Text.isMarkBefore c (d :: rest ++ r) = false := by
      rw [Text.isMarkBefore]
      exact Bool.not_eq_true _ |>.mp h
    rw [List.cons_append] at hp
    have hindex : p.step.index = p.index + 1 := by
      rw [step_eq_of_inline hp hc, hmark]
      rfl
    rw [List.length_cons, skip, ih (rest_step_cons hp) hrest, hindex, List.length_cons,
      Nat.add_assoc, Nat.add_comm 1]

/-! ## Skipping classes of characters -/

theorem takeWhile_append_of_head {f : Char → Bool} (hw : ∀ c ∈ w, f c = true)
    (hr : r.head?.any f = false) : (w ++ r).takeWhile f = w := by
  rw [List.takeWhile_append_of_pos hw]
  cases r with
  | nil => exact List.append_nil w
  | cons c r =>
    have hc : f c = false := by simpa using hr
    rw [List.takeWhile_cons, hc]
    exact List.append_nil w

theorem rest_skipWhile (f : Char → Bool) (p : Cursor) :
    (p.skipWhile f).rest = p.rest.dropWhile f :=
  rest_skip_append List.takeWhile_append_dropWhile.symm

theorem skipWhile_eq {f : Char → Bool} (hp : p.rest = w ++ r) (hw : ∀ c ∈ w, f c = true)
    (hr : r.head?.any f = false) : p.skipWhile f = p.skip w.length := by
  rw [skipWhile, hp, takeWhile_append_of_head hw hr]

theorem skipSpaces_eq {n : Nat} (hp : p.rest = spaces n ++ r)
    (hr : r.head?.any (· == ' ') = false) : p.skipSpaces = p.skip n := by
  have h := skipWhile_eq (f := (· == ' ')) hp (fun c hc => by rw [mem_spaces hc]; rfl) hr
  rwa [length_spaces] at h

/-! ## Line ends -/

theorem lineEnd?_eq_none (hr : p.rest.head?.any endsLine = false) : p.lineEnd? = none := by
  rw [lineEnd?]
  split
  · next h => rw [h] at hr; cases hr
  · next c _ _ h =>
    rw [h] at hr
    have hc : endsLine c = false := by simpa using hr
    rw [endsLine, Bool.or_eq_false_iff] at hc
    have hfeed : (c == '\n') = false := by
      rw [beq_eq_false_iff_ne]
      rintro rfl
      exact absurd hc.2 (by decide)
    have hnext : (c.toNat == 0x85) = false := by
      have hb := hc.2
      rw [isBreak, isBreakCode] at hb
      cases hn : c.toNat == 0x85
      · rfl
      · rw [hn] at hb
        simp at hb
    simp [hc.1, hc.2, hfeed, hnext]
  · rfl

theorem lineEnd?_eq_some (hp : p.rest = c :: s) (hc : isBreak c = true) :
    p.lineEnd? = some (lineFeed c, p.step) := by
  have hreturn : c ≠ '\r' := by
    rintro rfl
    exact absurd hc (by decide)
  rw [lineEnd?, hp]
  split
  · next h => exact absurd (List.cons.inj h).1 hreturn
  · next d t _ h =>
    obtain ⟨rfl, rfl⟩ := List.cons.inj h
    rw [lineFeed]
    by_cases hfeed : c = '\n'
    · subst hfeed; rfl
    · by_cases hnext : c.toNat = 0x85
      · simp [hnext]
      · simp [hreturn, hfeed, hnext, hc]
  · next h => cases h

end Cursor

end AppPipeline.Yaml
