import AppPipeline.Proofs.Yaml.Quoting

/-!
# Plain texts

A plain text is words with spaces between them. `Folded` says how it may be written: a
lone space may become a new line. However it is folded, it is read as it was
(`plainText_of_folded`).
-/

namespace AppPipeline.Yaml

open Text (charsOf codes)

/-! ## Folded texts -/

/-- `Folded indent behind s w`: the text `s` is written as `w`, where new lines are
indented by `indent` columns. `behind` says that a space stands right before. -/
inductive Folded (indent : Nat) : Bool → List Char → List Char → Prop
  | nil {behind : Bool} : Folded indent behind [] []
  | char {behind : Bool} {c : Char} {s w : List Char} (ink : c ≠ ' ')
      (tail : Folded indent false s w) : Folded indent behind (c :: s) (c :: w)
  | blank {behind : Bool} {s w : List Char} (tail : Folded indent true s w) :
      Folded indent behind (' ' :: s) (' ' :: w)
  | fold {s w : List Char} (lone : s.head? ≠ some ' ') (tail : Folded indent true s w) :
      Folded indent false (' ' :: s) ('\n' :: spaces indent ++ w)

variable {indent n : Nat} {behind : Bool} {s w u r : List Char} {p : Cursor}

theorem Folded.append (hu : ∀ c ∈ u, c ≠ ' ') (hne : u ≠ []) (h : Folded indent false s w) :
    Folded indent behind (u ++ s) (u ++ w) := by
  induction u generalizing behind with
  | nil => exact absurd rfl hne
  | cons c u ih =>
    refine .char (hu c List.mem_cons_self) ?_
    by_cases hnil : u = []
    · rw [hnil]
      exact h
    · exact ih (fun d hd => hu d (List.mem_cons_of_mem c hd)) hnil

/-- A word is written as it is. -/
theorem Folded.word (h : Folded indent behind (u ++ s) w) (hu : ∀ c ∈ u, c ≠ ' ')
    (hne : u ≠ []) : ∃ w', w = u ++ w' ∧ Folded indent false s w' := by
  induction u generalizing behind w with
  | nil => exact absurd rfl hne
  | cons c u ih =>
    have hc := hu c List.mem_cons_self
    cases h with
    | char _ tail =>
      by_cases hnil : u = []
      · subst hnil
        exact ⟨_, rfl, tail⟩
      · obtain ⟨w', rfl, hs⟩ := ih tail (fun d hd => hu d (List.mem_cons_of_mem c hd)) hnil
        exact ⟨w', rfl, hs⟩
    | blank => exact absurd rfl hc
    | fold => exact absurd rfl hc

/-- Spaces behind a space are written as they are. -/
theorem Folded.spaces {k : Nat} (h : Folded indent true (spaces k ++ s) w) :
    ∃ w', w = Yaml.spaces k ++ w' ∧ Folded indent true s w' := by
  induction k generalizing w with
  | zero => exact ⟨w, rfl, h⟩
  | succ k ih =>
    rw [spaces_succ, List.cons_append] at h
    cases h with
    | char ink => exact absurd rfl ink
    | blank tail =>
      obtain ⟨w', rfl, hs⟩ := ih tail
      exact ⟨w', rfl, hs⟩

theorem Folded.nil_inv (h : Folded indent behind [] w) : w = [] := by
  cases h
  rfl

theorem Folded.length_le (h : Folded indent behind s w) : s.length ≤ w.length := by
  induction h with
  | nil => exact Nat.le_refl _
  | char _ _ ih => exact Nat.succ_le_succ ih
  | blank _ ih => exact Nat.succ_le_succ ih
  | fold _ _ ih =>
    rw [List.length_cons, List.length_append, List.length_cons]
    omega

/-- A word is written as it is. -/
theorem folded_word (hu : ∀ c ∈ u, c ≠ ' ') (hne : u ≠ []) : Folded indent behind u u := by
  have h : Folded indent behind (u ++ []) (u ++ []) := Folded.append hu hne .nil
  rwa [List.append_nil] at h

/-! ## Reading -/

/-- Words with spaces between them, and no mark that would end the text. -/
structure Wordy (s : List Char) : Prop where
  ne_nil : s ≠ []
  first : s.head? ≠ some ' '
  last : s.getLast? ≠ some ' '
  separators : ∀ c ∈ s, isSeparator c = true → c = ' '
  inner : hasInnerIndicator (' ' :: s) = false

theorem hasInnerIndicator_cons {c : Char} (h : hasInnerIndicator (c :: s) = false) :
    hasInnerIndicator s = false := by
  cases s with
  | nil => rfl
  | cons d s =>
    rw [hasInnerIndicator, Bool.or_eq_false_iff] at h
    exact h.2

theorem hasInnerIndicator_append (h : hasInnerIndicator (u ++ s) = false) :
    hasInnerIndicator s = false := by
  induction u with
  | nil => exact h
  | cons c u ih => exact ih (hasInnerIndicator_cons h)

/-- A colon at the end of a word would end the text. -/
theorem getLast?_ne_colon {c : Char} (h : hasInnerIndicator (c :: (u ++ r)) = false)
    (hr : separated r = true) : u.getLast? ≠ some ':' := by
  induction u generalizing c with
  | nil => simp
  | cons d u ih =>
    cases u with
    | nil =>
      intro hlast
      obtain rfl : d = ':' := by simpa using hlast
      rw [List.cons_append, List.nil_append, hasInnerIndicator, hr] at h
      cases h
    | cons e u =>
      rw [List.getLast?_cons_cons]
      exact ih (hasInnerIndicator_cons h)

theorem untilStop_word (hu : ∀ c ∈ u, isSeparator c = false) (hlast : u.getLast? ≠ some ':')
    (hr : plainStops false r = true) : untilStop (plainStops false) (u ++ r) = u := by
  induction u with
  | nil =>
    cases r with
    | nil => rfl
    | cons c r => rw [List.nil_append, untilStop, if_pos hr]
  | cons c u ih =>
    have hc := hu c List.mem_cons_self
    have hstop : plainStops false (c :: (u ++ r)) = false := by
      rw [plainStops, hc]
      cases u with
      | nil =>
        have hcolon : (c == ':') = false := beq_eq_false_iff_ne.2 fun h => hlast (by rw [h]; rfl)
        rw [hcolon]
        rfl
      | cons d u =>
        rw [List.cons_append, separated, hu d (by simp)]
        simp
    have htail : u.getLast? ≠ some ':' := by
      cases u with
      | nil => simp
      | cons d u => rwa [List.getLast?_cons_cons] at hlast
    rw [List.cons_append, untilStop, hstop, if_neg Bool.false_ne_true,
      ih (fun d hd => hu d (List.mem_cons_of_mem c hd)) htail]

/-- The spaces that a text begins with. -/
theorem exists_spaces (s : List Char) :
    ∃ k t, s = spaces k ++ t ∧ t.head?.any (· == ' ') = false := by
  refine ⟨(s.takeWhile (· == ' ')).length, s.dropWhile (· == ' '), ?_, head_dropWhile_any _ s⟩
  have hspaces : s.takeWhile (· == ' ') = spaces (s.takeWhile (· == ' ')).length :=
    List.eq_replicate_length.2 fun c hc => by simpa using List.mem_takeWhile_imp hc
  rw [← hspaces]
  exact List.takeWhile_append_dropWhile.symm

/-- The text behind the spaces that a word ends at. -/
theorem Wordy.behind_spaces {k : Nat} (h : Wordy (u ++ (spaces (k + 1) ++ s)))
    (hs : s.head?.any (· == ' ') = false) : Wordy s := by
  have hne : s ≠ [] := by
    rintro rfl
    refine h.last ?_
    rw [List.append_nil, List.getLast?_append]
    have hspaces : (spaces (k + 1)).getLast? = some ' ' := by
      rw [spaces, List.getLast?_replicate, if_neg (Nat.succ_ne_zero k)]
    rw [hspaces]
    rfl
  refine ⟨hne, ?_, ?_, ?_, ?_⟩
  · intro hhead
    rw [hhead] at hs
    cases hs
  · intro hlast
    refine h.last ?_
    rw [List.getLast?_append, List.getLast?_append, hlast]
    rfl
  · exact fun c hc => h.separators c (List.mem_append_right _ (List.mem_append_right _ hc))
  · have hspace : hasInnerIndicator (spaces (k + 1) ++ s) = false := by
      have := h.inner
      rw [← List.cons_append] at this
      exact hasInnerIndicator_append this
    rw [show spaces (k + 1) = spaces k ++ [' '] from List.replicate_succ', List.append_assoc]
      at hspace
    exact hasInnerIndicator_append hspace

theorem not_separator_not_endsLine {c : Char} (h : isSeparator c = false) :
    endsLine c = false := by
  rw [isSeparator, Bool.or_eq_false_iff, Bool.or_eq_false_iff] at h
  rw [endsLine, h.1.2, h.2]
  rfl

/-- A word that does not begin a comment and does not end a key. -/
structure IsWord (u : List Char) : Prop where
  ne_nil : u ≠ []
  separators : ∀ c ∈ u, isSeparator c = false
  last : u.getLast? ≠ some ':'
  first : u.head? ≠ some '#'

theorem IsWord.ne_space (h : IsWord u) : ∀ c ∈ u, c ≠ ' ' := by
  rintro c hc rfl
  exact Bool.noConfusion (h.separators ' ' hc)

theorem IsWord.inline (h : IsWord u) : Inline u := fun c hc =>
  not_separator_not_endsLine (h.separators c hc)

/-- The text from a word on: the word, then the end or spaces and a further word. -/
theorem Wordy.word (h : Wordy s) :
    ∃ u t, s = u ++ t ∧ IsWord u ∧ (t = [] ∨ ∃ k t', t = spaces (k + 1) ++ t' ∧ Wordy t') := by
  obtain ⟨u, t, rfl, hu, ht⟩ : ∃ u t, s = u ++ t ∧ (∀ c ∈ u, c ≠ ' ') ∧
      t.head?.any (· != ' ') = false :=
    ⟨s.takeWhile (· != ' '), s.dropWhile (· != ' '), List.takeWhile_append_dropWhile.symm,
      fun c hc => by simpa using List.mem_takeWhile_imp hc, head_dropWhile_any _ s⟩
  have hspace : t = [] ∨ ∃ t', t = ' ' :: t' := by
    cases t with
    | nil => exact .inl rfl
    | cons c t' =>
      obtain rfl : c = ' ' := by simpa using ht
      exact .inr ⟨t', rfl⟩
  have hne : u ≠ [] := by
    rintro rfl
    rcases hspace with rfl | ⟨t', rfl⟩
    · exact h.ne_nil rfl
    · exact h.first rfl
  refine ⟨u, t, rfl, ⟨hne, ?_, ?_, ?_⟩, ?_⟩
  · intro c hc
    rw [← Bool.not_eq_true]
    exact fun hsep => hu c hc (h.separators c (List.mem_append_left t hc) hsep)
  · refine getLast?_ne_colon h.inner ?_
    rcases hspace with rfl | ⟨t', rfl⟩ <;> rfl
  · cases u with
    | nil => exact absurd rfl hne
    | cons c u =>
      intro hc
      obtain rfl := Option.some.inj hc
      have hinner := h.inner
      rw [List.cons_append, hasInnerIndicator] at hinner
      simp [isSeparator] at hinner
  · refine hspace.imp id ?_
    rintro ⟨t', rfl⟩
    obtain ⟨k, v, rfl, hv⟩ := exists_spaces t'
    exact ⟨k, v, rfl, h.behind_spaces hv⟩

/-! ### Gaps -/

theorem plainGap_spaces {k : Nat} (hp : p.rest = spaces k ++ s) (hs : BeginsLine s) :
    plainGap n p = ⟨spaces k, false, p.skip k⟩ := by
  have hafter : (p.skip k).rest = s := Cursor.rest_skip_spaces hp
  have hnone : (p.skip k).lineEnd? = none :=
    Cursor.lineEnd?_eq_none (by rw [hafter]; exact hs.not_lineEnd)
  have htake : p.rest.takeWhile (· == ' ') = spaces k := by
    rw [hp]
    exact Cursor.takeWhile_append_of_head (fun c hc => by rw [mem_spaces hc]; rfl) hs.not_space
  simp only [plainGap, Cursor.skipSpaces_eq hp hs.not_space, hnone, htake]

/-- The gap at the end of a line that an ordinary line follows. -/
theorem plainGap_line {k : Nat} (hp : p.rest = '\n' :: (spaces k ++ s))
    (hmark : isDocumentMark (spaces k ++ s) = false) (hs : BeginsLine s) (hn : 0 < n) :
    plainGap n p = ⟨[' '], true, p.skip (k + 1)⟩ := by
  obtain ⟨m, rfl⟩ : ∃ m, n = m + 1 := ⟨n - 1, by omega⟩
  have hrest := Cursor.rest_step_cons hp
  have hafter : (p.step.skip k).rest = s := Cursor.rest_skip_spaces hrest
  have hnone : (p.step.skip k).lineEnd? = none :=
    Cursor.lineEnd?_eq_none (by rw [hafter]; exact hs.not_lineEnd)
  have hlines : plainLines (m + 1) p.step = (some [], p.step.skip k) := by
    simp only [plainLines, hrest, hmark, Cursor.skipSpaces_eq hrest hs.not_space, hnone,
      Bool.false_eq_true, if_false]
  have hstay : p.skipSpaces = p := Cursor.skipSpaces_eq (n := 0) hp rfl
  simp only [plainGap, hstay, Cursor.lineEnd?_eq_some hp (by decide), hlines]
  rfl

/-- The gap at the end of a line that a document mark follows. -/
theorem plainGap_mark (hp : p.rest = '\n' :: s) (hmark : isDocumentMark s = true) (hn : 0 < n) :
    plainGap n p = ⟨[], true, p.step⟩ := by
  obtain ⟨m, rfl⟩ : ∃ m, n = m + 1 := ⟨n - 1, by omega⟩
  have hlines : plainLines (m + 1) p.step = (none, p.step) := by
    rw [plainLines, Cursor.rest_step_cons hp, if_pos hmark]
  have hstay : p.skipSpaces = p := Cursor.skipSpaces_eq (n := 0) hp rfl
  simp only [plainGap, hstay, Cursor.lineEnd?_eq_some hp (by decide), hlines]
  rfl

/-! ### Whole texts -/

/-- One word of a text and the gap behind it. -/
theorem plainText_word {least : Nat} {gap : Gap} (hp : gap.after.rest = u ++ r) (hu : IsWord u)
    (hr : plainStops false r = true) :
    plainText false least (n + 1) gap =
      let next := plainGap n (gap.after.skip u.length)
      if next.text.isEmpty || next.after.column < least then
        { next with text := gap.text ++ u }
      else
        { plainText false least n next with
          text := gap.text ++ u ++ (plainText false least n next).text } := by
  have hhash : (gap.after.rest.head? == some '#') = false := by
    rw [hp, List.head?_append_of_ne_nil _ hu.ne_nil]
    exact beq_eq_false_iff_ne.2 hu.first
  have hword : untilStop (plainStops false) gap.after.rest = u := by
    rw [hp]
    exact untilStop_word hu.separators hu.last hr
  have hempty : u.isEmpty = false := by simpa using hu.ne_nil
  rw [plainText]
  simp only [hhash, hword, hempty, Bool.false_eq_true, if_false, Bool.not_false, Bool.true_and]

theorem Folded.head (h : Folded indent behind s w) (hs : Wordy s) (r : List Char) :
    BeginsLine (w ++ r) := by
  have hfirst := hs.first
  cases h with
  | nil => exact absurd rfl hs.ne_nil
  | @char _ c _ _ ink =>
    have hsep : isSeparator c = false := by
      rw [← Bool.not_eq_true]
      exact fun hc => ink (hs.separators c List.mem_cons_self hc)
    refine ⟨by simpa using ink, ?_⟩
    simpa using not_separator_not_endsLine hsep
  | blank => exact absurd rfl hfirst
  | fold => exact absurd rfl hfirst

/-- What separates two words of a written text, spaces or a line end, is read as the spaces. -/
theorem exists_gap {k : Nat} {q : Cursor} (h : Folded indent behind (spaces (k + 1) ++ s) w)
    (hs : Wordy s) (hq : q.rest = w ++ r) (hone : 1 ≤ indent) :
    ∃ j w' crossed, Folded indent true s w' ∧ w.length = j + w'.length ∧
      (q.skip j).rest = w' ++ r ∧ min indent (q.column + 1) ≤ (q.skip j).column ∧
      plainStops false (w ++ r) = true ∧
      ∀ n, 0 < n → plainGap n q = ⟨spaces (k + 1), crossed, q.skip j⟩ := by
  cases h with
  | char ink => exact absurd rfl ink
  | @blank _ _ w₁ tail =>
    obtain ⟨w', rfl, hw'⟩ := Folded.spaces tail
    have hline : q.rest = spaces (k + 1) ++ (w' ++ r) := by
      rw [hq, spaces_succ]
      simp only [List.cons_append, List.append_assoc]
    refine ⟨k + 1, w', false, hw', ?_, Cursor.rest_skip_spaces hline, ?_, rfl, fun n _ => ?_⟩
    · rw [List.length_cons, List.length_append, length_spaces]
      omega
    · rw [Cursor.column_skip_spaces hline]
      omega
    · exact plainGap_spaces hline (hw'.head hs r)
  | @fold _ w' lone tail =>
    -- a fold stands for a single space
    obtain rfl : k = 0 := by
      by_contra hk
      obtain ⟨j, rfl⟩ : ∃ j, k = j + 1 := ⟨k - 1, by omega⟩
      exact lone rfl
    have hline : q.rest = '\n' :: (spaces indent ++ (w' ++ r)) := by
      rw [hq]
      simp only [List.cons_append, List.append_assoc]
    have hmark : isDocumentMark (spaces indent ++ (w' ++ r)) = false := by
      obtain ⟨j, rfl⟩ : ∃ j, indent = j + 1 := ⟨indent - 1, by omega⟩
      exact not_isDocumentMark_cons (by decide) (by decide) _
    refine ⟨indent + 1, w', true, tail, ?_, ?_, ?_, rfl, fun n hn => ?_⟩
    · rw [List.length_append, List.length_cons, length_spaces]
    · rw [Cursor.skip]
      exact Cursor.rest_skip_spaces (Cursor.rest_step_cons hline)
    · have hcolumn := Cursor.column_skip_line (w := []) (n := indent) (r := w' ++ r) (p := q)
        (c := '\n') (by rw [hline]; simp) (by decide)
      rw [List.length_nil, Nat.zero_add, Nat.add_comm 1] at hcolumn
      omega
    · exact plainGap_line hline hmark (Folded.head tail hs r) hn

/-- A word that a further one follows. -/
theorem plainText_further {least : Nat} {gap next g : Gap} (hp : gap.after.rest = u ++ r)
    (hu : IsWord u) (hr : plainStops false r = true)
    (hnext : plainGap n (gap.after.skip u.length) = next) (hne : next.text ≠ [])
    (hleast : least ≤ next.after.column)
    (hmore : plainText false least n next = { g with text := next.text ++ s }) :
    plainText false least (n + 1) gap = { g with text := gap.text ++ (u ++ (next.text ++ s)) } := by
  have hgo : (next.text.isEmpty || decide (next.after.column < least)) = false := by
    rw [Bool.or_eq_false_iff, decide_eq_false_iff_not]
    exact ⟨by simpa using hne, by omega⟩
  rw [plainText_word hp hu hr]
  simp only [hnext, hmore, hgo, Bool.false_eq_true, if_false, List.append_assoc]

/-- A folded text is read as it was, up to the gap that ends it. -/
theorem plainText_of_folded {least : Nat} {gap g : Gap} (h : Folded indent behind s w)
    (hs : Wordy s) (hp : gap.after.rest = w ++ r) (hr : plainStops false r = true)
    (hleast : least ≤ gap.after.column + 1) (hindent : least ≤ indent) (hone : 1 ≤ indent)
    (hgap : ∀ m, 0 < m → plainGap m (gap.after.skip w.length) = g)
    (hstop : (g.text.isEmpty || g.after.column < least) = true) (hn : s.length < n) :
    plainText false least n gap = { g with text := gap.text ++ s } := by
  induction hlen : s.length using Nat.strong_induction_on
    generalizing behind s w gap n with
  | _ len ih =>
    subst hlen
    obtain ⟨u, t, rfl, hu, ht⟩ := hs.word
    obtain ⟨w', rfl, hw'⟩ := h.word hu.ne_space hu.ne_nil
    have hlength : 0 < u.length := List.length_pos_iff.2 hu.ne_nil
    rw [List.length_append] at hn ih
    obtain ⟨m, rfl⟩ : ∃ m, n = m + 1 := ⟨n - 1, by omega⟩
    rw [List.append_assoc] at hp
    have hcolumn := Cursor.column_skip_inline hp hu.inline
    have hrest := Cursor.rest_skip_append hp
    rw [List.length_append, Cursor.skip_add] at hgap
    rcases ht with rfl | ⟨k, t', rfl, ht'⟩
    · -- the text ends with its last word
      obtain rfl := hw'.nil_inv
      have hend : plainGap m (gap.after.skip u.length) = g := hgap m (by omega)
      rw [plainText_word hp hu hr, hend, List.append_nil]
      exact if_pos hstop
    · obtain ⟨j, w₂, crossed, hw₂, hsum, hrest₂, hplace, hstops, hnext⟩ :=
        exists_gap hw' ht' hrest hone
      rw [List.length_append, length_spaces] at ih hn
      refine plainText_further hp hu hstops (hnext m (by omega)) (List.cons_ne_nil _ _)
        (by dsimp only; omega) ?_
      refine ih t'.length (by omega) hw₂ ht' hrest₂ (by dsimp only; omega) ?_ (by omega) rfl
      intro m' hm'
      rw [← hgap m' hm', hsum, Cursor.skip_add]

/-! ## Writing -/

theorem ne_space_of_mem_charsOf {c : Char} (hn : n < 0x110000) (hspace : n ≠ spaceCode)
    (hc : c ∈ charsOf n) : c ≠ ' ' := by
  rintro rfl
  rcases toNat_of_mem_charsOf hn hc with h | ⟨h, _⟩
  · exact hspace h.symm
  · exact absurd h (by decide)

theorem head_flatMap_ne_space {ns : List Nat} (hcoded : ∀ n ∈ ns, n < 0x110000)
    (h : ns.head? ≠ some spaceCode) : (ns.flatMap charsOf).head? ≠ some ' ' := by
  cases ns with
  | nil => simp
  | cons n ns =>
    rw [List.flatMap_cons, List.head?_append_of_ne_nil _ (charsOf_ne_nil n)]
    intro hhead
    refine ne_space_of_mem_charsOf (hcoded n List.mem_cons_self) ?_
      (List.mem_of_mem_head? hhead) rfl
    rintro rfl
    exact h rfl

theorem folded_plainBody {fold : Bool} {column prev : Nat} {ns : List Nat}
    (hcoded : ∀ n ∈ ns, n < 0x110000) :
    Folded indent (prev == spaceCode) (ns.flatMap charsOf)
      (plainBody fold indent column prev ns) := by
  induction ns generalizing column prev with
  | nil => exact .nil
  | cons n ns ih =>
    have htail : ∀ m ∈ ns, m < 0x110000 := fun m hm => hcoded m (List.mem_cons_of_mem n hm)
    rw [List.flatMap_cons, plainBody]
    by_cases hspace : n = spaceCode
    · subst hspace
      rw [charsOf_space, List.singleton_append]
      have hblank : ∀ column, Folded indent (spaceCode == spaceCode) (ns.flatMap charsOf)
          (plainBody fold indent column spaceCode ns) := fun _ => ih htail
      split
      · next hfold =>
        simp only [Bool.and_eq_true, bne_iff_ne] at hfold
        obtain ⟨⟨⟨_, hprev⟩, hlone⟩, _⟩ := hfold
        rw [beq_eq_false_iff_ne.2 hprev]
        exact .fold (head_flatMap_ne_space htail hlone) (hblank indent)
      · exact .blank (hblank (column + 1))
    · have hn : (n == spaceCode) = false := beq_eq_false_iff_ne.2 hspace
      simp only [hn, Bool.and_false, Bool.false_and, Bool.false_eq_true, if_false]
      have hrest : Folded indent (n == spaceCode) (ns.flatMap charsOf)
          (plainBody fold indent (column + 1) n ns) := ih htail
      rw [hn] at hrest
      refine hrest.append ?_ (charsOf_ne_nil n)
      exact fun c hc => ne_space_of_mem_charsOf (hcoded n List.mem_cons_self) hspace hc

theorem exists_code {c : Char} (hc : c ∈ s) : ∃ n ∈ codes s, c ∈ charsOf n := by
  rw [← Text.flatMap_codes s] at hc
  exact List.mem_flatMap.1 hc

theorem folded_styled {fold : Bool} {column : Nat} (hcoded : Text.Coded s) :
    Folded indent true s (styled .plain fold indent column s) := by
  have h : Folded indent (spaceCode == spaceCode) ((codes s).flatMap charsOf)
      (plainBody fold indent column spaceCode (codes s)) := folded_plainBody hcoded
  rwa [Text.flatMap_codes] at h

/-- A plain text is words with spaces between them. -/
theorem wordy_of_allowsPlain (hcoded : Text.Coded s) (hne : s ≠ [])
    (h : allowsPlain s = true) : Wordy s := by
  rw [allowsPlain, Bool.not_eq_true', Bool.or_eq_false_iff, Bool.or_eq_false_iff,
    Bool.or_eq_false_iff, Bool.or_eq_false_iff] at h
  obtain ⟨⟨⟨⟨hfirst, hlast⟩, hbreaks⟩, hdouble⟩, hindicator⟩ := h
  refine ⟨hne, ?_, ?_, ?_, ?_⟩
  · intro he
    rw [he] at hfirst
    cases hfirst
  · intro he
    rw [he] at hlast
    cases hlast
  · intro c hc hsep
    obtain ⟨n, hn, hcn⟩ := exists_code hc
    have hspecial : isSpecial n = false := by
      rw [needsDouble, Bool.or_eq_false_iff, List.any_eq_false] at hdouble
      exact Bool.not_eq_true (isSpecial n) ▸ hdouble.2 n hn
    have hbreak : isBreak c = false := by
      rw [isMultiline, List.any_eq_false] at hbreaks
      exact Bool.not_eq_true (isBreak c) ▸ hbreaks c hc
    rw [isSeparator, hbreak] at hsep
    simp only [Bool.or_false, Bool.or_eq_true, beq_iff_eq, Text.eq_iff_toNat] at hsep
    rw [isSpecial_eq_false_iff] at hspecial
    rw [Text.eq_iff_toNat]
    have htab : ('\t' : Char).toNat = 9 := rfl
    have hreturn : ('\r' : Char).toNat = 13 := rfl
    rcases toNat_of_mem_charsOf (hcoded n hn) hcn with he | ⟨he, _⟩ <;> omega
  · obtain ⟨c, t, rfl⟩ := List.exists_cons_of_ne_nil hne
    rw [hasIndicator, Bool.or_eq_false_iff, Bool.or_eq_false_iff,
      Bool.or_eq_false_iff] at hindicator
    obtain ⟨⟨⟨_, hleading⟩, hmark⟩, hinner⟩ := hindicator
    have hhash : (c == '#') = false := by
      rw [beq_eq_false_iff_ne]
      rintro rfl
      exact absurd hleading (by decide)
    have hcolon : (c == ':' && separated t) = false := by
      rw [← Bool.not_eq_true, Bool.and_eq_true]
      rintro ⟨hc, ht⟩
      rw [hc, ht] at hmark
      simp at hmark
    rw [hasInnerIndicator, hcolon, hhash, hinner]
    rfl

theorem plainBody_unfolded (i j column column' : Nat) {prev : Nat} {ns : List Nat} :
    plainBody false i column prev ns = plainBody false j column' prev ns := by
  induction ns generalizing column column' prev with
  | nil => rfl
  | cons n ns ih =>
    simp only [plainBody, Bool.false_and, Bool.false_eq_true, if_false]
    rw [ih _ (column' + 1)]

end AppPipeline.Yaml
