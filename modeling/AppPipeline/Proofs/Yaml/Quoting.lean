import Mathlib.Data.List.Chain
import Mathlib.Data.List.TakeWhile
import Mathlib.Tactic.SplitIfs
import AppPipeline.Proofs.Yaml.Quoted

/-!
# Writing quoted texts

What is written between single quotes is read as the text with its line breaks folded,
`refolded` (`quoted_singleBody`); what is written between double quotes is read as the
text itself (`quoted_doubleBody`).
-/

namespace AppPipeline.Yaml

open Text (charsOf codes)

variable {fold : Bool} {indent column n : Nat} {ns : List Nat}

/-! ## Folded line breaks -/

/-- The text as it is read between single quotes: one line feed alone becomes a space, and the
first of several goes. `behind` says that a line break stands right before. -/
def refolded (behind : Bool) : List Char → List Char
  | [] => []
  | c :: s =>
    if isBreak c then
      (if behind || lineFeed c != '\n' then [lineFeed c]
        else if s.head?.any isBreak then [] else [' ']) ++ refolded true s
    else c :: refolded false s

theorem refolded_append {w : List Char} (hw : ∀ c ∈ w, isBreak c = false) (s : List Char) :
    refolded false (w ++ s) = w ++ refolded false s := by
  induction w with
  | nil => rfl
  | cons c w ih =>
    rw [List.cons_append, refolded, hw c List.mem_cons_self,
      ih fun d hd => hw d (List.mem_cons_of_mem c hd)]
    rfl

theorem refolded_behind {bs s : List Char} (hbs : ∀ c ∈ bs, isBreak c = true)
    (hs : s.head?.any isBreak = false) :
    refolded true (bs ++ s) = bs.map lineFeed ++ refolded false s := by
  induction bs with
  | nil =>
    cases s with
    | nil => rfl
    | cons c s =>
      have hc : isBreak c = false := by simpa using hs
      simp [refolded, hc]
  | cons b bs ih =>
    rw [List.cons_append, refolded, hbs b List.mem_cons_self,
      ih fun c hc => hbs c (List.mem_cons_of_mem b hc)]
    rfl

theorem refolded_breaks {b : Char} {bs s : List Char} (hbs : ∀ c ∈ b :: bs, isBreak c = true)
    (hs : s.head?.any isBreak = false) :
    refolded false (b :: bs ++ s)
      = foldedEnd (lineFeed b) (bs.map lineFeed) ++ refolded false s := by
  have htail := refolded_behind (fun c hc => hbs c (List.mem_cons_of_mem b hc)) hs
  rw [List.cons_append, refolded, hbs b List.mem_cons_self, htail, foldedEnd]
  cases hfeed : lineFeed b != '\n'
  · cases bs with
    | nil => simp [hs]
    | cons d bs => simp [hbs d (by simp)]
  · simp

/-! ## Between single quotes -/

/-- No space stands next to a break. -/
def Calm (ns : List Nat) : Prop :=
  ns.IsChain fun m n =>
    ¬(m = spaceCode ∧ isBreakCode n = true) ∧ ¬(isBreakCode m = true ∧ n = spaceCode)

theorem Calm.joint {a b : List Nat} (h : Calm (a ++ b)) {m n : Nat} (hm : m ∈ a.getLast?)
    (hn : n ∈ b.head?) :
    ¬(m = spaceCode ∧ isBreakCode n = true) ∧ ¬(isBreakCode m = true ∧ n = spaceCode) :=
  (List.isChain_append.1 h).2.2 m hm n hn

/-- The codes can stand between single quotes. -/
structure Quotable (ns : List Nat) : Prop where
  coded : ∀ n ∈ ns, n < 0x110000
  plain : ∀ n ∈ ns, isSpecial n = false
  calm : Calm ns

theorem Quotable.append_right {a b : List Nat} (h : Quotable (a ++ b)) : Quotable b where
  coded n hn := h.coded n (List.mem_append_right a hn)
  plain n hn := h.plain n (List.mem_append_right a hn)
  calm := (List.isChain_append.1 h.calm).2.1

theorem Quotable.tail (h : Quotable (n :: ns)) : Quotable ns :=
  Quotable.append_right (a := [n]) h

theorem isInk_charsOf_quotable (h : Quotable (n :: ns)) (hspace : n ≠ spaceCode)
    (hbreak : isBreakCode n = false) : ∀ c ∈ charsOf n, isInk c = true :=
  fun _ hc => isInk_of_mem_charsOf (h.coded n List.mem_cons_self) (h.plain n List.mem_cons_self)
    hspace hbreak hc

theorem charsOf_ne_nil (n : Nat) : charsOf n ≠ [] := by
  unfold charsOf
  split_ifs <;> exact List.cons_ne_nil _ _

theorem singleBody_break (prev : Option Nat) (hn : isBreakCode n = true) :
    singleBody fold indent column prev (n :: ns)
      = Char.ofNat n :: singleBody fold indent 0 (some n) ns := by
  rw [singleBody, if_pos hn]

/-- A new line is indented and then goes on as a text that begins. -/
theorem singleBody_after_break {b : Nat} (hb : isBreakCode b = true)
    (hns : ∀ n ∈ ns.head?, isBreakCode n = false ∧ n ≠ spaceCode) :
    singleBody fold indent column (some b) ns
      = spaces indent ++ singleBody fold indent (column + indent) none ns := by
  cases ns with
  | nil => simp [singleBody, hb]
  | cons n ns =>
    obtain ⟨hn, hspace⟩ := hns n rfl
    simp [singleBody, hn, hb, hspace, length_spaces]

theorem singleBody_run {b : Nat} {bs : List Nat} (hbs : ∀ n ∈ b :: bs, isBreakCode n = true)
    (hns : ∀ n ∈ ns.head?, isBreakCode n = false ∧ n ≠ spaceCode) :
    singleBody fold indent 0 (some b) (bs ++ ns)
      = bs.map Char.ofNat ++ (spaces indent ++ singleBody fold indent indent none ns) := by
  induction bs generalizing b with
  | nil =>
    rw [List.nil_append, singleBody_after_break (hbs b List.mem_cons_self) hns, Nat.zero_add]
    rfl
  | cons d bs ih =>
    have htail : ∀ n ∈ d :: bs, isBreakCode n = true :=
      fun n hn => hbs n (List.mem_cons_of_mem b hn)
    rw [List.cons_append, singleBody_break _ (htail d List.mem_cons_self), ih htail]
    rfl

theorem singleBody_quote {prev : Option Nat} (hprev : prev.any isBreakCode = false) :
    singleBody fold indent column prev (quoteCode :: ns)
      = '\'' :: '\'' :: singleBody fold indent (column + 2) (some quoteCode) ns := by
  simp [singleBody, hprev, show isBreakCode quoteCode = false from rfl]

/-- Whether a space is written as a new line. -/
def foldsSpace (fold : Bool) (column : Nat) (prev : Option Nat) (ns : List Nat) : Bool :=
  fold && prev.isSome && prev != some spaceCode && !ns.isEmpty && ns.head? != some spaceCode
    && width < column

theorem singleBody_space {prev : Option Nat} (hprev : prev.any isBreakCode = false) :
    singleBody fold indent column prev (spaceCode :: ns)
      = if foldsSpace fold column prev ns then
          '\n' :: spaces indent ++ singleBody fold indent indent (some spaceCode) ns
        else ' ' :: singleBody fold indent (column + 1) (some spaceCode) ns := by
  rw [singleBody, if_neg (by decide), hprev, if_neg (by decide), foldsSpace, charsOf_space]
  simp only [beq_self_eq_true, Bool.and_true, List.nil_append,
    List.length_nil, Nat.add_zero]
  rfl

theorem singleBody_char {prev : Option Nat} (hprev : prev.any isBreakCode = false)
    (hbreak : isBreakCode n = false) (hspace : n ≠ spaceCode) (hquote : n ≠ quoteCode) :
    singleBody fold indent column prev (n :: ns)
      = charsOf n ++ singleBody fold indent (column + 1) (some n) ns := by
  simp [singleBody, hprev, hbreak, hspace, hquote]

/-- Behind a space a text goes on in the same line. -/
theorem startsInk_singleBody {prev : Option Nat} (hprev : prev.any isBreakCode = false)
    (h : Quotable ns) (hns : ∀ n ∈ ns.head?, isBreakCode n = false ∧ n ≠ spaceCode) :
    StartsInk (singleBody fold indent column prev ns) := by
  cases ns with
  | nil =>
    rw [singleBody, hprev]
    intro c hc
    cases hc
  | cons n ns =>
    obtain ⟨hbreak, hspace⟩ := hns n rfl
    by_cases hquote : n = quoteCode
    · subst hquote
      rw [singleBody_quote hprev]
      intro c hc
      obtain rfl : '\'' = c := by simpa using hc
      decide
    · rw [singleBody_char hprev hbreak hspace hquote]
      intro c hc
      refine isInk_charsOf_quotable h hspace hbreak c ?_
      rw [List.head?_append_of_ne_nil _ (charsOf_ne_nil n)] at hc
      exact List.mem_of_mem_head? hc

theorem StartsInk.unbroken {w : List Char} (hw : StartsInk w) : Unbroken w := by
  have hblank := hw.not_blank
  cases w with
  | nil => rfl
  | cons c w =>
    rw [Unbroken, List.dropWhile_cons, if_neg (by simpa using hblank)]
    exact hw.not_lineEnd

theorem unbroken_singleBody (h : Quotable (spaceCode :: ns)) :
    Unbroken (singleBody fold indent column (some spaceCode) ns) := by
  have hprev : (some spaceCode).any isBreakCode = false := rfl
  induction ns generalizing column with
  | nil => rfl
  | cons n ns ih =>
    by_cases hspace : n = spaceCode
    · subst hspace
      rw [singleBody_space hprev, foldsSpace]
      simp only [bne_self_eq_false, Bool.and_false, Bool.false_and, Bool.false_eq_true, if_false]
      exact ih h.tail
    · have hbreak : isBreakCode n = false := by
        have hcalm := (List.isChain_cons_cons.1 h.calm).1.1
        rw [← Bool.not_eq_true]
        exact fun hn => hcalm ⟨rfl, hn⟩
      apply StartsInk.unbroken
      apply startsInk_singleBody hprev h.tail
      rintro m hm
      obtain rfl : n = m := by simpa using hm
      exact ⟨hbreak, hspace⟩

/-- Characters without a meaning of their own stand for themselves. -/
theorem Quoted.append {double : Bool} {t w cs : List Char}
    (hcs : ∀ c ∈ cs, isInk c = true ∧ c ≠ quoteMark double ∧ ¬(double = true ∧ c = '\\'))
    (tail : Quoted double indent t w) : Quoted double indent (cs ++ t) (cs ++ w) := by
  induction cs with
  | nil => exact tail
  | cons c cs ih =>
    obtain ⟨hink, hother, hbare⟩ := hcs c List.mem_cons_self
    exact .char hink hother hbare (ih fun d hd => hcs d (List.mem_cons_of_mem c hd))

theorem flatMap_charsOf_breaks {bs : List Nat} (hbs : ∀ n ∈ bs, isBreakCode n = true) :
    bs.flatMap charsOf = bs.map Char.ofNat := by
  induction bs with
  | nil => rfl
  | cons b bs ih =>
    rw [List.flatMap_cons, (charsOf_break (hbs b List.mem_cons_self)).1,
      ih fun n hn => hbs n (List.mem_cons_of_mem b hn)]
    rfl

theorem head_flatMap_charsOf (h : ∀ n ∈ ns, n < 0x110000) (hns : ns.head?.any isBreakCode = false) :
    (ns.flatMap charsOf).head?.any isBreak = false := by
  cases ns with
  | nil => rfl
  | cons n ns =>
    have hn : isBreakCode n = false := by simpa using hns
    rw [List.flatMap_cons, List.head?_append_of_ne_nil _ (charsOf_ne_nil n)]
    cases hhead : (charsOf n).head? with
    | none => rfl
    | some c =>
      rw [Option.any_some, isBreak_of_mem_charsOf (h n List.mem_cons_self)
        (List.mem_of_mem_head? hhead), hn]

theorem map_ofNat_breaks {bs : List Nat} (hbs : ∀ n ∈ bs, isBreakCode n = true) :
    ∀ c ∈ bs.map Char.ofNat, isBreak c = true := by
  intro c hc
  obtain ⟨n, hn, rfl⟩ := List.mem_map.1 hc
  exact (charsOf_break (hbs n hn)).2

theorem head_dropWhile_any {α : Type} (f : α → Bool) (s : List α) :
    (s.dropWhile f).head?.any f = false := by
  induction s with
  | nil => rfl
  | cons x s ih =>
    rw [List.dropWhile_cons]
    split
    · exact ih
    · next hx => simpa using hx

theorem head_after_breaks {b : Nat} {bs rest : List Nat} (hcalm : Calm (b :: (bs ++ rest)))
    (hbs : ∀ n ∈ b :: bs, isBreakCode n = true) (hrest : rest.head?.any isBreakCode = false) :
    ∀ n ∈ rest.head?, isBreakCode n = false ∧ n ≠ spaceCode := by
  intro n hn
  refine ⟨by rw [hn] at hrest; simpa using hrest, ?_⟩
  rintro rfl
  have hlast := List.getLast?_eq_some_getLast (List.cons_ne_nil b bs)
  exact (Calm.joint (a := b :: bs) hcalm hlast hn).2 ⟨hbs _ (List.getLast_mem _), rfl⟩

theorem head_after_space {prev : Option Nat} (hcalm : Calm (spaceCode :: ns))
    (hfold : foldsSpace fold column prev ns = true) :
    ∀ n ∈ ns.head?, isBreakCode n = false ∧ n ≠ spaceCode := by
  intro n hn
  constructor
  · rw [← Bool.not_eq_true]
    intro hb
    exact (Calm.joint (a := [spaceCode]) hcalm rfl hn).1 ⟨rfl, hb⟩
  · rintro rfl
    have hne : (ns.head? != some spaceCode) = false := by
      rw [hn]
      rfl
    rw [foldsSpace, hne] at hfold
    simp at hfold

/-- A run of line breaks is read as a whole. -/
theorem quoted_breaks {prev : Option Nat} {bs : List Nat} (h : Quotable (n :: (bs ++ ns)))
    (hbs : ∀ m ∈ n :: bs, isBreakCode m = true) (hns : ns.head?.any isBreakCode = false)
    (hbody : ∀ column, Quoted false indent (refolded false (ns.flatMap charsOf))
      (singleBody fold indent column none ns)) :
    Quoted false indent (refolded false ((n :: (bs ++ ns)).flatMap charsOf))
      (singleBody fold indent column prev (n :: (bs ++ ns))) := by
  have hbreak := hbs n List.mem_cons_self
  have hquotable : Quotable ns := h.append_right (a := n :: bs)
  have hhead := head_after_breaks h.calm hbs hns
  rw [singleBody_break prev hbreak, singleBody_run hbs hhead, List.flatMap_cons,
    List.flatMap_append, (charsOf_break hbreak).1,
    flatMap_charsOf_breaks fun m hm => hbs m (List.mem_cons_of_mem n hm), ← List.append_assoc,
    List.singleton_append,
    refolded_breaks (map_ofNat_breaks hbs) (head_flatMap_charsOf hquotable.coded hns),
    ← List.cons_append, ← List.append_assoc]
  exact .breaks rfl (map_ofNat_breaks hbs) (startsInk_singleBody rfl hquotable hhead) (hbody _)

section

variable {prev : Option Nat} (hprev : prev.any isBreakCode = false)

include hprev

/-- A space is read as such, and so is the fold that it may become. -/
theorem quoted_space {t : List Char} (h : Quotable (spaceCode :: ns))
    (hbody : ∀ column, Quoted false indent t
      (singleBody fold indent column (some spaceCode) ns)) :
    Quoted false indent (' ' :: t) (singleBody fold indent column prev (spaceCode :: ns)) := by
  rw [singleBody_space hprev]
  split_ifs with hfold
  · have hink : StartsInk (singleBody fold indent indent (some spaceCode) ns) :=
      startsInk_singleBody rfl h.tail (head_after_space h.calm hfold)
    have hfeed : ∀ c ∈ ['\n'], isBreak c = true := by decide
    exact .breaks rfl hfeed hink (hbody indent)
  · exact .blank (unbroken_singleBody h) (hbody _)

theorem quoted_other {t : List Char} (h : Quotable (n :: ns)) (hbreak : isBreakCode n = false)
    (hspace : n ≠ spaceCode)
    (hbody : ∀ column, Quoted false indent t (singleBody fold indent column (some n) ns)) :
    Quoted false indent (charsOf n ++ t) (singleBody fold indent column prev (n :: ns)) := by
  by_cases hquote : n = quoteCode
  · subst hquote
    rw [singleBody_quote hprev]
    exact .quote rfl (hbody _)
  · rw [singleBody_char hprev hbreak hspace hquote]
    refine .append (fun c hc => ?_) (hbody _)
    refine ⟨isInk_charsOf_quotable h hspace hbreak c hc, ?_, fun h => Bool.noConfusion h.1⟩
    rintro rfl
    rcases toNat_of_mem_charsOf (h.coded n List.mem_cons_self) hc with h | ⟨h, _⟩
    · exact hquote h.symm
    · exact absurd h (by decide)

end

/-- Between single quotes a text is read with its line breaks folded. -/
theorem quoted_singleBody {prev : Option Nat} (h : Quotable (prev.toList ++ ns))
    (hprev : prev.any isBreakCode = false) :
    Quoted false indent (refolded false (ns.flatMap charsOf))
      (singleBody fold indent column prev ns) := by
  induction hlen : ns.length using Nat.strong_induction_on generalizing ns column prev with
  | _ len ih =>
    subst hlen
    have hns := h.append_right
    match ns with
    | [] =>
      rw [singleBody, hprev]
      exact .nil
    | n :: ns =>
      rw [List.length_cons] at ih
      by_cases hbreak : isBreakCode n = true
      · obtain ⟨bs, rest, rfl, hbs, hrest⟩ : ∃ bs rest, ns = bs ++ rest ∧
            (∀ m ∈ bs, isBreakCode m = true) ∧ rest.head?.any isBreakCode = false :=
          ⟨ns.takeWhile isBreakCode, ns.dropWhile isBreakCode,
            List.takeWhile_append_dropWhile.symm, fun m hm => List.mem_takeWhile_imp hm,
            head_dropWhile_any isBreakCode ns⟩
        have hnone : Quotable ((none : Option Nat).toList ++ rest) :=
          hns.append_right (a := n :: bs)
        refine quoted_breaks hns (List.forall_mem_cons.2 ⟨hbreak, hbs⟩) hrest fun column =>
          ih _ ?_ hnone rfl rfl
        rw [List.length_append]
        omega
      · rw [Bool.not_eq_true] at hbreak
        have hnext : Quotable ((some n).toList ++ ns) := hns
        have hbody : ∀ column, Quoted false indent (refolded false (ns.flatMap charsOf))
            (singleBody fold indent column (some n) ns) :=
          fun column => ih _ (Nat.lt_succ_self _) hnext hbreak rfl
        have hchars : ∀ c ∈ charsOf n, isBreak c = false :=
          fun c hc => (isBreak_of_mem_charsOf (hns.coded n List.mem_cons_self) hc).trans hbreak
        rw [List.flatMap_cons, refolded_append hchars]
        by_cases hspace : n = spaceCode
        · subst hspace
          rw [charsOf_space]
          exact quoted_space hprev hns hbody
        · exact quoted_other hprev hns hbreak hspace hbody

/-! ## Between double quotes -/

theorem Quoted.unbroken {t w : List Char} (h : Quoted true indent t w) : Unbroken w := by
  have hslash : ∀ w : List Char, Unbroken ('\\' :: w) := fun _ => rfl
  induction h with
  | nil => rfl
  | char ink =>
    apply StartsInk.unbroken
    intro c hc
    obtain rfl := Option.some.inj hc
    exact ink
  | blank _ _ ih => exact ih
  | breaks single => cases single
  | quote single => cases single
  | escape _ coded escaped =>
    obtain ⟨e', rfl, _⟩ := (escape_escape? escaped coded).text coded
    exact hslash _
  | wrap => exact hslash _
  | keptSpace => exact hslash _

theorem ite_some_eq_none {α : Type} {q : Prop} [Decidable q] {x : α} {o : Option α} :
    (if q then some x else o) = none ↔ ¬q ∧ o = none := by
  by_cases hq : q
  · simp [hq]
  · simp [hq]

theorem range_of_escape?_eq_none (h : escape? n = none) :
    n ≠ 0x22 ∧ n ≠ 0x5C ∧ isBreakCode n = false ∧
      ((0x20 ≤ n ∧ n ≤ 0x7E) ∨ (0xA0 ≤ n ∧ n ≤ 0xD7FF) ∨ (0xE000 ≤ n ∧ n ≤ 0xFFFD)) := by
  unfold escape? at h
  simp only [ite_some_eq_none] at h
  rw [← Bool.not_eq_true, isBreakCode_iff]
  obtain ⟨_, _, _, _, _, _, _, _, _, hquote, hslash, _, hline, hparagraph, _, h⟩ := h
  refine ⟨hquote, hslash, by omega, ?_⟩
  split_ifs at h with hrange
  exact hrange

/-- Codes without an escape are written as their characters. -/
theorem charsOf_of_escape?_eq_none (h : escape? n = none) :
    charsOf n = [Char.ofNat n] ∧ (Char.ofNat n).toNat = n := by
  obtain ⟨_, _, _, hrange⟩ := range_of_escape?_eq_none h
  apply charsOf_low (by omega)
  rw [Text.isHalfCode_iff]
  omega

theorem bare_of_escape?_eq_none (h : escape? n = none) (hspace : n ≠ spaceCode) :
    isInk (Char.ofNat n) = true ∧ Char.ofNat n ≠ quoteMark true ∧
      ¬(true = true ∧ Char.ofNat n = '\\') := by
  obtain ⟨hquote, hslash, hbreak, hrange⟩ := range_of_escape?_eq_none h
  have hcode := (charsOf_of_escape?_eq_none h).2
  unfold spaceCode at hspace
  refine ⟨?_, ?_, ?_⟩
  · rw [isInk_iff, hcode]
    exact ⟨hspace, by omega, by omega, hbreak⟩
  · intro he
    rw [he] at hcode
    exact hquote hcode.symm
  · rintro ⟨_, he⟩
    rw [he] at hcode
    exact hslash hcode.symm

theorem startsInk_cons {c : Char} (hc : isInk c = true) (w : List Char) : StartsInk (c :: w) := by
  intro d hd
  obtain rfl := Option.some.inj hd
  exact hc

theorem startsInk_doubleBreak (w : List Char) (next : Option Nat) :
    StartsInk (doubleBreak indent next ++ w) :=
  startsInk_cons (by decide) _

/-- Whether a new line may be begun before or behind a code. -/
def foldsCode (fold first : Bool) (ns : List Nat) : Bool := fold && !first && !ns.isEmpty

theorem doubleBody_escape {e : List Char} (he : escape? n = some e) (first escaped : Bool) :
    doubleBody fold indent column first escaped (n :: ns)
      = e ++ if foldsCode fold first ns && width + 1 < column + e.length then
          doubleBreak indent ns.head?
            ++ doubleBody fold indent ((doubleBreak indent ns.head?).length - 2) false true ns
        else doubleBody fold indent (column + e.length) false true ns := by
  rw [doubleBody, he, foldsCode]
  simp only [List.append_assoc]
  split <;> rfl

theorem doubleBody_char (hn : escape? n = none) (first escaped : Bool) :
    doubleBody fold indent column first escaped (n :: ns)
      = if foldsCode fold first ns && (n == spaceCode || escaped) && width < column then
          doubleBreak indent (some n) ++ Char.ofNat n ::
            doubleBody fold indent ((doubleBreak indent (some n)).length - 2 + 1) false false ns
        else Char.ofNat n :: doubleBody fold indent (column + 1) false false ns := by
  rw [doubleBody, hn, foldsCode]

theorem doubleBreak_space :
    doubleBreak indent (some spaceCode) = '\\' :: '\n' :: spaces indent ++ ['\\'] :=
  rfl

theorem doubleBreak_other {next : Option Nat} (h : next ≠ some spaceCode) :
    doubleBreak indent next = '\\' :: '\n' :: spaces indent := by
  rw [doubleBreak, if_neg (by simpa using h), List.append_nil]

/-- A text that goes on with no space begins with no blank. -/
theorem startsInk_doubleBody {first escaped : Bool} (hcoded : ∀ n ∈ ns, n < 0x110000)
    (h : ns.head? ≠ some spaceCode) :
    StartsInk (doubleBody fold indent column first escaped ns) := by
  cases ns with
  | nil =>
    intro c hc
    cases hc
  | cons n ns =>
    cases he : escape? n with
    | some e =>
      obtain ⟨e', rfl, _⟩ := (escape_escape? he (hcoded n List.mem_cons_self)).text
        (hcoded n List.mem_cons_self)
      rw [doubleBody_escape he]
      exact startsInk_cons (by decide) _
    | none =>
      rw [doubleBody_char he]
      split
      · exact startsInk_doubleBreak _ _
      · have hspace : n ≠ spaceCode := by
          rintro rfl
          exact h rfl
        exact startsInk_cons (bare_of_escape?_eq_none he hspace).1 _

/-- The line may end behind an escape; if a space comes next, the new line begins with a backslash
in front of it. -/
theorem quoted_doubleBreak (hcoded : ∀ n ∈ ns, n < 0x110000) (hindent : indent + 1 ≤ width)
    (hbody : ∀ column, Quoted true indent (ns.flatMap charsOf)
      (doubleBody fold indent column false true ns))
    (htail : ∀ column, Quoted true indent (ns.tail.flatMap charsOf)
      (doubleBody fold indent column false false ns.tail)) :
    Quoted true indent (ns.flatMap charsOf) (doubleBreak indent ns.head?
      ++ doubleBody fold indent ((doubleBreak indent ns.head?).length - 2) false true ns) := by
  by_cases hnext : ns.head? = some spaceCode
  · obtain ⟨ms, rfl⟩ : ∃ ms, ns = spaceCode :: ms := by
      cases ns with
      | nil => cases hnext
      | cons m ms => exact ⟨ms, by rw [Option.some.inj hnext]⟩
    have hcolumn : ¬ width < (doubleBreak indent (some spaceCode)).length - 2 := by
      simp only [doubleBreak_space, List.length_append, List.length_cons, length_spaces,
        List.length_nil]
      omega
    rw [hnext, doubleBody_char (show escape? spaceCode = none from rfl),
      decide_eq_false hcolumn, Bool.and_false, if_neg Bool.false_ne_true,
      doubleBreak_space, List.append_assoc, List.flatMap_cons]
    exact .wrap rfl (startsInk_cons (by decide) _) (.keptSpace rfl (htail _))
  · rw [doubleBreak_other hnext]
    exact .wrap rfl (startsInk_doubleBody hcoded hnext) (hbody _)

/-- A character without an escape is read as it is, also on a new line. -/
theorem quoted_bare {t : List Char} {first escaped : Bool} (he : escape? n = none)
    (hbody : ∀ column, Quoted true indent t (doubleBody fold indent column false false ns)) :
    Quoted true indent (Char.ofNat n :: t)
      (doubleBody fold indent column first escaped (n :: ns)) := by
  rw [doubleBody_char he]
  by_cases hspace : n = spaceCode
  · subst hspace
    split
    · rw [doubleBreak_space, List.append_assoc]
      exact .wrap rfl (startsInk_cons (by decide) _) (.keptSpace rfl (hbody _))
    · exact .blank (hbody _).unbroken (hbody _)
  · obtain ⟨hink, hother, hbare⟩ := bare_of_escape?_eq_none he hspace
    split
    · rw [doubleBreak_other (by simpa using hspace)]
      exact .wrap rfl (startsInk_cons hink _) (.char hink hother hbare (hbody _))
    · exact .char hink hother hbare (hbody _)

/-- Between double quotes a text is read as it was. -/
theorem quoted_doubleBody (hcoded : ∀ n ∈ ns, n < 0x110000) (hindent : indent + 1 ≤ width)
    (first escaped : Bool) :
    Quoted true indent (ns.flatMap charsOf)
      (doubleBody fold indent column first escaped ns) := by
  induction hlen : ns.length using Nat.strong_induction_on
    generalizing ns column first escaped with
  | _ len ih =>
    subst hlen
    match ns with
    | [] => exact .nil
    | n :: ns =>
      rw [List.length_cons] at ih
      have htail : ∀ m ∈ ns, m < 0x110000 := fun m hm => hcoded m (List.mem_cons_of_mem n hm)
      have hbody : ∀ column first escaped, Quoted true indent (ns.flatMap charsOf)
          (doubleBody fold indent column first escaped ns) :=
        fun _ _ _ => ih _ (Nat.lt_succ_self _) htail _ _ rfl
      rw [List.flatMap_cons]
      cases he : escape? n with
      | some e =>
        rw [doubleBody_escape he]
        refine .escape rfl (hcoded n List.mem_cons_self) he ?_
        split
        · refine quoted_doubleBreak htail hindent (fun _ => hbody _ _ _) fun _ =>
            ih _ ?_ (fun m hm => htail m (List.mem_of_mem_tail hm)) _ _ rfl
          rw [List.length_tail]
          omega
        · exact hbody _ _ _
      | none =>
        rw [(charsOf_of_escape?_eq_none he).1]
        exact quoted_bare he fun _ => hbody _ _ _

/-! ## Texts in quotes -/

variable {s r : List Char} {p : Cursor}

theorem hasPair_cons {f g : Char → Bool} {c : Char} (h : hasPair f g (c :: s) = false) :
    hasPair f g s = false := by
  cases s with
  | nil => rfl
  | cons d s =>
    rw [hasPair, Bool.or_eq_false_iff] at h
    exact h.2

theorem hasPair_append_right {f g : Char → Bool} {w : List Char}
    (h : hasPair f g (w ++ s) = false) : hasPair f g s = false := by
  induction w with
  | nil => exact h
  | cons c w ih => exact ih (hasPair_cons h)

theorem calm_of_hasPair (hspace : hasPair isSpace isBreak (ns.flatMap charsOf) = false)
    (hbreak : hasPair isBreak isSpace (ns.flatMap charsOf) = false) : Calm ns := by
  induction ns with
  | nil => exact .nil
  | cons n ns ih =>
    rw [List.flatMap_cons] at hspace hbreak
    have htail := ih (hasPair_append_right hspace) (hasPair_append_right hbreak)
    cases ns with
    | nil => exact .singleton n
    | cons m ns =>
      rw [List.flatMap_cons] at hspace hbreak
      refine List.isChain_cons_cons.2 ⟨⟨?_, ?_⟩, htail⟩
      · rintro ⟨rfl, hm⟩
        obtain ⟨hchars, hb⟩ := charsOf_break hm
        rw [charsOf_space, hchars] at hspace
        simp [hasPair, isSpace, hb] at hspace
      · rintro ⟨hn, rfl⟩
        obtain ⟨hchars, hb⟩ := charsOf_break hn
        rw [charsOf_space, hchars] at hbreak
        simp [hasPair, isSpace, hb] at hbreak

theorem quotable_codes (hcoded : Text.Coded s) (h : allowsSingle s = true) :
    Quotable (codes s) := by
  rw [allowsSingle, hasBreakSpace, needsDouble, Bool.not_eq_true', Bool.or_eq_false_iff,
    Bool.or_eq_false_iff, List.any_eq_false] at h
  refine ⟨hcoded, fun n hn => ?_, ?_⟩
  · exact Bool.not_eq_true (isSpecial n) ▸ h.2.2 n hn
  · apply calm_of_hasPair
    · rw [Text.flatMap_codes]
      exact h.2.1
    · rw [Text.flatMap_codes]
      exact h.1

/-- A text in single quotes is read with its line breaks folded. -/
theorem quotedText_single (hcoded : Text.Coded s) (h : allowsSingle s = true)
    (hindent : 1 ≤ indent) (hp : p.rest = styled .single fold indent column s ++ r)
    (hr : r.head? ≠ some '\'') (hn : (styled .single fold indent column s).length < n) :
    quotedText false n p
      = .ok (refolded false s, p.skip (styled .single fold indent column s).length) := by
  have hquoted : Quoted false indent (refolded false ((codes s).flatMap charsOf))
      (singleBody fold indent (column + 1) none (codes s)) :=
    quoted_singleBody (quotable_codes hcoded h) rfl
  rw [Text.flatMap_codes] at hquoted
  rw [styled, List.cons_append, List.cons_append, List.append_assoc] at hp
  rw [styled, List.length_append, List.length_cons] at hn ⊢
  rw [List.length_singleton] at hn ⊢
  rw [quotedText]
  exact quotedTail_of_quoted hquoted hindent (Cursor.rest_step_cons hp) (fun _ => hr) (by omega)

/-- A text in double quotes is read as it is. -/
theorem quotedText_double (hcoded : Text.Coded s) (hindent : 1 ≤ indent)
    (hwidth : indent + 1 ≤ width) (hp : p.rest = styled .double fold indent column s ++ r)
    (hn : (styled .double fold indent column s).length < n) :
    quotedText true n p = .ok (s, p.skip (styled .double fold indent column s).length) := by
  have hquoted : Quoted true indent ((codes s).flatMap charsOf)
      (doubleBody fold indent (column + 1) true false (codes s)) :=
    quoted_doubleBody hcoded hwidth true false
  rw [Text.flatMap_codes] at hquoted
  rw [styled, List.cons_append, List.cons_append, List.append_assoc] at hp
  rw [styled, List.length_append, List.length_cons] at hn ⊢
  rw [List.length_singleton] at hn ⊢
  rw [quotedText]
  exact quotedTail_of_quoted hquoted hindent (Cursor.rest_step_cons hp) Bool.noConfusion (by omega)

/-! ## Texts on one line -/

theorem singleBody_unfolded (i j column column' : Nat) {prev : Option Nat}
    (hprev : prev.any isBreakCode = false) (hns : ∀ n ∈ ns, isBreakCode n = false) :
    singleBody false i column prev ns = singleBody false j column' prev ns := by
  induction ns generalizing column column' prev with
  | nil => rw [singleBody, singleBody, hprev]; rfl
  | cons n ns ih =>
    have hn := hns n List.mem_cons_self
    have htail : ∀ m ∈ ns, isBreakCode m = false := fun m hm => hns m (List.mem_cons_of_mem n hm)
    have hsome : (some n).any isBreakCode = false := hn
    simp only [singleBody, hn, hprev, Bool.false_and, Bool.false_eq_true, if_false]
    rw [ih _ (column' + [].length + 2) hsome htail, ih _ (column' + [].length + 1) hsome htail]

theorem doubleBody_unfolded (i j column column' : Nat) (first escaped : Bool) :
    doubleBody false i column first escaped ns = doubleBody false j column' first escaped ns := by
  induction ns generalizing column column' first escaped with
  | nil => rfl
  | cons n ns ih =>
    simp only [doubleBody, Bool.false_and, Bool.false_eq_true, if_false]
    split
    · next e _ => rw [ih _ (column' + e.length)]
    · rw [ih _ (column' + 1)]

end AppPipeline.Yaml
