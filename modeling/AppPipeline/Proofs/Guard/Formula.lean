import Mathlib.Data.List.Forall2
import Mathlib.Data.Option.NAry
import AppPipeline.Proofs.Text.Separated
import AppPipeline.Text.Blank
import AppPipeline.Workflow.Guard

/-!
# Conditions as formulas

A condition of the hosted runner is a formula over atoms, in which "and" binds
tighter than "or". `parse` cuts its text into tokens and puts the formula together
by a machine with a stack of open brackets; `evaluate` gives its value where the
atoms have values. Texts that quote a mark are not told apart from the mark.

`Means text m` says that the text has the value `m` and keeps it as a part of
greater texts. It holds of atoms (`means_atom`), and `anyOf` and `allOf` carry it
from the parts to the whole (`means_anyOf`, `means_allOf`): brackets go around all
parts that need them.
-/

namespace AppPipeline.Guard

open Text

/-! ## Formulas -/

inductive Formula where
  | atom (text : String)
  | both (a b : Formula)
  | either (a b : Formula)
  deriving DecidableEq, Repr

/-- The values of atoms; some may have none. -/
abbrev Valuation := String → Option Bool

/-- A formula has a value if all its atoms have. -/
def Formula.value (v : Valuation) : Formula → Option Bool
  | .atom text => v text
  | .both a b => Option.map₂ and (a.value v) (b.value v)
  | .either a b => Option.map₂ or (a.value v) (b.value v)

/-! ## Tokens -/

inductive Token where
  | atom (text : String)
  | and
  | or
  | opening
  | closing
  deriving DecidableEq, Repr

/-- The atom of a word that is held backwards, unless the word is blank. -/
def wordToken (word : List Char) : List Token :=
  match word.dropWhile isBlank with
  | [] => []
  | c :: rest => [.atom (String.ofList (c :: rest).reverse)]

/-- The mark that a character ends, and the word before the mark. -/
def mark? (word : List Char) : Char → Option (Token × List Char)
  | '(' => some (.opening, word)
  | ')' => some (.closing, word)
  | '&' => if word.head? = some '&' then some (.and, word.tail) else none
  | '|' => if word.head? = some '|' then some (.or, word.tail) else none
  | _ => none

/-- Blank characters before a word are left out. -/
def extended (word : List Char) (c : Char) : List Char :=
  if word.isEmpty && isBlank c then [] else c :: word

/-- The tokens that are complete, and the word behind them. -/
def scan (word : List Char) : List Char → List Token × List Char
  | [] => ([], word)
  | c :: s =>
    match mark? word c with
    | some (t, before) => (wordToken before ++ t :: (scan [] s).1, (scan [] s).2)
    | none => scan (extended word c) s

def tokens (s : List Char) : List Token := (scan [] s).1 ++ wordToken (scan [] s).2

/-! ## Parsing -/

/-- What stands before an operand inside one pair of brackets: complete alternatives, and the
beginning of the present one. -/
structure Pending where
  sum : Option Formula := none
  product : Option Formula := none
  deriving DecidableEq, Repr

inductive State where
  /-- an operand comes next -/
  | before (pending : Pending) (outer : List Pending)
  /-- the present alternative may end here -/
  | behind (sum : Option Formula) (product : Formula) (outer : List Pending)
  deriving DecidableEq, Repr

def conjoined : Option Formula → Formula → Formula
  | none, f => f
  | some p, f => .both p f

def disjoined : Option Formula → Formula → Formula
  | none, f => f
  | some s, f => .either s f

/-- "Or" ends the present alternative, "and" goes on with it. -/
def step : State → Token → Option State
  | .before p outer, .atom text => some (.behind p.sum (conjoined p.product (.atom text)) outer)
  | .before p outer, .opening => some (.before {} (p :: outer))
  | .behind sum f outer, .and => some (.before ⟨sum, some f⟩ outer)
  | .behind sum f outer, .or => some (.before ⟨some (disjoined sum f), none⟩ outer)
  | .behind sum f (p :: outer), .closing =>
    some (.behind p.sum (conjoined p.product (disjoined sum f)) outer)
  | _, _ => none

def run (s : State) (ts : List Token) : Option State := ts.foldlM step s

/-- The formula of a text, if it is a condition. -/
def parse (text : String) : Option Formula :=
  match run (.before {} []) (tokens text.toList) with
  | some (.behind sum f []) => some (disjoined sum f)
  | _ => none

/-- The value of a text, if it is a condition whose atoms have values. -/
def evaluate (v : Valuation) (text : String) : Option Bool := (parse text).bind (·.value v)

/-! ## Tokens of parts -/

theorem scan_append (word s r : List Char) :
    scan word (s ++ r) = ((scan word s).1 ++ (scan (scan word s).2 r).1,
      (scan (scan word s).2 r).2) := by
  induction s generalizing word with
  | nil => rfl
  | cons c s ih =>
    rw [List.cons_append, scan, scan]
    cases mark? word c with
    | none => exact ih _
    | some found => simp only [ih, List.append_assoc, List.cons_append]

theorem wordToken_space (word : List Char) : wordToken (extended word ' ') = wordToken word := by
  rw [extended]
  split
  · next h =>
    rw [Bool.and_eq_true, List.isEmpty_iff] at h
    rw [h.1]
  · rfl

/-- A mark that is written twice. -/
structure IsDouble (m : Char) (t : Token) : Prop where
  ink : isBlank m = false
  first : ∀ word, word.head? ≠ some m → mark? word m = none
  second : ∀ word, mark? (m :: word) m = some (t, word)

theorem isDouble_and : IsDouble '&' .and := ⟨by decide, fun _ h => if_neg h, fun _ => rfl⟩

theorem isDouble_or : IsDouble '|' .or := ⟨by decide, fun _ h => if_neg h, fun _ => rfl⟩

theorem tokens_joined {m : Char} {t : Token} (hm : IsDouble m t) (s r : List Char) :
    tokens (s ++ ' ' :: m :: m :: ' ' :: r) = tokens s ++ t :: tokens r := by
  let word := (scan [] s).2
  have hne : m ≠ ' ' := by
    rintro rfl
    exact absurd hm.ink (by decide)
  have hhead : (extended word ' ').head? ≠ some m := by
    rw [extended]
    split
    · exact nofun
    · exact fun h => hne (Option.some.inj h).symm
  have hfirst : extended (extended word ' ') m = m :: extended word ' ' := by
    rw [extended, hm.ink, Bool.and_false, if_neg Bool.false_ne_true]
  have hspace : ∀ w, mark? w ' ' = none := fun _ => rfl
  have hjoint : scan word (' ' :: m :: m :: ' ' :: r)
      = (wordToken word ++ t :: (scan [] r).1, (scan [] r).2) := by
    simp only [scan, hspace, hm.first _ hhead, hfirst, hm.second, wordToken_space]
    rfl
  rw [tokens, scan_append, hjoint, tokens, tokens]
  simp only [List.append_assoc, List.cons_append]
  rfl

theorem tokens_bracketed (s : List Char) :
    tokens ('(' :: (s ++ [')'])) = .opening :: (tokens s ++ [.closing]) := by
  have hopening : scan [] ('(' :: (s ++ [')']))
      = (.opening :: (scan [] (s ++ [')'])).1, (scan [] (s ++ [')'])).2) := rfl
  have hclosing : ∀ word, scan word [')'] = (wordToken word ++ [.closing], []) := fun _ => rfl
  rw [tokens, hopening, scan_append, hclosing, tokens]
  simp only [List.append_assoc, List.cons_append, List.nil_append]
  rfl

/-! ## Tokens of atoms -/

/-- A text that is one atom: no mark begins in it, and it has no blank ends. -/
structure IsAtom (s : String) : Prop where
  ne_empty : s ≠ ""
  unmarked : ∀ c ∈ s.toList, c ∉ ['&', '|', '(', ')']
  head : ∀ c ∈ s.toList.head?, isBlank c = false
  last : ∀ c ∈ s.toList.getLast?, isBlank c = false

theorem mark?_eq_none (word : List Char) {c : Char} (hc : c ∉ ['&', '|', '(', ')']) :
    mark? word c = none := by
  simp only [List.mem_cons, List.not_mem_nil, or_false, not_or] at hc
  rw [mark?.eq_def]
  split <;> simp_all

theorem scan_unmarked {s : List Char} (h : ∀ c ∈ s, c ∉ ['&', '|', '(', ')']) {word : List Char}
    (hword : word ≠ [] ∨ ∀ c ∈ s.head?, isBlank c = false) :
    scan word s = ([], s.reverse ++ word) := by
  induction s generalizing word with
  | nil => rfl
  | cons c s ih =>
    obtain ⟨hc, hs⟩ := List.forall_mem_cons.1 h
    have hextended : extended word c = c :: word := by
      rw [extended]
      rcases hword with hword | hhead
      · rw [List.isEmpty_eq_false_iff.2 hword, Bool.false_and, if_neg Bool.false_ne_true]
      · rw [hhead c rfl, Bool.and_false, if_neg Bool.false_ne_true]
    rw [scan, mark?_eq_none word hc]
    dsimp only
    rw [hextended, ih hs (.inl (List.cons_ne_nil c word)), List.reverse_cons, List.append_assoc]
    rfl

theorem IsAtom.tokens_eq {s : String} (h : IsAtom s) : tokens s.toList = [.atom s] := by
  rw [tokens, scan_unmarked h.unmarked (.inr h.head), List.append_nil, List.nil_append]
  have hlast : ∀ c ∈ s.toList.reverse.head?, isBlank c = false := by
    rw [List.head?_reverse]
    exact h.last
  cases hrev : s.toList.reverse with
  | nil => exact absurd (String.toList_eq_nil_iff.1 (List.reverse_eq_nil_iff.1 hrev)) h.ne_empty
  | cons c rest =>
    rw [hrev] at hlast
    rw [wordToken, List.dropWhile_cons, hlast c rfl]
    show [Token.atom (String.ofList (c :: rest).reverse)] = [.atom s]
    rw [← hrev, List.reverse_reverse, String.ofList_toList]

/-! ## Values -/

/-- The value that a condition has. -/
abbrev Meaning := Valuation → Option Bool

/-- All parts hold. -/
def allHold : List Meaning → Meaning
  | [], _ => some true
  | m :: ms, v => Option.map₂ and (m v) (allHold ms v)

/-- Some part holds. -/
def someHolds : List Meaning → Meaning
  | [], _ => some false
  | m :: ms, v => Option.map₂ or (m v) (someHolds ms v)

theorem true_and_value (x : Option Bool) : Option.map₂ and (some true) x = x := by
  cases x <;> rfl

theorem false_or_value (x : Option Bool) : Option.map₂ or (some false) x = x := by
  cases x <;> rfl

theorem value_and_assoc (x y z : Option Bool) :
    Option.map₂ and (Option.map₂ and x y) z = Option.map₂ and x (Option.map₂ and y z) :=
  Option.map₂_assoc Bool.and_assoc

theorem value_or_assoc (x y z : Option Bool) :
    Option.map₂ or (Option.map₂ or x y) z = Option.map₂ or x (Option.map₂ or y z) :=
  Option.map₂_assoc Bool.or_assoc

theorem allHold_singleton (m : Meaning) : allHold [m] = m := by
  funext v
  exact (Option.map₂_comm Bool.and_comm).trans (true_and_value (m v))

theorem someHolds_singleton (m : Meaning) : someHolds [m] = m := by
  funext v
  exact (Option.map₂_comm Bool.or_comm).trans (false_or_value (m v))

/-- The value of the beginning of an alternative. -/
def productValue (v : Valuation) (p : Option Formula) : Option Bool :=
  (p.map (·.value v)).getD (some true)

/-- The value of complete alternatives. -/
def sumValue (v : Valuation) (s : Option Formula) : Option Bool :=
  (s.map (·.value v)).getD (some false)

theorem value_conjoined (v : Valuation) (p : Option Formula) (f : Formula) :
    (conjoined p f).value v = Option.map₂ and (productValue v p) (f.value v) := by
  cases p with
  | none => exact (true_and_value _).symm
  | some p => rfl

theorem value_disjoined (v : Valuation) (s : Option Formula) (f : Formula) :
    (disjoined s f).value v = Option.map₂ or (sumValue v s) (f.value v) := by
  cases s with
  | none => exact (false_or_value _).symm
  | some s => rfl

/-! ## Runs over parts -/

section

variable {ts rs : List Token} {m n : Meaning}

/-- The tokens are read as a factor of the present alternative. -/
def IsProduct (ts : List Token) (m : Meaning) : Prop :=
  ∀ (p : Pending) (outer : List Pending), ∃ f,
    run (.before p outer) ts = some (.behind p.sum f outer) ∧
      ∀ v, f.value v = Option.map₂ and (productValue v p.product) (m v)

/-- The tokens are read as further alternatives. -/
def IsSum (ts : List Token) (m : Meaning) : Prop :=
  ∀ (sum : Option Formula) (outer : List Pending), ∃ sum' f,
    run (.before ⟨sum, none⟩ outer) ts = some (.behind sum' f outer) ∧
      ∀ v, (disjoined sum' f).value v = Option.map₂ or (sumValue v sum) (m v)

theorem run_append (s : State) : run s (ts ++ rs) = (run s ts).bind fun t => run t rs :=
  List.foldlM_append ..

theorem IsProduct.isSum (h : IsProduct ts m) : IsSum ts m := by
  intro sum outer
  obtain ⟨f, hrun, hvalue⟩ := h ⟨sum, none⟩ outer
  refine ⟨sum, f, hrun, fun v => ?_⟩
  rw [value_disjoined, hvalue v]
  exact congrArg (Option.map₂ or (sumValue v sum)) (true_and_value (m v))

theorem isProduct_atom (text : String) : IsProduct [.atom text] fun v => v text :=
  fun p _ => ⟨conjoined p.product (.atom text), rfl, fun v => value_conjoined v p.product _⟩

theorem IsProduct.and (hm : IsProduct ts m) (hn : IsProduct rs n) :
    IsProduct (ts ++ .and :: rs) fun v => Option.map₂ (· && ·) (m v) (n v) := by
  intro p outer
  obtain ⟨f, hf, hfvalue⟩ := hm p outer
  obtain ⟨g, hg, hgvalue⟩ := hn ⟨p.sum, some f⟩ outer
  refine ⟨g, ?_, fun v => ?_⟩
  · rw [run_append, hf]
    exact hg
  · rw [hgvalue v, ← value_and_assoc, ← hfvalue v]
    rfl

theorem IsSum.or (hm : IsSum ts m) (hn : IsSum rs n) :
    IsSum (ts ++ .or :: rs) fun v => Option.map₂ (· || ·) (m v) (n v) := by
  intro sum outer
  obtain ⟨sum', f, hf, hfvalue⟩ := hm sum outer
  obtain ⟨sum'', g, hg, hgvalue⟩ := hn (some (disjoined sum' f)) outer
  refine ⟨sum'', g, ?_, fun v => ?_⟩
  · rw [run_append, hf]
    exact hg
  · rw [hgvalue v, ← value_or_assoc, ← hfvalue v]
    rfl

theorem IsSum.bracketed (h : IsSum ts m) : IsProduct (.opening :: (ts ++ [.closing])) m := by
  intro p outer
  obtain ⟨sum, f, hrun, hvalue⟩ := h none (p :: outer)
  refine ⟨conjoined p.product (disjoined sum f), ?_, fun v => ?_⟩
  · show run (.before {} (p :: outer)) (ts ++ [.closing]) = _
    rw [run_append, hrun]
    rfl
  · rw [value_conjoined, hvalue v]
    exact congrArg (Option.map₂ Bool.and (productValue v p.product)) (false_or_value (m v))

end

/-- A text that is read as alternatives has their value. -/
theorem evaluate_eq {text : String} {m : Meaning} (h : IsSum (tokens text.toList) m)
    (v : Valuation) : evaluate v text = m v := by
  obtain ⟨sum, f, hrun, hvalue⟩ := h none []
  rw [evaluate, parse, hrun]
  exact (hvalue v).trans (false_or_value (m v))

example : parse "a || b && (c || d)"
    = some (.either (.atom "a") (.both (.atom "b") (.either (.atom "c") (.atom "d")))) := by
  decide

/-! ## Meanings of texts -/

/-- The text is a condition with the value. It needs no brackets in a conjunction unless it
mentions a disjunction. -/
structure Means (text : String) (m : Meaning) : Prop where
  ne_empty : text ≠ ""
  sum : IsSum (tokens text.toList) m
  product : mentions text "||" = false → IsProduct (tokens text.toList) m

theorem Means.evaluate_eq {text : String} {m : Meaning} (h : Means text m) (v : Valuation) :
    evaluate v text = m v := Guard.evaluate_eq h.sum v

theorem means_atom {s : String} (h : IsAtom s) : Means s fun v => v s := by
  have hproduct : IsProduct (tokens s.toList) fun v => v s := by
    rw [h.tokens_eq]
    exact isProduct_atom s
  exact ⟨h.ne_empty, hproduct.isSum, fun _ => hproduct⟩

theorem Means.conjunct {text : String} {m : Meaning} (h : Means text m) :
    IsProduct (tokens (conjunct text).toList) m := by
  cases hmentions : mentions text "||" with
  | false =>
    rw [Guard.conjunct, hmentions]
    exact h.product hmentions
  | true =>
    have htext : (Guard.conjunct text).toList = '(' :: (text.toList ++ [')']) := by
      rw [Guard.conjunct, hmentions, if_pos rfl]
      simp
    rw [htext, tokens_bracketed]
    exact h.sum.bracketed

/-- What holds of every part, and passes to two parts with a mark between them, holds of the
whole. -/
theorem joined_parts {R : List Token → Meaning → Prop} {mark : Char} {t : Token} {sep : String}
    (hmark : IsDouble mark t) (hsep : sep.toList = [' ', mark, mark, ' '])
    {whole : List Meaning → Meaning} (hone : ∀ m, whole [m] = m)
    (hjoin : ∀ {ts rs : List Token} {m : Meaning} {ms : List Meaning},
      R ts m → R rs (whole ms) → R (ts ++ t :: rs) (whole (m :: ms)))
    {texts : List String} {ms : List Meaning}
    (h : List.Forall₂ (fun text m => R (tokens text.toList) m) texts ms) (hne : texts ≠ []) :
    R (tokens (String.intercalate sep texts).toList) (whole ms) := by
  induction h with
  | nil => exact absurd rfl hne
  | cons hm hms ih =>
    cases hms with
    | nil =>
      rw [String.intercalate_singleton, hone]
      exact hm
    | cons hn hms =>
      rw [String.intercalate_cons_cons, String.append_assoc, String.toList_append,
        String.toList_append, hsep]
      show R (tokens (_ ++ ' ' :: mark :: mark :: ' ' :: _)) _
      rw [tokens_joined hmark]
      exact hjoin hm (ih (List.cons_ne_nil _ _))

theorem intercalate_ne_empty {sep : String} {texts : List String} (hne : texts ≠ [])
    (h : ∀ text ∈ texts, text ≠ "") : String.intercalate sep texts ≠ "" := by
  rw [Ne, intercalate_eq_empty_iff sep h]
  exact hne

theorem ne_empty_of_means {texts : List String} {ms : List Meaning}
    (h : List.Forall₂ Means texts ms) : ∀ text ∈ texts, text ≠ "" :=
  ((List.forall₂_and_left texts ms).1 (h.imp fun _ _ hm => ⟨hm.ne_empty, hm⟩)).1

theorem mentions_or (a b : String) (rest : List String) :
    mentions (String.intercalate " || " (a :: b :: rest)) "||" = true := by
  rw [mentions, occurs_iff_infix, String.intercalate_cons_cons]
  refine ⟨a.toList ++ [' '], ' ' :: (String.intercalate " || " (b :: rest)).toList, ?_⟩
  simp

/-- Some of the conditions holds. -/
theorem means_anyOf {texts : List String} {ms : List Meaning} (h : List.Forall₂ Means texts ms)
    (hne : texts ≠ []) : Means (anyOf texts) (someHolds ms) := by
  refine ⟨intercalate_ne_empty hne (ne_empty_of_means h),
    joined_parts isDouble_or rfl someHolds_singleton IsSum.or (h.imp fun _ _ hm => hm.sum) hne, ?_⟩
  cases h with
  | nil => exact absurd rfl hne
  | cons hm hms =>
    cases hms with
    | nil =>
      rw [anyOf, String.intercalate_singleton, someHolds_singleton]
      exact hm.product
    | cons hn hms =>
      intro hmentions
      rw [anyOf, mentions_or] at hmentions
      cases hmentions

theorem conjunct_ne_empty {text : String} (h : text ≠ "") : conjunct text ≠ "" := by
  rw [conjunct]
  split
  · intro he
    simpa using congrArg String.toList he
  · exact h

/-- All conditions that are given hold. -/
theorem means_allOf {conditions : List (Option String)} {texts : List String} {ms : List Meaning}
    (hgiven : conditions.filterMap id = texts) (h : List.Forall₂ Means texts ms)
    (hne : texts ≠ []) : ∃ text, allOf conditions = some text ∧ Means text (allHold ms) := by
  have hparts : conditions.filterMap (fun c => c.filter (· != "")) = texts := by
    rw [← hgiven]
    refine List.filterMap_congr fun c hc => ?_
    cases c with
    | none => rfl
    | some text =>
      have htext : text ≠ "" :=
        ne_empty_of_means h text (hgiven ▸ List.mem_filterMap.2 ⟨some text, hc, rfl⟩)
      rw [Option.filter_some, if_pos (bne_iff_ne.2 htext)]
      rfl
  rw [allOf, hparts]
  clear hgiven hparts
  cases h with
  | nil => exact absurd rfl hne
  | @cons text m texts ms hm hms =>
    cases hms with
    | nil => exact ⟨text, rfl, by rwa [allHold_singleton]⟩
    | @cons next n texts ms hn hms =>
      have hall : List.Forall₂ Means (text :: next :: texts) (m :: n :: ms) :=
        .cons hm (.cons hn hms)
      have hproduct : IsProduct
          (tokens (String.intercalate " && " ((text :: next :: texts).map conjunct)).toList)
          (allHold (m :: n :: ms)) :=
        joined_parts isDouble_and rfl allHold_singleton IsProduct.and
          (List.forall₂_map_left_iff.2 (hall.imp fun _ _ hm => hm.conjunct)) (List.cons_ne_nil _ _)
      have hconjuncts : ∀ part ∈ (text :: next :: texts).map conjunct, part ≠ "" :=
        List.forall_mem_map.2 fun part hpart =>
          conjunct_ne_empty (ne_empty_of_means hall part hpart)
      exact ⟨_, rfl, intercalate_ne_empty (List.cons_ne_nil _ _) hconjuncts, hproduct.isSum,
        fun _ => hproduct⟩

end AppPipeline.Guard
