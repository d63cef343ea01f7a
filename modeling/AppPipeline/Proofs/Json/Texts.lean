import Mathlib.Data.List.Chain
import AppPipeline.Json.Reader
import AppPipeline.Json.Writer
import AppPipeline.Proofs.Yaml.Characters

/-!
# Written texts are read back

Every code of a text is written in one of four forms (`CodeForm`), and each form is
read as the code, provided that what follows does not make one code with it. So a
text comes back unless it holds the two halves of a character apart
(`quotedText_written`); texts of characters never do (`isSound_received`).
-/

namespace AppPipeline

/-- The text stands for codes, and no two halves of one character stand next to each other. -/
structure Text.IsSound (s : String) : Prop where
  coded : Text.Coded s.toList
  unpaired : (Text.codes s.toList).IsChain fun m n => Json.pairCode? m n = none

namespace Json

open Text (charsOf codes hexDigits)

/-! ## Escapes of four digits -/

theorem hexDigits_four (n : Nat) : ∃ a b c d, hexDigits 4 n = [a, b, c, d] := ⟨_, _, _, _, rfl⟩

theorem hexCode?_hexDigits {n : Nat} (hn : n < 0x10000) {tail : List Char} (ht : tail ≠ []) :
    hexCode? (hexDigits 4 n ++ tail) = some (n, tail) := by
  obtain ⟨e, tail, rfl⟩ := List.exists_cons_of_ne_nil ht
  obtain ⟨a, b, c, d, hdigits⟩ := hexDigits_four n
  have hnumber := Text.hexNumber?_hexDigits 4 n hn
  rw [hdigits] at hnumber ⊢
  simp [hexCode?, hnumber]

/-- A code unit that makes no code with an escape behind it stands for itself. -/
theorem escapedCode?_single {n : Nat} (hn : n < 0x10000) {tail : List Char} (ht : tail ≠ [])
    (hnext : ∀ more low after, tail = '\\' :: 'u' :: more → hexCode? more = some (low, after) →
      pairCode? n low = none) :
    escapedCode? (hexDigits 4 n ++ tail) = some (n, tail) := by
  rw [escapedCode?, hexCode?_hexDigits hn ht]
  dsimp only
  split
  · next more =>
    split
    · next low after hmore => rw [hnext more low after rfl hmore]
    · rfl
  · rfl

theorem escapedCode?_pair {n high low : Nat} (hpair : pairCode? high low = some n)
    (hhigh : high < 0x10000) (hlow : low < 0x10000) {tail : List Char} (ht : tail ≠ []) :
    escapedCode? (hexDigits 4 high ++ codeEscape low ++ tail) = some (n, tail) := by
  have hbehind : codeEscape low ++ tail = '\\' :: 'u' :: (hexDigits 4 low ++ tail) := rfl
  rw [List.append_assoc, hbehind, escapedCode?, hexCode?_hexDigits hhigh (by simp)]
  simp only [hexCode?_hexDigits hlow ht, hpair]

/-! ## Forms of a written code -/

/-- The ways to write a code. -/
inductive CodeForm (n : Nat) : List Char → Prop
  | short {e c : Char} (other : e ≠ 'u') (simple : simpleEscape? e = some c)
      (own : charsOf n = [c]) : CodeForm n ['\\', e]
  | bare (ink : 0x20 ≤ n ∧ n < 0x7F) (other : n ≠ 0x22 ∧ n ≠ 0x5C) : CodeForm n [Char.ofNat n]
  | escape (small : n < 0x10000) : CodeForm n (codeEscape n)
  | pair {high low : Nat} (pair : pairCode? high low = some n)
      (range : 0xD800 ≤ high ∧ high ≤ 0xDBFF) (small : low < 0x10000) :
      CodeForm n (codeEscape high ++ codeEscape low)

theorem pairCode?_eq_some {n : Nat} (h : 0x10000 ≤ n) (hn : n < 0x110000) :
    pairCode? (0xD800 + (n - 0x10000) / 0x400) (0xDC00 + (n - 0x10000) % 0x400) = some n := by
  rw [pairCode?, if_pos (by omega)]
  exact congrArg some (by omega)

theorem codeForm_writtenCode {n : Nat} (hn : n < 0x110000) : CodeForm n (writtenCode n) := by
  have hshort : ∀ e, shortEscape? n = some e → CodeForm n ['\\', e] := by
    intro e he
    simp only [shortEscape?] at he
    repeat' split at he
    all_goals first
      | (next h => subst h; cases he; exact .short (by decide) rfl (by decide))
      | cases he
  rw [writtenCode]
  split
  · next e he => exact hshort e he
  · next he =>
    split
    · next hink =>
      refine .bare hink ⟨?_, ?_⟩
      · rintro rfl
        cases he
      · rintro rfl
        cases he
    · split
      · next hsmall => exact .escape hsmall
      · next hlarge =>
        have hpair := pairCode?_eq_some (Nat.not_lt.1 hlarge) hn
        exact .pair hpair (by omega) (by omega)

namespace CodeForm

variable {n : Nat} {w : List Char}

theorem ne_nil (h : CodeForm n w) : w ≠ [] := by
  cases h <;> exact List.cons_ne_nil _ _

/-- A code unit before the written code makes no code with it if it makes none with the code. -/
theorem unpaired (h : CodeForm n w) {m : Nat} (hm : pairCode? m n = none) (s : List Char)
    {more after : List Char} {low : Nat} (hw : w ++ s = '\\' :: 'u' :: more)
    (hlow : hexCode? more = some (low, after)) : pairCode? m low = none := by
  cases h with
  | short other =>
    injection hw with _ hw
    injection hw with he
    exact absurd he other
  | bare ink other =>
    have hcode : (Char.ofNat n).toNat = n := Text.toNat_ofNat n (.inl (by omega))
    injection hw with hbackslash
    rw [hbackslash] at hcode
    exact absurd hcode.symm other.2
  | escape small =>
    obtain rfl : hexDigits 4 n ++ s = more := by
      injection hw with _ hw
      injection hw
    cases s with
    | nil =>
      obtain ⟨a, b, c, d, hdigits⟩ := hexDigits_four n
      rw [hdigits] at hlow
      cases hlow
    | cons c s =>
      rw [hexCode?_hexDigits small (List.cons_ne_nil c s)] at hlow
      cases hlow
      exact hm
  | @pair high low' pair range small =>
    obtain rfl : hexDigits 4 high ++ (codeEscape low' ++ s) = more := by
      rw [List.append_assoc] at hw
      injection hw with _ hw
      injection hw
    have hne : codeEscape low' ++ s ≠ [] := List.cons_ne_nil _ _
    rw [hexCode?_hexDigits (by omega) hne] at hlow
    cases hlow
    rw [pairCode?, if_neg (by omega)]

/-- A written code consists of printable ASCII characters. -/
theorem printable (h : CodeForm n w) {c : Char} (hc : c ∈ w) : 0x20 ≤ c.toNat ∧ c.toNat < 0x7F := by
  have hdigit : ∀ d < 16, 0x20 ≤ (Nat.digitChar d).toNat ∧ (Nat.digitChar d).toNat < 0x7F := by
    decide
  have hescape : ∀ {m : Nat}, c ∈ codeEscape m → 0x20 ≤ c.toNat ∧ c.toNat < 0x7F := by
    intro m hm
    have hdigits : ∀ width k, c ∈ hexDigits width k → 0x20 ≤ c.toNat ∧ c.toNat < 0x7F := by
      intro width
      induction width with
      | zero => exact fun k hk => absurd hk List.not_mem_nil
      | succ width ih =>
        intro k hk
        rw [hexDigits, List.mem_append, List.mem_singleton] at hk
        rcases hk with hk | rfl
        · exact ih _ hk
        · exact hdigit _ (Nat.mod_lt k (by decide))
    rw [codeEscape, List.mem_cons, List.mem_cons] at hm
    rcases hm with rfl | rfl | hm
    · decide
    · decide
    · exact hdigits 4 m hm
  cases h with
  | @short e d other simple own =>
    rw [List.mem_pair] at hc
    rcases hc with rfl | rfl
    · decide
    · unfold simpleEscape? at simple
      split at simple <;> first | decide | cases simple
  | bare ink other =>
    obtain rfl := List.mem_singleton.1 hc
    rwa [Text.toNat_ofNat n (.inl (by omega))]
  | escape small => exact hescape hc
  | pair pair range small => exact (List.mem_append.1 hc).elim hescape hescape

end CodeForm

/-! ## Between quotes -/

theorem textBody_short {start s rest cs : List Char} {e c : Char} {left : Nat} (he : e ≠ 'u')
    (hc : simpleEscape? e = some c) (htail : textBody start left s = .ok (cs, rest)) :
    textBody start (left + 1) ('\\' :: e :: s) = .ok (c :: cs, rest) := by
  rw [textBody, hc]
  · dsimp only
    rw [htail]
    rfl
  · exact he

theorem textBody_escape {start s after rest cs : List Char} {n left : Nat}
    (hn : escapedCode? s = some (n, after)) (htail : textBody start left after = .ok (cs, rest)) :
    textBody start (left + 1) ('\\' :: 'u' :: s) = .ok (charsOf n ++ cs, rest) := by
  rw [textBody, hn]
  dsimp only
  rw [htail]
  rfl

theorem textBody_char {start s rest cs : List Char} {c : Char} {left : Nat} (hquote : c ≠ '"')
    (hbackslash : c ≠ '\\') (hc : 0x20 ≤ c.toNat) (htail : textBody start left s = .ok (cs, rest)) :
    textBody start (left + 1) (c :: s) = .ok (c :: cs, rest) := by
  rw [textBody, if_neg (Nat.not_lt.2 hc), htail]
  · rfl
  · exact hquote
  · exact hbackslash

/-- Written codes are read up to the closing quote. -/
theorem textBody_written (start rest : List Char) {ns : List Nat} (hcoded : ∀ n ∈ ns, n < 0x110000)
    (hchain : ns.IsChain fun m n => pairCode? m n = none) {left : Nat} (hleft : ns.length < left) :
    textBody start left (ns.flatMap writtenCode ++ '"' :: rest)
      = .ok (ns.flatMap charsOf, rest) := by
  induction ns generalizing left with
  | nil =>
    obtain ⟨left, rfl⟩ := Nat.exists_eq_succ_of_ne_zero (Nat.ne_zero_of_lt hleft)
    rfl
  | cons n ns ih =>
    obtain ⟨hn, hns⟩ := List.forall_mem_cons.1 hcoded
    obtain ⟨left, rfl⟩ := Nat.exists_eq_succ_of_ne_zero (Nat.ne_zero_of_lt hleft)
    have htail := ih hns hchain.of_cons (Nat.lt_of_succ_lt_succ hleft)
    have hne : ns.flatMap writtenCode ++ '"' :: rest ≠ [] := by simp
    rw [List.flatMap_cons, List.flatMap_cons, List.append_assoc]
    generalize hw : writtenCode n = w
    have hform : CodeForm n w := hw ▸ codeForm_writtenCode hn
    cases hform with
    | short other simple own =>
      rw [own]
      exact textBody_short other simple htail
    | bare ink other =>
      have hcode : (Char.ofNat n).toNat = n := Text.toNat_ofNat n (.inl (by omega))
      have hhalf : ¬ Text.isHalfCode n = true := by
        rw [Text.isHalfCode_iff]
        omega
      rw [(Yaml.charsOf_low (by omega) hhalf).1]
      refine textBody_char ?_ ?_ (hcode.symm ▸ ink.1) htail
      · rw [Ne, Text.eq_iff_toNat, hcode]
        exact other.1
      · rw [Ne, Text.eq_iff_toNat, hcode]
        exact other.2
    | escape small =>
      refine textBody_escape (escapedCode?_single small hne ?_) htail
      intro more low after hmore hlow
      cases ns with
      | nil => cases hmore
      | cons m ns =>
        rw [List.flatMap_cons, List.append_assoc] at hmore
        exact (codeForm_writtenCode (hns m List.mem_cons_self)).unpaired
          (List.isChain_cons_cons.1 hchain).1 _ hmore hlow
    | pair pair range small =>
      have hescape := escapedCode?_pair pair (by omega) small hne
      exact textBody_escape hescape htail

theorem length_le_flatMap_writtenCode {ns : List Nat} (hcoded : ∀ n ∈ ns, n < 0x110000) :
    ns.length ≤ (ns.flatMap writtenCode).length := by
  induction ns with
  | nil => exact Nat.le_refl 0
  | cons n ns ih =>
    obtain ⟨hn, hns⟩ := List.forall_mem_cons.1 hcoded
    have hpos := List.length_pos_of_ne_nil (codeForm_writtenCode hn).ne_nil
    have htail := ih hns
    rw [List.flatMap_cons, List.length_append, List.length_cons]
    omega

/-- A text is read back. -/
theorem quotedText_written {s : String} (hs : Text.IsSound s) (rest : List Char) {left : Nat}
    (hleft : (writtenText s).length ≤ left) :
    quotedText left (writtenText s ++ rest) = .ok (s, rest) := by
  have hlength := length_le_flatMap_writtenCode hs.coded
  have hbody : (writtenText s ++ rest).drop 1
      = (codes s.toList).flatMap writtenCode ++ '"' :: rest := by
    simp [writtenText]
  rw [quotedText, hbody, textBody_written _ rest hs.coded hs.unpaired]
  · rw [Text.flatMap_codes]
    exact congrArg (fun t => Except.ok (t, rest)) String.ofList_toList
  · simp only [writtenText, List.length_append, List.length_cons, List.length_nil] at hleft
    omega

theorem printable_writtenText {s : String} (hs : Text.IsSound s) {c : Char}
    (hc : c ∈ writtenText s) : 0x20 ≤ c.toNat ∧ c.toNat < 0x7F := by
  rw [writtenText, List.mem_append, List.mem_cons, List.mem_singleton, List.mem_flatMap] at hc
  rcases hc with (rfl | ⟨n, hn, hc⟩) | rfl
  · decide
  · exact (codeForm_writtenCode (hs.coded n hn)).printable hc
  · decide

end Json

/-! ## Texts of characters -/

theorem pairCode?_toNat (c : Char) (n : Nat) : Json.pairCode? c.toNat n = none := by
  have hhalf := Text.not_isHalfCode_toNat c
  rw [Text.isHalfCode_iff] at hhalf
  rw [Json.pairCode?, if_neg (by omega)]

theorem Text.isSound_of_codes {s : String} {cs : List Char}
    (h : Text.codes s.toList = cs.map Char.toNat) : Text.IsSound s := by
  constructor
  · intro n hn
    rw [h] at hn
    obtain ⟨c, _, rfl⟩ := List.mem_map.1 hn
    exact Text.toNat_lt c
  · rw [h, List.isChain_map]
    exact (List.pairwise_of_forall fun c d => pairCode?_toNat c d.toNat).isChain

theorem Text.isSound_of_lt {s : String} (h : s.toList.all (·.toNat < 0x10D800) = true) :
    Text.IsSound s :=
  Text.isSound_of_codes (Text.codes_eq_map fun c hc => of_decide_eq_true (List.all_eq_true.1 h c hc))

theorem Text.isSound_of_mem {keys : List String}
    (h : keys.all (fun k => k.toList.all (·.toNat < 0x10D800)) = true) :
    ∀ k ∈ keys, Text.IsSound k :=
  fun k hk => Text.isSound_of_lt (List.all_eq_true.1 h k hk)

/-- A text from outside, whatever characters it has, is sound. -/
theorem Text.isSound_received (s : String) : Text.IsSound (Text.received s) := by
  refine @Text.isSound_of_codes _ s.toList ?_
  rw [Text.received, Text.ofCodes, String.toList_ofList, Text.codes_flatMap]
  intro n hn
  obtain ⟨c, _, rfl⟩ := List.mem_map.1 hn
  exact Text.toNat_lt c

end AppPipeline
