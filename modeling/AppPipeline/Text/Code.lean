/-!
# Codes of texts

A text stands for a list of codes below U+110000. Most of them are the codes of
characters. The codes U+D800 to U+DFFF have no character: in UTF-16 two of them
make one, and a text may hold such a half alone. Private characters of the last
plane stand for the halves; a code whose own character is so taken, or is the
mark itself, is written as a mark and another private character.

* `charsOf`, `codes`: the characters for a code, and the codes that characters
  stand for (`codes_charsOf`, `codes_flatMap`, `flatMap_codes`);
* `le`: texts in the order of their codes (`le_total`, `le_trans`, `le_antisymm`);
* `received`, `sent`: a text from outside, where every character stands for
  itself, and back (`sent_received`).
-/

namespace AppPipeline.Text

/-! ## Single codes -/

/-- How far the character for a half lies above its code. -/
def halfShift : Nat := 0x100000

def isHalfCode (n : Nat) : Bool := 0xD800 ≤ n && n ≤ 0xDFFF

def isHalf (c : Char) : Bool := 0x10D800 ≤ c.toNat && c.toNat ≤ 0x10DFFF

/-- The mark before a character that stands for a code whose own character is taken. -/
def takenMark : Char := Char.ofNat 0x10E000

/-- The codes whose own characters are taken. -/
def isTaken (n : Nat) : Bool := 0x10D800 ≤ n && n ≤ 0x10E000

/-- How far the character after a mark lies above the code that it stands for. -/
def takenShift : Nat := 0x801

def followsMark (c : Char) : Bool := 0x10E001 ≤ c.toNat && c.toNat ≤ 0x10E801

/-- The number of a mark that marks nothing; it is above all codes. -/
def bareMark : Nat := 0x110000

def charsOf (n : Nat) : List Char :=
  if isHalfCode n then [Char.ofNat (n + halfShift)]
  else if isTaken n then [takenMark, Char.ofNat (n + takenShift)]
  else if n = bareMark then [takenMark]
  else [Char.ofNat n]

/-- The code that a character stands for without a mark before it. -/
def codeOf (c : Char) : Nat :=
  if isHalf c then c.toNat - halfShift else if c = takenMark then bareMark else c.toNat

/-- The character is a mark, and what it marks comes next. -/
def isMarkBefore (c : Char) (s : List Char) : Bool := c = takenMark && s.head?.any followsMark

def codes : List Char → List Nat
  | [] => []
  | [c] => [codeOf c]
  | c :: d :: rest =>
    if c = takenMark && followsMark d then (d.toNat - takenShift) :: codes rest
    else codeOf c :: codes (d :: rest)

/-! ## Ranges -/

theorem isHalfCode_iff (n : Nat) : isHalfCode n = true ↔ 0xD800 ≤ n ∧ n ≤ 0xDFFF := by
  rw [isHalfCode, Bool.and_eq_true, decide_eq_true_eq, decide_eq_true_eq]

theorem isHalf_iff (c : Char) : isHalf c = true ↔ 0x10D800 ≤ c.toNat ∧ c.toNat ≤ 0x10DFFF := by
  rw [isHalf, Bool.and_eq_true, decide_eq_true_eq, decide_eq_true_eq]

theorem isTaken_iff (n : Nat) : isTaken n = true ↔ 0x10D800 ≤ n ∧ n ≤ 0x10E000 := by
  rw [isTaken, Bool.and_eq_true, decide_eq_true_eq, decide_eq_true_eq]

theorem followsMark_iff (c : Char) :
    followsMark c = true ↔ 0x10E001 ≤ c.toNat ∧ c.toNat ≤ 0x10E801 := by
  rw [followsMark, Bool.and_eq_true, decide_eq_true_eq, decide_eq_true_eq]

theorem toNat_ofNat (n : Nat) (h : n.isValidChar) : (Char.ofNat n).toNat = n := by
  rw [Char.ofNat, dif_pos h]
  rfl

theorem toNat_lt (c : Char) : c.toNat < 0x110000 := by
  have := c.valid
  simp only [UInt32.isValidChar, Nat.isValidChar] at this
  show c.val.toNat < 0x110000
  omega

theorem not_isHalfCode_toNat (c : Char) : ¬ isHalfCode c.toNat = true := by
  rw [isHalfCode_iff]
  have := c.valid
  simp only [UInt32.isValidChar, Nat.isValidChar] at this
  show ¬ (0xD800 ≤ c.val.toNat ∧ c.val.toNat ≤ 0xDFFF)
  omega

theorem toNat_takenMark : takenMark.toNat = 0x10E000 :=
  toNat_ofNat _ (.inr ⟨by omega, by omega⟩)

theorem eq_takenMark_iff (c : Char) : c = takenMark ↔ c.toNat = 0x10E000 := by
  rw [← toNat_takenMark]
  exact ⟨congrArg Char.toNat, fun h => Char.ext (UInt32.toNat_inj.1 h)⟩

/-! ## Codes come back -/

/-- A character other than the mark stands for itself or for a half. -/
theorem codes_cons (c : Char) (s : List Char) (h : c ≠ takenMark) :
    codes (c :: s) = codeOf c :: codes s := by
  cases s with
  | nil => rfl
  | cons d rest => simp [codes, h]

theorem codes_half (n : Nat) (h : isHalfCode n = true) (s : List Char) :
    codes (Char.ofNat (n + halfShift) :: s) = n :: codes s := by
  rw [isHalfCode_iff] at h
  have ht : (Char.ofNat (n + halfShift)).toNat = n + halfShift :=
    toNat_ofNat _ (.inr ⟨by unfold halfShift; omega, by unfold halfShift; omega⟩)
  have hm : Char.ofNat (n + halfShift) ≠ takenMark := by
    rw [Ne, eq_takenMark_iff, ht]
    unfold halfShift
    omega
  have hh : isHalf (Char.ofNat (n + halfShift)) = true := by
    rw [isHalf_iff, ht]
    unfold halfShift
    omega
  rw [codes_cons _ _ hm, codeOf, if_pos hh, ht, Nat.add_sub_cancel]

theorem codes_taken (n : Nat) (h : isTaken n = true) (s : List Char) :
    codes (takenMark :: Char.ofNat (n + takenShift) :: s) = n :: codes s := by
  rw [isTaken_iff] at h
  have ht : (Char.ofNat (n + takenShift)).toNat = n + takenShift :=
    toNat_ofNat _ (.inr ⟨by unfold takenShift; omega, by unfold takenShift; omega⟩)
  have hf : followsMark (Char.ofNat (n + takenShift)) = true := by
    rw [followsMark_iff, ht]
    unfold takenShift
    omega
  rw [codes, hf, ht, Nat.add_sub_cancel]
  simp

theorem codes_plain (n : Nat) (h : n < 0x110000) (hn : ¬ isHalfCode n = true)
    (hk : ¬ isTaken n = true) (s : List Char) : codes (Char.ofNat n :: s) = n :: codes s := by
  rw [isHalfCode_iff] at hn
  rw [isTaken_iff] at hk
  have ht : (Char.ofNat n).toNat = n := by
    by_cases h1 : n < 0xD800
    · exact toNat_ofNat n (.inl h1)
    · exact toNat_ofNat n (.inr ⟨by omega, by omega⟩)
  have hm : Char.ofNat n ≠ takenMark := by
    rw [Ne, eq_takenMark_iff, ht]
    omega
  have hh : ¬ isHalf (Char.ofNat n) = true := by
    rw [isHalf_iff, ht]
    omega
  rw [codes_cons _ _ hm, codeOf, if_neg hh, if_neg hm, ht]

theorem codes_charsOf (n : Nat) (h : n < 0x110000) (s : List Char) :
    codes (charsOf n ++ s) = n :: codes s := by
  unfold charsOf
  split
  · next hn => exact codes_half n hn s
  · next hn =>
    split
    · next hk => exact codes_taken n hk s
    · next hk =>
      rw [if_neg (by unfold bareMark; omega)]
      exact codes_plain n h hn hk s

theorem codes_flatMap (ns : List Nat) (h : ∀ n ∈ ns, n < 0x110000) :
    codes (ns.flatMap charsOf) = ns := by
  induction ns with
  | nil => rfl
  | cons n ns ih =>
    rw [List.flatMap_cons, codes_charsOf n (h n List.mem_cons_self),
      ih fun m hm => h m (List.mem_cons_of_mem n hm)]

/-- Characters below those that stand for halves stand for themselves. -/
theorem codes_eq_map {s : List Char} (h : ∀ c ∈ s, c.toNat < 0x10D800) :
    codes s = s.map Char.toNat := by
  induction s with
  | nil => rfl
  | cons c s ih =>
    have hc := h c List.mem_cons_self
    have hk : ¬ isTaken c.toNat = true := by
      rw [isTaken_iff]
      omega
    have hcode := codes_plain c.toNat (toNat_lt c) (not_isHalfCode_toNat c) hk s
    rw [Char.ofNat_toNat] at hcode
    rw [hcode, ih fun d hd => h d (List.mem_cons_of_mem c hd), List.map_cons]

/-! ## Characters come back -/

theorem charsOf_half (c : Char) (h : isHalf c = true) : charsOf (c.toNat - halfShift) = [c] := by
  rw [isHalf_iff] at h
  have hc : isHalfCode (c.toNat - halfShift) = true := by
    rw [isHalfCode_iff]
    unfold halfShift
    omega
  have he : c.toNat - halfShift + halfShift = c.toNat := by
    unfold halfShift
    omega
  rw [charsOf, if_pos hc, he, Char.ofNat_toNat]

theorem charsOf_bareMark : charsOf bareMark = [takenMark] := by
  have hn : ¬ isHalfCode bareMark = true := by
    rw [isHalfCode_iff]
    unfold bareMark
    omega
  have hk : ¬ isTaken bareMark = true := by
    rw [isTaken_iff]
    unfold bareMark
    omega
  rw [charsOf, if_neg hn, if_neg hk, if_pos rfl]

theorem charsOf_plain (c : Char) (hh : ¬ isHalf c = true) (hm : ¬ c = takenMark) :
    charsOf c.toNat = [c] := by
  rw [isHalf_iff] at hh
  rw [eq_takenMark_iff] at hm
  have hk : ¬ isTaken c.toNat = true := by
    rw [isTaken_iff]
    omega
  have hb : ¬ c.toNat = bareMark := by
    have := toNat_lt c
    unfold bareMark
    omega
  rw [charsOf, if_neg (not_isHalfCode_toNat c), if_neg hk, if_neg hb, Char.ofNat_toNat]

theorem charsOf_codeOf (c : Char) : charsOf (codeOf c) = [c] := by
  unfold codeOf
  split
  · next hh => exact charsOf_half c hh
  · next hh =>
    split
    · next hm => rw [hm, charsOf_bareMark]
    · next hm => exact charsOf_plain c hh hm

theorem charsOf_followsMark (d : Char) (h : followsMark d = true) :
    charsOf (d.toNat - takenShift) = [takenMark, d] := by
  rw [followsMark_iff] at h
  have hn : ¬ isHalfCode (d.toNat - takenShift) = true := by
    rw [isHalfCode_iff]
    unfold takenShift
    omega
  have hk : isTaken (d.toNat - takenShift) = true := by
    rw [isTaken_iff]
    unfold takenShift
    omega
  have he : d.toNat - takenShift + takenShift = d.toNat := by
    unfold takenShift
    omega
  rw [charsOf, if_neg hn, if_pos hk, he, Char.ofNat_toNat]

/-- The codes of a text tell it apart from every other. -/
theorem flatMap_codes (s : List Char) : (codes s).flatMap charsOf = s := by
  fun_induction codes s with
  | case1 => rfl
  | case2 c => rw [List.flatMap_cons, charsOf_codeOf, List.flatMap_nil, List.append_nil]
  | case3 c d rest h ih =>
    rw [Bool.and_eq_true, decide_eq_true_eq] at h
    rw [List.flatMap_cons, charsOf_followsMark d h.2, ih, h.1]
    rfl
  | case4 c d rest h ih =>
    rw [List.flatMap_cons, charsOf_codeOf, ih]
    rfl

/-! ## Texts -/

/-- The text for a list of codes. -/
def ofCodes (ns : List Nat) : String := String.ofList (ns.flatMap charsOf)

theorem ofCodes_codes (s : String) : ofCodes (codes s.toList) = s := by
  rw [ofCodes, flatMap_codes, String.ofList_toList]

/-- How many codes a text stands for. -/
def size (s : String) : Nat := (codes s.toList).length

/-! ## Order -/

/-- Lists of codes as in a dictionary. -/
def codesLe : List Nat → List Nat → Bool
  | [], _ => true
  | _ :: _, [] => false
  | m :: ms, n :: ns => decide (m < n) || (m == n && codesLe ms ns)

theorem codesLe_cons (m n : Nat) (ms ns : List Nat) :
    codesLe (m :: ms) (n :: ns) = true ↔ m < n ∨ (m = n ∧ codesLe ms ns = true) := by
  rw [codesLe, Bool.or_eq_true, Bool.and_eq_true, decide_eq_true_eq, beq_iff_eq]

theorem codesLe_total (a b : List Nat) : codesLe a b = true ∨ codesLe b a = true := by
  induction a generalizing b with
  | nil => exact .inl rfl
  | cons m ms ih =>
    cases b with
    | nil => exact .inr rfl
    | cons n ns =>
      rw [codesLe_cons, codesLe_cons]
      rcases Nat.lt_trichotomy m n with h | h | h
      · exact .inl (.inl h)
      · rcases ih ns with hs | hs
        · exact .inl (.inr ⟨h, hs⟩)
        · exact .inr (.inr ⟨h.symm, hs⟩)
      · exact .inr (.inl h)

theorem codesLe_trans {a b c : List Nat} (h₁ : codesLe a b = true) (h₂ : codesLe b c = true) :
    codesLe a c = true := by
  induction a generalizing b c with
  | nil => rfl
  | cons m ms ih =>
    cases b with
    | nil => cases h₁
    | cons n ns =>
      cases c with
      | nil => cases h₂
      | cons k ks =>
        rw [codesLe_cons] at h₁ h₂ ⊢
        rcases h₁ with h₁ | ⟨rfl, h₁⟩
        · rcases h₂ with h₂ | ⟨rfl, _⟩
          · exact .inl (Nat.lt_trans h₁ h₂)
          · exact .inl h₁
        · rcases h₂ with h₂ | ⟨rfl, h₂⟩
          · exact .inl h₂
          · exact .inr ⟨rfl, ih h₁ h₂⟩

theorem codesLe_antisymm {a b : List Nat} (h₁ : codesLe a b = true) (h₂ : codesLe b a = true) :
    a = b := by
  induction a generalizing b with
  | nil =>
    cases b with
    | nil => rfl
    | cons n ns => cases h₂
  | cons m ms ih =>
    cases b with
    | nil => cases h₁
    | cons n ns =>
      rw [codesLe_cons] at h₁ h₂
      rcases h₁ with h₁ | ⟨rfl, h₁⟩
      · rcases h₂ with h₂ | ⟨rfl, _⟩
        · exact absurd h₂ (Nat.lt_asymm h₁)
        · exact absurd h₁ (Nat.lt_irrefl _)
      · rcases h₂ with h₂ | ⟨_, h₂⟩
        · exact absurd h₂ (Nat.lt_irrefl _)
        · rw [ih h₁ h₂]

/-- The order of the codes. -/
def le (s t : String) : Bool := codesLe (codes s.toList) (codes t.toList)

theorem le_total (s t : String) : (le s t || le t s) = true := by
  rw [Bool.or_eq_true]
  exact codesLe_total _ _

theorem le_trans (s t u : String) (h₁ : le s t = true) (h₂ : le t u = true) : le s u = true :=
  codesLe_trans h₁ h₂

theorem le_antisymm (s t : String) (h₁ : le s t = true) (h₂ : le t s = true) : s = t := by
  rw [← ofCodes_codes s, ← ofCodes_codes t, codesLe_antisymm h₁ h₂]

/-! ## Texts from outside -/

/-- A text from outside. -/
def received (s : String) : String := ofCodes (s.toList.map Char.toNat)

/-- A text for the outside, which no half can reach. -/
def sent (s : String) : String := String.ofList ((codes s.toList).map Char.ofNat)

theorem sent_received (s : String) : sent (received s) = s := by
  rw [sent, received, ofCodes, String.toList_ofList, codes_flatMap, List.map_map]
  · simp [Function.comp_def]
  · intro n hn
    obtain ⟨c, _, rfl⟩ := List.mem_map.1 hn
    exact toNat_lt c

end AppPipeline.Text
