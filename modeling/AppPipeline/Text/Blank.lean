/-!
# Blank characters and stripped texts

* `isBlank`: the characters of the Unicode property White_Space, together
  with the four information separators U+001C to U+001F;
* `trimStart`, `trimEnd`, `trim` on lists of characters, `strip` and
  `stripEnd` on texts;
* `hasInk`: some character is not blank; a text has ink exactly when
  stripping leaves something (`strip_ne_empty_iff`).
-/

namespace AppPipeline.Text

/-! ## Blank characters -/

def isBlank (c : Char) : Bool :=
  let n := c.toNat
  (9 ≤ n && n ≤ 13) || (28 ≤ n && n ≤ 32) || n == 0x85 || n == 0xA0 || n == 0x1680
    || (0x2000 ≤ n && n ≤ 0x200A) || n == 0x2028 || n == 0x2029 || n == 0x202F
    || n == 0x205F || n == 0x3000

/-! ## Trimming -/

def trimStart (s : List Char) : List Char := s.dropWhile isBlank

def trimEnd (s : List Char) : List Char := (s.reverse.dropWhile isBlank).reverse

def trim (s : List Char) : List Char := trimEnd (trimStart s)

/-- The text without the blank characters at its two ends. -/
def strip (s : String) : String := String.ofList (trim s.toList)

/-- The text without the blank characters at its end. -/
def stripEnd (s : String) : String := String.ofList (trimEnd s.toList)

/-! ## Ink -/

/-- Some character of the text is not blank. -/
def hasInk (s : String) : Bool := s.toList.any fun c => !isBlank c

theorem trimStart_eq_nil_iff (s : List Char) :
    trimStart s = [] ↔ s.any (fun c => !isBlank c) = false := by
  induction s with
  | nil => simp [trimStart]
  | cons c s ih =>
    cases h : isBlank c
    · simp [trimStart, h]
    · simp only [trimStart, List.dropWhile_cons, h, ↓reduceIte, List.any_cons, Bool.not_true,
        Bool.false_or]
      exact ih

theorem any_dropWhile (p : Char → Bool) (s : List Char) :
    (s.dropWhile p).any (fun c => !p c) = s.any (fun c => !p c) := by
  induction s with
  | nil => rfl
  | cons c s ih => cases h : p c <;> simp [h, ih]

theorem trim_eq_nil_iff (s : List Char) :
    trim s = [] ↔ s.any (fun c => !isBlank c) = false := by
  have h := trimStart_eq_nil_iff (trimStart s).reverse
  rw [trimStart] at h
  rw [trim, trimEnd, List.reverse_eq_nil_iff, h, List.any_reverse, trimStart, any_dropWhile]

/-- Stripping leaves something exactly when the text has ink. -/
theorem strip_ne_empty_iff (s : String) : strip s ≠ "" ↔ hasInk s = true := by
  have h := trim_eq_nil_iff s.toList
  have e : strip s = "" ↔ trim s.toList = [] := by
    constructor
    · intro h0
      have := congrArg String.toList h0
      simpa [strip] using this
    · intro h0
      simp [strip, h0]
  rw [Ne, e, h, hasInk]
  cases s.toList.any (fun c => !isBlank c) <;> simp

end AppPipeline.Text
