/-!
# Searching in texts

* `occurs`: a word stands somewhere in a list of characters
  (`occurs_iff_infix`);
* `lowerAscii`: lower case as far as ASCII letters go, enough to search for
  ASCII words: besides `A` to `Z` only U+0130 and U+212A have a lower-case
  form that holds an ASCII letter.
-/

namespace AppPipeline.Text

/-! ## Words -/

def occurs (word : List Char) : List Char → Bool
  | [] => word.isEmpty
  | c :: s => word.isPrefixOf (c :: s) || occurs word s

theorem occurs_iff_infix (word s : List Char) : occurs word s = true ↔ word <:+: s := by
  induction s with
  | nil => cases word <;> simp [occurs]
  | cons c s ih =>
    rw [occurs, Bool.or_eq_true, ih, List.infix_cons_iff, List.isPrefixOf_iff_prefix]

/-- The word stands somewhere in the text. -/
def mentions (text word : String) : Bool := occurs word.toList text.toList

/-! ## Lower case -/

def lowerAsciiChar (c : Char) : List Char :=
  if c.toNat = 0x130 then ['i', Char.ofNat 0x307]
  else if c.toNat = 0x212A then ['k']
  else [c.toLower]

def lowerAscii (s : String) : String := String.ofList (s.toList.flatMap lowerAsciiChar)

end AppPipeline.Text
