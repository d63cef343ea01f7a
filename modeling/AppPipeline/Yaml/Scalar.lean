import AppPipeline.Text.Code
import AppPipeline.Text.Hex
import AppPipeline.Yaml.Plain

/-!
# Writing scalars

A text is written plain, between single quotes, between double quotes or as a
literal block. `styleOf` chooses: a text with line feeds becomes a block, any
other is written plain or, failing that, between single quotes; what no style
can hold so is written between double quotes. Plain and quoted texts are
folded at a space once the column is past `width`.
-/

namespace AppPipeline.Yaml

def width : Nat := 4096

def spaces (n : Nat) : List Char := List.replicate n ' '

/-! ## Characters -/

/-- The codes of the line breaks that a text may hold. -/
def isBreakCode (n : Nat) : Bool := n == 0x0A || n == 0x85 || n == 0x2028 || n == 0x2029

def isBreak (c : Char) : Bool := isBreakCode c.toNat

/-- The code of a space. -/
def spaceCode : Nat := 0x20

/-- The code of a single quote. -/
def quoteCode : Nat := 0x27

/-- Codes that only double quotes can hold. -/
def isSpecial (n : Nat) : Bool :=
  !(n == 0x0A || (0x20 ≤ n && n ≤ 0x7E)
    || ((n == 0x85 || (0xA0 ≤ n && n ≤ 0xD7FF) || (0xE000 ≤ n && n ≤ 0xFFFD)
        || (0x10000 ≤ n && n < 0x10FFFF)) && n != 0xFEFF))

/-- Blanks and breaks next to which an indicator counts. -/
def isSeparator (c : Char) : Bool :=
  c.toNat == 0 || c == ' ' || c == '\t' || c == '\r' || isBreak c

/-- The character that follows separates, or nothing follows. -/
def separated : List Char → Bool
  | [] => true
  | c :: _ => isSeparator c

/-- Characters that no plain scalar starts with. -/
def leadingIndicators : List Char := "#,[]\x7b\x7d&*!|>'\"%@`".toList

/-! ## Features of a text -/

/-- A character of one class with one of another right after it. -/
def hasPair (p q : Char → Bool) : List Char → Bool
  | c :: d :: s => (p c && q d) || hasPair p q (d :: s)
  | _ => false

/-- A colon before a separator or a hash after one, past the first character. -/
def hasInnerIndicator : List Char → Bool
  | prev :: c :: s =>
    (c == ':' && separated s) || (c == '#' && isSeparator prev) || hasInnerIndicator (c :: s)
  | _ => false

def isMark (s : List Char) : Bool :=
  ['-', '-', '-'].isPrefixOf s || ['.', '.', '.'].isPrefixOf s

/-- Read plain, the text would be taken for something else. -/
def hasIndicator : List Char → Bool
  | [] => false
  | c :: s =>
    isMark (c :: s) || leadingIndicators.contains c
      || ((c == '?' || c == ':' || c == '-') && separated s) || hasInnerIndicator (c :: s)

def isSpace (c : Char) : Bool := c == ' '

def isMultiline (s : List Char) : Bool := s.any isBreak

/-- Spaces right after a break. -/
def hasBreakSpace (s : List Char) : Bool := hasPair isBreak isSpace s

/-- Spaces right before a break, or special codes. -/
def needsDouble (s : List Char) : Bool := hasPair isSpace isBreak s || (Text.codes s).any isSpecial

def allowsPlain (s : List Char) : Bool :=
  !(s.head?.any isSpace || s.getLast?.any isSpace || isMultiline s || needsDouble s
    || hasIndicator s)

def allowsSingle (s : List Char) : Bool := !(hasBreakSpace s || needsDouble s)

def allowsBlock (s : List Char) : Bool :=
  !(s.isEmpty || s.getLast?.any isSpace || needsDouble s)

/-! ## Styles -/

inductive Style where
  | plain
  | single
  | double
  | literal
  deriving DecidableEq, Repr

/-- The style of a text; `key` says that it stands before a colon on one line. -/
def styleOf (key : Bool) (s : List Char) : Style :=
  if s.contains '\n' then
    if !key && allowsBlock s then .literal else .double
  else if Plain.isText s && allowsPlain s && !(key && s.isEmpty) then .plain
  else if allowsSingle s && !(key && isMultiline s) then .single
  else .double

/-! ## Bodies -/

/-- The codes of a plain text from a column on; a lone space past the width becomes a new line. -/
def plainBody (fold : Bool) (indent column prev : Nat) : List Nat → List Char
  | [] => []
  | n :: ns =>
    if fold && n == spaceCode && prev != spaceCode && ns.head? != some spaceCode
        && width < column then
      '\n' :: spaces indent ++ plainBody fold indent indent n ns
    else Text.charsOf n ++ plainBody fold indent (column + 1) n ns

/-- The codes of a text without line feeds between single quotes: a quote is written twice and
a line after other breaks is indented. -/
def singleBody (fold : Bool) (indent column : Nat) (prev : Option Nat) : List Nat → List Char
  | [] => if prev.any isBreakCode then spaces indent else []
  | n :: ns =>
    if isBreakCode n then Char.ofNat n :: singleBody fold indent 0 (some n) ns
    else
      let lead := if prev.any isBreakCode then spaces indent else []
      let column := column + lead.length
      lead ++
        if n == quoteCode then '\'' :: '\'' :: singleBody fold indent (column + 2) (some n) ns
        else if fold && n == spaceCode && prev.isSome && prev != some spaceCode && !ns.isEmpty
            && ns.head? != some spaceCode && width < column then
          '\n' :: spaces indent ++ singleBody fold indent indent (some n) ns
        else Text.charsOf n ++ singleBody fold indent (column + 1) (some n) ns

def upperHex (width n : Nat) : List Char := (Text.hexDigits width n).map Char.toUpper

/-- The escape of a code, if its character is not written as it is. -/
def escape? (n : Nat) : Option (List Char) :=
  if n = 0 then some ['\\', '0']
  else if n = 7 then some ['\\', 'a']
  else if n = 8 then some ['\\', 'b']
  else if n = 9 then some ['\\', 't']
  else if n = 0x0A then some ['\\', 'n']
  else if n = 0x0B then some ['\\', 'v']
  else if n = 0x0C then some ['\\', 'f']
  else if n = 0x0D then some ['\\', 'r']
  else if n = 0x1B then some ['\\', 'e']
  else if n = 0x22 then some ['\\', '"']
  else if n = 0x5C then some ['\\', '\\']
  else if n = 0x85 then some ['\\', 'N']
  else if n = 0x2028 then some ['\\', 'L']
  else if n = 0x2029 then some ['\\', 'P']
  else if n = 0xFEFF then some ('\\' :: 'u' :: upperHex 4 n)
  else if (0x20 ≤ n ∧ n ≤ 0x7E) ∨ (0xA0 ≤ n ∧ n ≤ 0xD7FF) ∨ (0xE000 ≤ n ∧ n ≤ 0xFFFD) then none
  else if n ≤ 0xFF then some ('\\' :: 'x' :: upperHex 2 n)
  else if n ≤ 0xFFFF then some ('\\' :: 'u' :: upperHex 4 n)
  else some ('\\' :: 'U' :: upperHex 8 n)

/-- A new line inside double quotes; a space that follows is kept by a backslash. -/
def doubleBreak (indent : Nat) (next : Option Nat) : List Char :=
  '\\' :: '\n' :: spaces indent ++ (if next == some spaceCode then ['\\'] else [])

/-- The codes of a text between double quotes. `first` says that nothing stands before them and
`escaped` that an escape does. -/
def doubleBody (fold : Bool) (indent column : Nat) (first escaped : Bool) :
    List Nat → List Char
  | [] => []
  | n :: ns =>
    let foldable := fold && !first && !ns.isEmpty
    match escape? n with
    | some e =>
      let column := column + e.length
      if foldable && width + 1 < column then
        let brk := doubleBreak indent ns.head?
        e ++ brk ++ doubleBody fold indent (brk.length - 2) false true ns
      else e ++ doubleBody fold indent column false true ns
    | none =>
      if foldable && (n == spaceCode || escaped) && width < column then
        let brk := doubleBreak indent (some n)
        brk ++ Char.ofNat n :: doubleBody fold indent (brk.length - 2 + 1) false false ns
      else Char.ofNat n :: doubleBody fold indent (column + 1) false false ns

/-- The lines of a literal block; `start` says that a line starts here. -/
def literalBody (indent : Nat) (start : Bool) : List Char → List Char
  | [] => if start then [] else ['\n']
  | c :: s =>
    if isBreak c then c :: literalBody indent true s
    else (if start then spaces indent else []) ++ c :: literalBody indent false s

/-- The text ends with more breaks than a block has by itself. -/
def keepsBreaks (s : List Char) : Bool :=
  match s.reverse with
  | [c] => isBreak c
  | c :: d :: _ => isBreak c && isBreak d
  | [] => false

/-- The indentation, if the text hides it, and what happens to the last breaks. -/
def blockHints (s : List Char) : List Char :=
  (if s.head?.any fun c => c == ' ' || isBreak c then ['2'] else [])
    ++ (if !s.getLast?.any isBreak then ['-'] else if keepsBreaks s then ['+'] else [])

/-! ## Scalars -/

/-- A text in a style, from a column on. -/
def styled (style : Style) (fold : Bool) (indent column : Nat) (s : List Char) : List Char :=
  match style with
  | .plain => plainBody fold indent column spaceCode (Text.codes s)
  | .single => '\'' :: singleBody fold indent (column + 1) none (Text.codes s) ++ ['\'']
  | .double => '"' :: doubleBody fold indent (column + 1) true false (Text.codes s) ++ ['"']
  | .literal => '|' :: blockHints s ++ '\n' :: literalBody indent true s

/-- A text on a line of its own or as a block; either way the line is ended. -/
def textLine (indent column : Nat) (s : List Char) : List Char :=
  let style := styleOf false s
  styled style true indent column s ++ (if style = .literal then [] else ['\n'])

/-- A text that stands before a colon on the same line. -/
def keyText (column : Nat) (s : List Char) : List Char :=
  styled (styleOf true s) false 0 column s

/-- Whether a text can stand before a colon: short, not empty, on one line. -/
def isSimpleKey (s : List Char) : Bool :=
  (Text.codes s).length + 5 < 128 && !s.isEmpty && !isMultiline s

end AppPipeline.Yaml
