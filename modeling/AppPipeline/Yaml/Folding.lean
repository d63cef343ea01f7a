import AppPipeline.Text.Code
import AppPipeline.Text.Hex
import AppPipeline.Yaml.Cursor

/-!
# Reading texts of one or several lines

`quotedText` reads a text between single or double quotes, `plainText` one
without quotes. In both, a line end with the blanks around it stands for one
space, and each empty line after it for a line feed; in double quotes a line
end after a backslash stands for nothing. Lines must not start with a
document mark. The argument `left` bounds the characters that are left.
-/

namespace AppPipeline.Yaml

/-- What a line end stands for, with the ends of the empty lines after it. -/
def foldedEnd (lineEnd : Char) (empty : List Char) : List Char :=
  if lineEnd != '\n' then lineEnd :: empty
  else if empty.isEmpty then [' ']
  else empty

/-! ## Quoted texts -/

/-- The ends of the empty lines that stand here. -/
def emptyLines (left : Nat) (p : Cursor) : Except ReadFault (List Char × Cursor) :=
  match left with
  | 0 => .error .malformed
  | n + 1 =>
    if isDocumentMark p.rest then .error .malformed
    else
      let q := p.skipWhile isTabOrSpace
      match q.lineEnd? with
      | some (c, r) => do
        let (cs, s) ← emptyLines n r
        return (c :: cs, s)
      | none => .ok ([], q)

/-- Blanks inside a line, or the lines that start here. -/
def quotedGap (left : Nat) (p : Cursor) : Except ReadFault (List Char × Cursor) :=
  let q := p.skipWhile isTabOrSpace
  match q.lineEnd? with
  | some (c, r) => do
    let (cs, s) ← emptyLines left r
    return (foldedEnd c cs, s)
  | none => .ok (p.rest.takeWhile isTabOrSpace, q)

/-- The character that a backslash and a letter stand for. -/
def escaped? (c : Char) : Option Char :=
  match c with
  | '0' => some (Char.ofNat 0)
  | 'a' => some (Char.ofNat 7)
  | 'b' => some (Char.ofNat 8)
  | 't' => some '\t'
  | '\t' => some '\t'
  | 'n' => some '\n'
  | 'v' => some (Char.ofNat 0x0B)
  | 'f' => some (Char.ofNat 0x0C)
  | 'r' => some '\r'
  | 'e' => some (Char.ofNat 0x1B)
  | ' ' => some ' '
  | '"' => some '"'
  | '\\' => some '\\'
  | '/' => some '/'
  | 'N' => some (Char.ofNat 0x85)
  | '_' => some (Char.ofNat 0xA0)
  | 'L' => some (Char.ofNat 0x2028)
  | 'P' => some (Char.ofNat 0x2029)
  | _ => none

/-- How many digits follow a letter that announces a code. -/
def codeWidth? (c : Char) : Option Nat :=
  match c with
  | 'x' => some 2
  | 'u' => some 4
  | 'U' => some 8
  | _ => none

/-- The character with a code of `width` digits. -/
def codeChar (width : Nat) (p : Cursor) : Except ReadFault (List Char × Cursor) :=
  let digits := p.rest.take width
  if digits.length < width then .error .malformed
  else
    match Text.hexNumber? 0 digits with
    | some code =>
      if 0x110000 ≤ code then .error (.noCharacter code)
      else .ok (Text.charsOf code, p.skip width)
    | none => .error .malformed

/-- What stands after a backslash. -/
def escapeText (left : Nat) (p : Cursor) : Except ReadFault (List Char × Cursor) :=
  match p.rest with
  | [] => .error .malformed
  | c :: _ =>
    match escaped? c with
    | some d => .ok ([d], p.step)
    | none =>
      match codeWidth? c with
      | some width => codeChar width p.step
      | none =>
        match p.lineEnd? with
        | some (_, q) => emptyLines left q
        | none => .error .malformed

/-- The text up to the closing quote, which is skipped. -/
def quotedTail (double : Bool) (left : Nat) (p : Cursor) : Except ReadFault (List Char × Cursor) :=
  match left with
  | 0 => .error .malformed
  | n + 1 =>
    match p.rest with
    | [] => .error .malformed
    | c :: s =>
      if isTabOrSpace c || endsLine c then do
        let (cs, q) ← quotedGap n p
        let (more, r) ← quotedTail double n q
        return (cs ++ more, r)
      else if double && c == '\\' then do
        let (cs, q) ← escapeText n p.step
        let (more, r) ← quotedTail double n q
        return (cs ++ more, r)
      else if !double && c == '\'' && s.head? == some '\'' then do
        let (more, r) ← quotedTail double n (p.skip 2)
        return (c :: more, r)
      else if c == (if double then '"' else '\'') then .ok ([], p.step)
      else do
        let (more, r) ← quotedTail double n p.step
        return (c :: more, r)

/-- The text whose opening quote stands here. -/
def quotedText (double : Bool) (left : Nat) (p : Cursor) :
    Except ReadFault (List Char × Cursor) :=
  quotedTail double left p.step

/-! ## Plain texts -/

/-- Marks before which a colon in a flow collection ends a text. -/
def flowMarks : List Char := [',', '[', ']', '\x7b', '\x7d']

/-- A plain text does not go on here. -/
def plainStops (flow : Bool) : List Char → Bool
  | [] => true
  | c :: s =>
    isSeparator c || (flow && (c == '?' || flowMarks.contains c))
      || (c == ':' && (separated s || (flow && s.head?.any flowMarks.contains)))

/-- The ends of the empty lines that stand here, none before a document mark. -/
def plainLines (left : Nat) (p : Cursor) : Option (List Char) × Cursor :=
  match left with
  | 0 => (none, p)
  | n + 1 =>
    if isDocumentMark p.rest then (none, p)
    else
      let q := p.skipSpaces
      match q.lineEnd? with
      | some (c, r) =>
        let (cs, s) := plainLines n r
        (cs.map (c :: ·), s)
      | none => (some [], q)

/-- What may separate two words of a plain text. -/
structure Gap where
  text : List Char
  /-- the gap ends a line -/
  crossed : Bool
  after : Cursor
  deriving Repr

def plainGap (left : Nat) (p : Cursor) : Gap :=
  let q := p.skipSpaces
  match q.lineEnd? with
  | some (c, r) =>
    let (cs, s) := plainLines left r
    ⟨(cs.map (foldedEnd c)).getD [], true, s⟩
  | none => ⟨p.rest.takeWhile (· == ' '), false, q⟩

/-- The text from here on, which a gap precedes; the gap counts only if a word follows.
Outside flow collections every line is indented by `indent` at least. -/
def plainText (flow : Bool) (indent left : Nat) (gap : Gap) : Gap :=
  match left with
  | 0 => { gap with text := [] }
  | n + 1 =>
    let p := gap.after
    let word := if p.rest.head? == some '#' then [] else untilStop (plainStops flow) p.rest
    if word.isEmpty then { gap with text := [] }
    else
      let next := plainGap n (p.skip word.length)
      if next.text.isEmpty || (!flow && next.after.column < indent) then
        { next with text := gap.text ++ word }
      else
        let more := plainText flow indent n next
        { more with text := gap.text ++ word ++ more.text }

end AppPipeline.Yaml
