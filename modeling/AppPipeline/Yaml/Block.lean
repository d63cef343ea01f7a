import AppPipeline.Yaml.Cursor

/-!
# Reading block texts

A block text is a header and lines of one indentation. A literal block keeps
its line ends; in a folded one a line end between two lines that start with
no blank stands for a space. The header may set the indentation and what
becomes of the line ends at the end.
-/

namespace AppPipeline.Yaml

/-! ## Headers -/

/-- What becomes of the last line ends: one, none or all are kept. -/
inductive Chomp where
  | clip
  | strip
  | keep
  deriving DecidableEq, Repr

def chompMark? (s : List Char) : Option Chomp :=
  match s with
  | '+' :: _ => some .keep
  | '-' :: _ => some .strip
  | _ => none

/-- The indentation that a digit asks for. -/
def indentMark? (s : List Char) : Option Nat :=
  match s with
  | c :: _ => if c.isDigit then some (c.toNat - 48) else none
  | [] => none

structure BlockHeader where
  chomp : Chomp
  indent : Option Nat
  deriving DecidableEq, Repr

/-- The marks of a header, in either order, and how many there are. -/
def blockMarks (s : List Char) : BlockHeader × Nat :=
  match chompMark? s, indentMark? s with
  | some c, _ =>
    match indentMark? (s.drop 1) with
    | some i => (⟨c, some i⟩, 2)
    | none => (⟨c, none⟩, 1)
  | none, some i =>
    match chompMark? (s.drop 1) with
    | some c => (⟨c, some i⟩, 2)
    | none => (⟨.clip, some i⟩, 1)
  | none, none => (⟨.clip, none⟩, 0)

/-- The header that stands here, and the place after its line. -/
def blockHeader (p : Cursor) : Except ReadFault (BlockHeader × Cursor) := do
  let (header, count) := blockMarks p.rest
  let q := p.skip count
  if header.indent == some 0 || !atSpace q.rest then throw .malformed
  return (header, ← q.finishLine)

/-! ## Lines -/

/-- The ends of the empty lines that stand here, the largest column that a space
reaches in them, and the place of the first other character. -/
def leadingLines (left : Nat) (most : Nat) (p : Cursor) : List Char × Nat × Cursor :=
  match left with
  | 0 => ([], most, p)
  | n + 1 =>
    match p.rest with
    | ' ' :: _ => leadingLines n (max most p.step.column) p.step
    | _ =>
      match p.lineEnd? with
      | some (c, q) =>
        let (cs, m, r) := leadingLines n most q
        (c :: cs, m, r)
      | none => ([], most, p)

/-- The ends of the empty lines that stand here; at most `indent` columns of the
next line are skipped. -/
def blockBreaks (indent left : Nat) (p : Cursor) : List Char × Cursor :=
  let q := p.skipIndent (indent - p.column)
  match left with
  | 0 => ([], q)
  | n + 1 =>
    match q.lineEnd? with
    | some (c, r) =>
      let (cs, s) := blockBreaks indent n r
      (c :: cs, s)
    | none => ([], q)

/-- The lines of a block: their text without the last line end, that end, and the
ends of the empty lines after it. -/
structure BlockLines where
  text : List Char
  lineEnd : List Char
  breaks : List Char
  after : Cursor
  deriving Repr

/-- A line of the block starts here. -/
def startsLine (indent : Nat) (p : Cursor) : Bool := p.column == indent && !p.rest.isEmpty

/-- What stands for a line end, with the ends of the empty lines after it, between two lines. -/
def blockJoint (fold : Bool) (line lineEnd breaks next : List Char) : List Char :=
  if fold && lineEnd == ['\n'] && !line.head?.any isTabOrSpace && !next.head?.any isTabOrSpace then
    (if breaks.isEmpty then [' '] else [])
  else lineEnd

/-- The lines from here on; the ends of empty lines stand before them. -/
def blockLines (fold : Bool) (indent left : Nat) (before : List Char) (p : Cursor) : BlockLines :=
  match left with
  | 0 => ⟨[], [], before, p⟩
  | n + 1 =>
    if startsLine indent p then
      let line := p.rest.takeWhile fun c => !endsLine c
      let q := p.skip line.length
      let (lineEnd, r) :=
        match q.lineEnd? with
        | some (c, r) => ([c], r)
        | none => ([], q)
      let (breaks, s) := blockBreaks indent n r
      if startsLine indent s then
        let more := blockLines fold indent n breaks s
        { more with
          text := before ++ line ++ blockJoint fold line lineEnd breaks s.rest ++ more.text }
      else ⟨before ++ line, lineEnd, breaks, s⟩
    else ⟨[], [], before, p⟩

/-- The text of a block. -/
def BlockLines.chomped (b : BlockLines) : Chomp → List Char
  | .strip => b.text
  | .clip => b.text ++ b.lineEnd
  | .keep => b.text ++ b.lineEnd ++ b.breaks

/-- The block whose mark stands here; its lines are indented by `least` columns at least. -/
def blockText (fold : Bool) (least left : Nat) (p : Cursor) :
    Except ReadFault (List Char × Cursor) := do
  let (header, q) ← blockHeader p.step
  let lines :=
    match header.indent with
    | some extra =>
      let indent := max least 1 + extra - 1
      let (breaks, r) := blockBreaks indent left q
      blockLines fold indent left breaks r
    | none =>
      let (breaks, most, r) := leadingLines left 0 q
      blockLines fold (max (max least 1) most) left breaks r
  return (lines.chomped header.chomp, lines.after)

end AppPipeline.Yaml
