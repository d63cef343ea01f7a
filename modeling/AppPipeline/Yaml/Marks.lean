import AppPipeline.Text.Utf8
import AppPipeline.Yaml.Cursor

/-!
# Anchors, tags and directives

A tag is a handle, which stands for a stem, and a suffix; or the suffix alone
is the whole tag. Directives give the version of the format or the stem of a
handle; others have no meaning here.
-/

namespace AppPipeline.Yaml

inductive Directive where
  | version (major : Nat)
  | handle (name stem : String)
  | other
  deriving DecidableEq, Repr

/-! ## Words -/

/-- The name that follows the mark of an anchor or an alias. -/
def anchorName (p : Cursor) : Except ReadFault (String × Cursor) :=
  let name := p.rest.takeWhile isWordChar
  let q := p.skip name.length
  if name.isEmpty || !(separated q.rest || q.rest.head?.any "?:,]\x7d%@`".toList.contains) then
    .error .malformed
  else .ok (String.ofList name, q)

/-! ## Tags -/

/-- Characters of a tag, besides escapes by a percent sign. -/
def isTagChar (c : Char) : Bool := c.isAlphanum || "-;/?:@&=+$,_.!~*'()[]".toList.contains c

/-- The bytes of the escapes that stand here. -/
def tagEscapes (left : Nat) (p : Cursor) : Except ReadFault (List Nat × Cursor) :=
  match left with
  | 0 => .error .malformed
  | n + 1 =>
    match p.rest with
    | '%' :: a :: b :: _ =>
      match Text.hexNumber? 0 [a, b] with
      | some byte => do
        let (bytes, q) ← tagEscapes n (p.skip 3)
        return (byte :: bytes, q)
      | none => .error .malformed
    | '%' :: _ => .error .malformed
    | _ => .ok ([], p)

/-- The tag characters that stand here. -/
def tagChars (left : Nat) (p : Cursor) : Except ReadFault (List Char × Cursor) :=
  match left with
  | 0 => .error .malformed
  | n + 1 =>
    let plain := p.rest.takeWhile isTagChar
    let q := p.skip plain.length
    if q.rest.head? == some '%' then do
      let (bytes, r) ← tagEscapes n q
      match Text.decode? bytes with
      | none => throw .malformed
      | some codes =>
        let (more, s) ← tagChars n r
        return (plain ++ codes.flatMap Text.charsOf ++ more, s)
    else .ok (plain, q)

/-- At least one tag character. -/
def tagText (left : Nat) (p : Cursor) : Except ReadFault (String × Cursor) := do
  let (cs, q) ← tagChars left p
  if q.rest.length == p.rest.length then throw .malformed
  return (String.ofList cs, q)

/-- The handle that stands here: one mark, or a word between two marks. -/
def tagHandle (p : Cursor) : Except ReadFault (String × Cursor) :=
  match p.rest with
  | '!' :: s =>
    let word := s.takeWhile isWordChar
    let after := s.drop word.length
    if s.head? == some ' ' then .ok ("!", p.step)
    else if after.head? == some '!' then
      .ok (String.ofList ('!' :: word ++ ['!']), p.skip (word.length + 2))
    else .error .malformed
  | _ => .error .malformed

/-- The tag whose mark stands here. -/
def tag (left : Nat) (p : Cursor) : Except ReadFault (Option String × String × Cursor) := do
  let s := p.rest.drop 1
  let (handle, suffix, q) ←
    if s.head? == some '<' then do
      let (suffix, q) ← tagText left (p.skip 2)
      if q.rest.head? != some '>' then throw .malformed
      pure (none, suffix, q.step)
    else if separated s then pure (none, "!", p.step)
    else if (untilStop atSpace s).contains '!' then do
      let (handle, q) ← tagHandle p
      let (suffix, r) ← tagText left q
      pure (some handle, suffix, r)
    else do
      let (suffix, q) ← tagText left p.step
      pure (some "!", suffix, q)
  if !atSpace q.rest then throw .malformed
  return (handle, suffix, q)

/-! ## Directives -/

/-- The digits that stand here as a number. -/
def versionPart (p : Cursor) : Except ReadFault (Nat × Cursor) :=
  let digits := p.rest.takeWhile Char.isDigit
  if digits.isEmpty then .error .malformed
  else if Literal.digitLimit < digits.length then .error (.number (.tooLong digits.length))
  else .ok (Literal.naturalOf digits, p.skip digits.length)

def versionDirective (p : Cursor) : Except ReadFault (Directive × Cursor) := do
  let (major, q) ← versionPart p.skipSpaces
  if q.rest.head? != some '.' then throw .malformed
  let (_, r) ← versionPart q.step
  if !atSpace r.rest then throw .malformed
  return (.version major, r)

def handleDirective (left : Nat) (p : Cursor) : Except ReadFault (Directive × Cursor) := do
  let (name, q) ← tagHandle p.skipSpaces
  if q.rest.head? != some ' ' then throw .malformed
  let (stem, r) ← tagText left q.skipSpaces
  if !atSpace r.rest then throw .malformed
  return (.handle name stem, r)

/-- The directive whose mark stands here, with its line. -/
def directive (left : Nat) (p : Cursor) : Except ReadFault (Directive × Cursor) := do
  let name := p.step.rest.takeWhile isWordChar
  let q := p.step.skip name.length
  if name.isEmpty || !atSpace q.rest then throw .malformed
  let (found, r) ←
    if name = "YAML".toList then versionDirective q
    else if name = "TAG".toList then handleDirective left q
    else pure (.other, q.skipLine)
  return (found, ← r.finishLine)

end AppPipeline.Yaml
