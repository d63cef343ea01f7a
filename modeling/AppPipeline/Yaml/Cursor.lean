import AppPipeline.Yaml.Fault
import AppPipeline.Yaml.Scalar

/-!
# Places in a YAML text

A `Cursor` is the rest of a text with its place: how many codes, lines and
columns come before it. Every code counts as a column but the byte order mark
and those that end a line. `skip_add` splits a skip in two.
-/

namespace AppPipeline.Yaml

structure Cursor where
  rest : List Char
  index : Nat
  line : Nat
  column : Nat
  deriving DecidableEq, Repr

/-! ## Characters -/

def byteOrderMark : Char := Char.ofNat 0xFEFF

/-- Characters that a text may hold. -/
def isAllowed (c : Char) : Bool :=
  let n := c.toNat
  c == '\t' || c == '\n' || c == '\r' || (0x20 ≤ n && n ≤ 0x7E) || n == 0x85
    || (0xA0 ≤ n && n ≤ 0xD7FF) || (0xE000 ≤ n && n ≤ 0xFFFD) || (0x10000 ≤ n && !Text.isHalf c)

/-- The characters that end a line. -/
def endsLine (c : Char) : Bool := c == '\r' || isBreak c

/-- Nothing follows, or the end of a line. -/
def atLineEnd : List Char → Bool
  | [] => true
  | c :: _ => endsLine c

/-- Nothing follows, or a space, or the end of a line. -/
def atSpace : List Char → Bool
  | [] => true
  | c :: _ => c == ' ' || endsLine c

def isTabOrSpace (c : Char) : Bool := c == ' ' || c == '\t'

/-- The characters of names of anchors, handles and directives. -/
def isWordChar (c : Char) : Bool := c.isAlphanum || c == '-' || c == '_'

/-- Three hyphens or points that stand alone. -/
def isDocumentMark (s : List Char) : Bool := isMark s && separated (s.drop 3)

/-- The characters before the first rest that stops. -/
def untilStop (stop : List Char → Bool) : List Char → List Char
  | [] => []
  | c :: s => if stop (c :: s) then [] else c :: untilStop stop s

namespace Cursor

def start (s : List Char) : Cursor := ⟨s, 0, 0, 0⟩

/-! ## Moving on -/

def step (p : Cursor) : Cursor :=
  match p.rest with
  | [] => p
  | c :: s =>
    if isBreak c || (c == '\r' && s.head? != some '\n') then ⟨s, p.index + 1, p.line + 1, 0⟩
    else if Text.isMarkBefore c s then ⟨s, p.index, p.line, p.column⟩
    else ⟨s, p.index + 1, p.line, if c == byteOrderMark then p.column else p.column + 1⟩

def skip : Nat → Cursor → Cursor
  | 0, p => p
  | n + 1, p => skip n p.step

theorem skip_add (m n : Nat) (p : Cursor) : skip (m + n) p = skip n (skip m p) := by
  induction m generalizing p with
  | zero => simp [skip]
  | succ m ih => rw [Nat.succ_add]; exact ih p.step

theorem rest_step (p : Cursor) : p.step.rest = p.rest.drop 1 := by
  unfold step
  split
  · rename_i h; simp [h]
  · rename_i h
    split
    · simp [h]
    · split <;> simp [h]

theorem rest_skip (n : Nat) (p : Cursor) : (skip n p).rest = p.rest.drop n := by
  induction n generalizing p with
  | zero => rfl
  | succ n ih => rw [skip, ih, rest_step, List.drop_drop, Nat.add_comm]

/-- Skips the characters of a class. -/
def skipWhile (class? : Char → Bool) (p : Cursor) : Cursor :=
  skip (p.rest.takeWhile class?).length p

def skipSpaces (p : Cursor) : Cursor := p.skipWhile (· == ' ')

/-- Skips the rest of the line. -/
def skipLine (p : Cursor) : Cursor := p.skipWhile fun c => !endsLine c

/-- Skips at most `n` spaces. -/
def skipIndent (n : Nat) (p : Cursor) : Cursor :=
  skip ((p.rest.take n).takeWhile (· == ' ')).length p

/-- The line end that stands here, as one character, and the place after it. -/
def lineEnd? (p : Cursor) : Option (Char × Cursor) :=
  match p.rest with
  | '\r' :: '\n' :: _ => some ('\n', skip 2 p)
  | c :: _ =>
    if c == '\r' || c == '\n' || c.toNat == 0x85 then some ('\n', p.step)
    else if isBreak c then some (c, p.step)
    else none
  | [] => none

/-- Skips spaces and a comment, up to the end of the line. -/
def skipComment (p : Cursor) : Cursor :=
  let q := p.skipSpaces
  if q.rest.head? == some '#' then q.skipLine else q

/-- Skips what may stand behind a directive or a block header, and the line end. -/
def finishLine (p : Cursor) : Except ReadFault Cursor :=
  let q := p.skipComment
  match q.rest with
  | [] => .ok q
  | _ :: _ =>
    match q.lineEnd? with
    | some (_, r) => .ok r
    | none => .error .malformed

end Cursor

end AppPipeline.Yaml
