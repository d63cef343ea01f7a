import AppPipeline.Yaml.Block
import AppPipeline.Yaml.Folding
import AppPipeline.Yaml.Marks

/-!
# Tokens

`tokens` cuts a text into tokens. Indentation becomes tokens too: the start of
a list or a mapping in blocks, and its end. A text becomes a key when a colon
follows on the same line, at most `keyReach` characters later; its key token
is then put in front of it. A text that begins a line at the indentation of a
mapping must become a key.

Where a text cannot be cut, the list ends with the fault. In front of it stand
the tokens that were settled before: those before every place where a key may
still begin.
-/

namespace AppPipeline.Yaml

inductive Token where
  | directive (d : Directive)
  | documentStart
  | documentEnd
  | blockSequence
  | blockMapping
  | blockEnd
  | blockEntry
  | flowSequence
  | flowSequenceEnd
  | flowMapping
  | flowMappingEnd
  | flowEntry
  | key
  | value
  | alias (name : String)
  | anchor (name : String)
  | tag (handle : Option String) (suffix : String)
  | scalar (plain : Bool) (text : List Char)
  /-- no token can be read here -/
  | broken (fault : ReadFault)
  deriving DecidableEq, Repr

def keyReach : Nat := 1024

/-- The most flow collections that may be open. Long before there are so many, those that are
settled are nested too deeply. -/
def mostOpen : Nat := 2000

/-- A place where a key may begin, with the number of tokens before it. -/
structure KeyPlace where
  tokens : Nat
  required : Bool
  index : Nat
  line : Nat
  column : Nat
  deriving DecidableEq, Repr

/-- The state between two tokens. -/
structure Lexer where
  place : Cursor
  /-- the tokens so far, the latest first, and their number -/
  tokens : List Token
  count : Nat
  /-- the columns of the open block collections, the innermost first -/
  indents : List Nat
  allowsKey : Bool
  /-- where a key may have begun, for every flow level, the innermost first -/
  keys : List (Option KeyPlace)
  deriving Repr

namespace Lexer

def start (s : List Char) : Lexer :=
  let p := Cursor.start s
  ⟨if s.head? == some byteOrderMark then p.step else p, [], 0, [], true, [none]⟩

/-! ## Indentation -/

def inFlow (l : Lexer) : Bool := 1 < l.keys.length

/-- The least indentation of what belongs to the open collections. -/
def innerIndent (l : Lexer) : Nat :=
  match l.indents with
  | [] => 0
  | c :: _ => c + 1

def push (t : Token) (l : Lexer) : Lexer := { l with tokens := t :: l.tokens, count := l.count + 1 }

/-- Ends the block collections that the test picks. -/
def unwind (test : Nat → Bool) (l : Lexer) : Lexer :=
  if l.inFlow then l
  else
    let ended := (l.indents.takeWhile test).length
    { l with
      tokens := List.replicate ended .blockEnd ++ l.tokens
      count := l.count + ended
      indents := l.indents.drop ended }

/-- Opens a block collection at a column, unless one is open there. -/
def openBlock (t : Token) (l : Lexer) : Lexer :=
  if l.innerIndent ≤ l.place.column then
    push t { l with indents := l.place.column :: l.indents }
  else l

/-! ## Keys -/

def isStale (p : Cursor) (k : KeyPlace) : Bool := k.line != p.line || k.index + keyReach < p.index

/-- Forgets the places that can no longer become keys. -/
def dropStale (l : Lexer) : Except ReadFault Lexer :=
  if l.keys.any fun k => k.any fun k => k.required && isStale l.place k then .error .malformed
  else .ok { l with keys := l.keys.map fun k => k.filter fun k => !isStale l.place k }

/-- Forgets the place of this flow level. -/
def dropKey (l : Lexer) : Except ReadFault Lexer :=
  match l.keys with
  | some k :: outer => if k.required then .error .malformed else .ok { l with keys := none :: outer }
  | _ => .ok l

/-- A key may begin here, if one is allowed. -/
def markKey (l : Lexer) : Except ReadFault Lexer := do
  if !l.allowsKey then return l
  let l ← l.dropKey
  let p := l.place
  let k : KeyPlace :=
    { tokens := l.count
      required := !l.inFlow && l.indents.head? == some p.column
      index := p.index
      line := p.line
      column := p.column }
  return { l with keys := some k :: l.keys.drop 1 }

/-! ## Single tokens -/

/-- Skips spaces, comments and line ends; after a line end a key is allowed in blocks. -/
def toToken (left : Nat) (l : Lexer) : Lexer :=
  match left with
  | 0 => l
  | n + 1 =>
    let p := l.place.skipComment
    match p.lineEnd? with
    | some (_, q) => toToken n { l with place := q, allowsKey := l.allowsKey || !l.inFlow }
    | none => { l with place := p }

/-- Ends all block collections and forgets the key, before a mark of the document. -/
def closeBlocks (l : Lexer) : Except ReadFault Lexer := do
  let l ← (l.unwind fun _ => true).dropKey
  return { l with allowsKey := false }

def documentMark (t : Token) (l : Lexer) : Except ReadFault Lexer := do
  let l ← l.closeBlocks
  return push t { l with place := l.place.skip 3 }

def directiveLine (left : Nat) (l : Lexer) : Except ReadFault Lexer := do
  let l ← l.closeBlocks
  let (d, p) ← directive left l.place
  return push (.directive d) { l with place := p }

def openFlow (t : Token) (l : Lexer) : Except ReadFault Lexer := do
  let l ← l.markKey
  return push t { l with place := l.place.step, allowsKey := true, keys := none :: l.keys }

/-- Ends a flow collection; there must be one. -/
def closeFlow (t : Token) (l : Lexer) : Except ReadFault Lexer := do
  if !l.inFlow then throw .malformed
  let l ← l.dropKey
  return push t { l with place := l.place.step, allowsKey := false, keys := l.keys.drop 1 }

def flowComma (l : Lexer) : Except ReadFault Lexer := do
  let l ← l.dropKey
  return push .flowEntry { l with place := l.place.step, allowsKey := true }

def hyphen (l : Lexer) : Except ReadFault Lexer := do
  if !l.inFlow && !l.allowsKey then throw .malformed
  let l := if l.inFlow then l else l.openBlock .blockSequence
  let l ← l.dropKey
  return push .blockEntry { l with place := l.place.step, allowsKey := true }

def questionMark (l : Lexer) : Except ReadFault Lexer := do
  if !l.inFlow && !l.allowsKey then throw .malformed
  let l := if l.inFlow then l else l.openBlock .blockMapping
  let l ← l.dropKey
  return push .key { l with place := l.place.step, allowsKey := !l.inFlow }

/-- Puts the key token, and perhaps the start of a mapping, where the key began. -/
def insertKey (k : KeyPlace) (l : Lexer) : Lexer :=
  let later := l.tokens.take (l.count - k.tokens)
  let earlier := l.tokens.drop (l.count - k.tokens)
  if !l.inFlow && l.innerIndent ≤ k.column then
    { l with
      tokens := later ++ .key :: .blockMapping :: earlier
      count := l.count + 2
      indents := k.column :: l.indents }
  else { l with tokens := later ++ .key :: earlier, count := l.count + 1 }

def colon (l : Lexer) : Except ReadFault Lexer :=
  match l.keys with
  | some k :: outer =>
    let l := insertKey k { l with keys := none :: outer }
    .ok (push .value { l with place := l.place.step, allowsKey := false })
  | _ =>
    if !l.inFlow && !l.allowsKey then .error .malformed
    else
      let l := if l.inFlow then l else l.openBlock .blockMapping
      .ok (push .value { l with place := l.place.step, allowsKey := !l.inFlow })

/-- A token that may begin a key, read by `body` from here. -/
def nodeStart (body : Cursor → Except ReadFault (Token × Cursor)) (l : Lexer) :
    Except ReadFault Lexer := do
  let l ← l.markKey
  let (t, p) ← body l.place
  return push t { l with place := p, allowsKey := false }

def quotedScalar (double : Bool) (left : Nat) (p : Cursor) : Except ReadFault (Token × Cursor) := do
  let (cs, q) ← quotedText double left p
  return (.scalar false cs, q)

def blockScalar (fold : Bool) (left : Nat) (l : Lexer) : Except ReadFault Lexer := do
  let l ← l.dropKey
  let (cs, p) ← blockText fold l.innerIndent left l.place
  return push (.scalar false cs) { l with place := p, allowsKey := true }

def plainScalar (left : Nat) (l : Lexer) : Except ReadFault Lexer := do
  let l ← l.markKey
  let g := plainText l.inFlow l.innerIndent left ⟨[], false, l.place⟩
  return push (.scalar true g.text) { l with place := g.after, allowsKey := g.crossed }

/-- Characters that no plain scalar begins with, unless some character follows at once. -/
def leadingMarks : List Char := "-?:".toList

/-- A plain scalar begins with `c`, which `s` follows. -/
def startsPlain (flow : Bool) (c : Char) (s : List Char) : Bool :=
  if leadingMarks.contains c then !separated s && (c == '-' || !flow)
  else !(isSeparator c || leadingIndicators.contains c)

/-- The token that begins with `c`, which `s` follows. -/
def token (left : Nat) (c : Char) (s : List Char) (l : Lexer) : Except ReadFault Lexer :=
  let lineStart := l.place.column == 0
  if c == '%' && lineStart then l.directiveLine left
  else if c == '-' && lineStart && isDocumentMark (c :: s) then l.documentMark .documentStart
  else if c == '.' && lineStart && isDocumentMark (c :: s) then l.documentMark .documentEnd
  else if c == '[' then l.openFlow .flowSequence
  else if c == '\x7b' then l.openFlow .flowMapping
  else if c == ']' then l.closeFlow .flowSequenceEnd
  else if c == '\x7d' then l.closeFlow .flowMappingEnd
  else if c == ',' then l.flowComma
  else if c == '-' && separated s then l.hyphen
  else if c == '?' && (l.inFlow || separated s) then l.questionMark
  else if c == ':' && (l.inFlow || separated s) then l.colon
  else if c == '*' then
    l.nodeStart fun p => do
      let (name, q) ← anchorName p.step
      return (.alias name, q)
  else if c == '&' then
    l.nodeStart fun p => do
      let (name, q) ← anchorName p.step
      return (.anchor name, q)
  else if c == '!' then
    l.nodeStart fun p => do
      let (handle, suffix, q) ← tag left p
      return (.tag handle suffix, q)
  else if c == '|' && !l.inFlow then l.blockScalar false left
  else if c == '>' && !l.inFlow then l.blockScalar true left
  else if c == '\'' then l.nodeStart (quotedScalar false left)
  else if c == '"' then l.nodeStart (quotedScalar true left)
  else if startsPlain l.inFlow c s then l.plainScalar left
  else .error .malformed

/-! ## All tokens -/

/-- Moves to the next token and ends the collections that it ends. -/
def toNext (left : Nat) (l : Lexer) : Except ReadFault Lexer := do
  let l ← (l.toToken left).dropStale
  return l.unwind fun column => l.place.column < column

/-- The settled tokens, then a fault that comes before the next one. -/
def halted (f : ReadFault) (l : Lexer) : List Token :=
  let waiting := (l.keys.filterMap id).filter fun k => !isStale l.place k
  let settled := waiting.foldl (fun n k => min n k.tokens) l.count
  (l.tokens.drop (l.count - settled)).reverse ++ [.broken f]

/-- Goes on to the end of the text; `left` bounds the characters that are left. -/
def run (left : Nat) (l : Lexer) : List Token :=
  match left with
  | 0 => l.halted .malformed
  | n + 1 =>
    if mostOpen < l.keys.length then l.halted .tooDeep
    else
      match l.toNext n with
      | .error f => l.halted f
      | .ok m =>
        match m.place.rest with
        | [] =>
          match m.closeBlocks with
          | .ok m => m.tokens.reverse
          | .error f => l.halted f
        | c :: s =>
          match m.token n c s with
          | .ok m => run n m
          | .error f => l.halted f

end Lexer

/-- The tokens of a text. -/
def tokens (s : List Char) : List Token :=
  if s.all isAllowed then (Lexer.start s).run (s.length + 2) else [.broken .malformed]

/-! ## Texts in pieces -/

/-- The size of the pieces of a file. -/
def pieceSize : Nat := 4096

/-- The tokens of the text of a file. It is read in pieces, the first two together, and a
character that is not allowed counts only once its piece is read. -/
def fileTokens (s : List Char) : List Token :=
  if s.all isAllowed then tokens s
  else
    let allowed := Text.codes (s.takeWhile isAllowed)
    if allowed.length < 2 * pieceSize then [.broken .malformed]
    else
      let pieces := allowed.take (allowed.length - allowed.length % pieceSize)
      tokens (pieces.flatMap Text.charsOf) ++ [.broken .malformed]

end AppPipeline.Yaml
