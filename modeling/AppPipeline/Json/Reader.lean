import AppPipeline.Json.Basic
import AppPipeline.Number.Literal
import AppPipeline.Text.Code
import AppPipeline.Text.Hex

/-!
# Reading JSON text

The reader works on lists of characters; each part answers what it read and
the rest of the text, and a fault carries the rest from which its place in
the text is counted. Besides standard JSON it accepts the numbers `NaN`,
`Infinity` and `-Infinity`. Of two fields with one key the last value counts.
Lists and objects may be nested as deep as `deepest` says.
-/

namespace AppPipeline.Json

/-! ## Faults -/

inductive SyntaxCause where
  | byteOrderMark
  | noValue
  | noName
  | noColon
  | noComma
  | extraData
  | openString
  | controlCharacter
  | badEscape
  | badCode
  deriving DecidableEq, Repr

def SyntaxCause.message : SyntaxCause → String
  | .byteOrderMark => "Unexpected UTF-8 BOM (decode using utf-8-sig)"
  | .noValue => "Expecting value"
  | .noName => "Expecting property name enclosed in double quotes"
  | .noColon => "Expecting ':' delimiter"
  | .noComma => "Expecting ',' delimiter"
  | .extraData => "Extra data"
  | .openString => "Unterminated string starting at"
  | .controlCharacter => "Invalid control character at"
  | .badEscape => "Invalid \\escape"
  | .badCode => "Invalid \\uXXXX escape"

/-- A fault of a text: lines and columns count from one, offsets from zero. -/
structure SyntaxFault where
  cause : SyntaxCause
  line : Nat
  column : Nat
  offset : Nat
  deriving DecidableEq, Repr

def SyntaxFault.message (f : SyntaxFault) : String :=
  f.cause.message ++ ": line " ++ toString f.line ++ " column " ++ toString f.column
    ++ " (char " ++ toString f.offset ++ ")"

/-- The fault of `text` where only `rest` is left. -/
def SyntaxFault.locate (cause : SyntaxCause) (text rest : List Char) : SyntaxFault :=
  let before := Text.codes (text.take (text.length - rest.length))
  { cause := cause
    line := before.count 0x0A + 1
    column := (before.reverse.takeWhile (· != 0x0A)).length + 1
    offset := before.length }

/-- Why a text is not read. -/
inductive ReadFault where
  | malformed (fault : SyntaxFault)
  | number (fault : Literal.Fault)
  | tooDeep
  deriving DecidableEq, Repr

def ReadFault.message : ReadFault → String
  | .malformed f => f.message
  | .number f => f.message
  | .tooDeep => "nested too deeply"

/-- Where reading ends; a syntax fault comes with the rest of the text where it was found. -/
inductive Halt where
  | malformed (cause : SyntaxCause) (rest : List Char)
  | number (fault : Literal.Fault)
  | tooDeep

def Halt.fault (text : List Char) : Halt → ReadFault
  | .malformed cause rest => .malformed (.locate cause text rest)
  | .number f => .number f
  | .tooDeep => .tooDeep

/-- The most lists and objects around a value. -/
def deepest : Nat := 975

/-! ## Blanks and numbers -/

def isGap (c : Char) : Bool := c == ' ' || c == '\t' || c == '\n' || c == '\r'

def skipGaps (s : List Char) : List Char := s.dropWhile isGap

def digitsValue (ds : List Char) : Nat := ds.foldl (fun n c => n * 10 + (c.toNat - 48)) 0

/-- The digits of a whole part: a single zero, or digits that start with none. -/
def wholeDigits : List Char → List Char × List Char
  | '0' :: rest => (['0'], rest)
  | s => s.span Char.isDigit

def fractionDigits : List Char → List Char × List Char
  | '.' :: rest =>
    let (ds, after) := rest.span Char.isDigit
    if ds.isEmpty then ([], '.' :: rest) else (ds, after)
  | s => ([], s)

/-- The exponent, if a whole one stands here. -/
def exponentPart (s : List Char) : Option Int × List Char :=
  match s with
  | e :: rest =>
    if e = 'e' ∨ e = 'E' then
      let (negative, unsigned) :=
        match rest with
        | '-' :: r => (true, r)
        | '+' :: r => (false, r)
        | r => (false, r)
      let (ds, after) := unsigned.span Char.isDigit
      let n : Int := digitsValue ds
      if ds.isEmpty then (none, s) else (some (Literal.signed negative n), after)
    else (none, s)
  | [] => (none, s)

/-- A number without its sign, which stands in front of `s`; `start` is the rest at the sign. -/
def unsignedNumber (start : List Char) (negative : Bool) (s : List Char) :
    Except Halt (Json × List Char) :=
  let (whole, afterWhole) := wholeDigits s
  if whole.isEmpty then .error (.malformed .noValue start)
  else
    let (fraction, afterFraction) := fractionDigits afterWhole
    let (exponent, rest) := exponentPart afterFraction
    if fraction.isEmpty && exponent.isNone then
      if Literal.digitLimit < whole.length then .error (.number (.tooLong whole.length))
      else .ok (.int (Literal.signed negative (digitsValue whole)), rest)
    else
      let digits := digitsValue (whole ++ fraction)
      .ok (.float (Double.ofDecimal negative digits (exponent.getD 0 - fraction.length)), rest)

/-- The rest after a word. -/
def afterWord? : List Char → List Char → Option (List Char)
  | [], s => some s
  | c :: word, d :: s => if c = d then afterWord? word s else none
  | _ :: _, [] => none

/-- A value that is a word. -/
def word? (s : List Char) : Option (Json × List Char) :=
  match s with
  | 'n' :: r => (afterWord? "ull".toList r).map (Json.null, ·)
  | 't' :: r => (afterWord? "rue".toList r).map (Json.bool true, ·)
  | 'f' :: r => (afterWord? "alse".toList r).map (Json.bool false, ·)
  | 'N' :: r => (afterWord? "aN".toList r).map (Json.float .nan, ·)
  | 'I' :: r => (afterWord? "nfinity".toList r).map (Json.float (.infinite false), ·)
  | '-' :: r => (afterWord? "Infinity".toList r).map (Json.float (.infinite true), ·)
  | _ => none

/-- A value that is neither a text nor a container. -/
def atom (s : List Char) : Except Halt (Json × List Char) :=
  match word? s with
  | some r => .ok r
  | none =>
    match s with
    | '-' :: r => unsignedNumber s true r
    | r => unsignedNumber s false r

/-! ## Texts -/

/-- Four hexadecimal digits with some character after them. -/
def hexCode? : List Char → Option (Nat × List Char)
  | a :: b :: c :: d :: e :: rest => do
    let n ← Text.hexNumber? 0 [a, b, c, d]
    some (n, e :: rest)
  | _ => none

def simpleEscape? : Char → Option Char
  | '"' => some '"'
  | '\\' => some '\\'
  | '/' => some '/'
  | 'b' => some '\x08'
  | 'f' => some '\x0c'
  | 'n' => some '\n'
  | 'r' => some '\r'
  | 't' => some '\t'
  | _ => none

/-- Two code units of sixteen bits that make one code. -/
def pairCode? (high low : Nat) : Option Nat :=
  if 0xD800 ≤ high ∧ high ≤ 0xDBFF ∧ 0xDC00 ≤ low ∧ low ≤ 0xDFFF then
    some (0x10000 + (high - 0xD800) * 0x400 + (low - 0xDC00))
  else none

/-- The code of an escape, whose digits start `s`; a pair of escapes makes one code. -/
def escapedCode? (s : List Char) : Option (Nat × List Char) :=
  match hexCode? s with
  | none => none
  | some (high, rest) =>
    match rest with
    | '\\' :: 'u' :: more =>
      match hexCode? more with
      | some (low, after) =>
        match pairCode? high low with
        | some n => some (n, after)
        | none => some (high, rest)
      | none => some (high, rest)
    | _ => some (high, rest)

/-- The characters up to the closing quote; `start` is the rest at the opening one
and `left` bounds the number of characters. -/
def textBody (start : List Char) (left : Nat) (s : List Char) : Except Halt (List Char × List Char) :=
  match left with
  | 0 => .error (.malformed .openString start)
  | n + 1 =>
    match s with
    | [] => .error (.malformed .openString start)
    | '"' :: rest => .ok ([], rest)
    | '\\' :: rest =>
      match rest with
      | [] => .error (.malformed .openString start)
      | 'u' :: more =>
        match escapedCode? more with
        | none => .error (.malformed .badCode rest)
        | some (code, after) => do
          let (cs, rest') ← textBody start n after
          return (Text.charsOf code ++ cs, rest')
      | e :: more =>
        match simpleEscape? e with
        | none => .error (.malformed .badEscape s)
        | some c => do
          let (cs, rest') ← textBody start n more
          return (c :: cs, rest')
    | c :: rest =>
      if c.toNat < 0x20 then .error (.malformed .controlCharacter s)
      else do
        let (cs, rest') ← textBody start n rest
        return (c :: cs, rest')

/-- A text whose opening quote is the first character; `left` bounds its length. -/
def quotedText (left : Nat) (s : List Char) : Except Halt (String × List Char) := do
  let (cs, rest) ← textBody s left (s.drop 1)
  return (String.ofList cs, rest)

/-! ## Values -/

mutual

/-- A value at the very start of the text; `level` bounds the nesting and `left` the lengths. -/
def parseValue (level left : Nat) (s : List Char) : Except Halt (Json × List Char) :=
  match left with
  | 0 => .error (.malformed .noValue s)
  | n + 1 =>
    match s with
    | '"' :: _ => do
      let (t, rest) ← quotedText n s
      return (.str t, rest)
    | '[' :: rest =>
      if level = 0 then .error .tooDeep
      else
        match skipGaps rest with
        | ']' :: after => .ok (.list [], after)
        | body => do
          let (items, after) ← parseItems (level - 1) n body
          return (.list items, after)
    | '\x7b' :: rest =>
      if level = 0 then .error .tooDeep
      else
        match skipGaps rest with
        | '\x7d' :: after => .ok (.object [], after)
        | body => do
          let (fields, after) ← parseFields (level - 1) n body
          return (.object (collect fields), after)
    | _ => atom s

/-- The items of a list up to its end. -/
def parseItems (level left : Nat) (s : List Char) : Except Halt (List Json × List Char) :=
  match left with
  | 0 => .error (.malformed .noValue s)
  | n + 1 => do
    let (item, rest) ← parseValue level n s
    match skipGaps rest with
    | ']' :: after => return ([item], after)
    | ',' :: after => do
      let (items, rest') ← parseItems level n (skipGaps after)
      return (item :: items, rest')
    | other => .error (.malformed .noComma other)

/-- The fields of an object up to its end. -/
def parseFields (level left : Nat) (s : List Char) :
    Except Halt (List (String × Json) × List Char) :=
  match left with
  | 0 => .error (.malformed .noName s)
  | n + 1 =>
    match s with
    | '"' :: _ => do
      let (key, rest) ← quotedText n s
      match skipGaps rest with
      | ':' :: after => do
        let (value, rest') ← parseValue level n (skipGaps after)
        match skipGaps rest' with
        | '\x7d' :: after' => return ([(key, value)], after')
        | ',' :: after' => do
          let (fields, rest'') ← parseFields level n (skipGaps after')
          return ((key, value) :: fields, rest'')
        | other => .error (.malformed .noComma other)
      | other => .error (.malformed .noColon other)
    | _ => .error (.malformed .noName s)

end

/-- One value with blanks around it and nothing else. -/
def parseDocument (s : List Char) : Except Halt Json :=
  if s.head? = some (Char.ofNat 0xFEFF) then .error (.malformed .byteOrderMark s)
  else do
    let (j, rest) ← parseValue deepest (2 * s.length + 2) (skipGaps s)
    match skipGaps rest with
    | [] => return j
    | other => .error (.malformed .extraData other)

/-- Reads a JSON text. -/
def parse (text : String) : Except ReadFault Json :=
  match parseDocument text.toList with
  | .ok j => .ok j
  | .error halt => .error (halt.fault text.toList)

end AppPipeline.Json
