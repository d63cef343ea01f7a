import AppPipeline.Text.Code
import AppPipeline.Text.Hex
import AppPipeline.Text.Printable

/-!
# Quoted texts

A text is shown between single quotes, or between double quotes when it
holds a single quote and no double one. The backslash, the quote in use, tab,
line feed and carriage return are escaped by a backslash; any other character
that is not printable is escaped by its code in two, four or eight lower-case
hexadecimal digits.
-/

namespace AppPipeline.Text

/-! ## Quoting -/

/-- The quote that surrounds a text. -/
def quoteMark (s : List Char) : Char :=
  if s.contains '\'' && !s.contains '"' then '"' else '\''

/-- The escape of a code by its number. -/
def numberEscape (n : Nat) : List Char :=
  if n < 0x100 then '\\' :: 'x' :: hexDigits 2 n
  else if n < 0x10000 then '\\' :: 'u' :: hexDigits 4 n
  else '\\' :: 'U' :: hexDigits 8 n

/-- A code between quotes; no half is printable, nor is a private character. -/
def quotedCode (mark : Char) (n : Nat) : List Char :=
  let c := Char.ofNat n
  if c = '\\' || c = mark then ['\\', c]
  else if c = '\t' then ['\\', 't']
  else if c = '\n' then ['\\', 'n']
  else if c = '\r' then ['\\', 'r']
  else if isPrintable c then [c]
  else numberEscape n

def quoted (s : String) : String :=
  let mark := quoteMark s.toList
  String.ofList (mark :: (codes s.toList).flatMap (quotedCode mark) ++ [mark])

end AppPipeline.Text
