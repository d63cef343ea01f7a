import AppPipeline.Raised
import AppPipeline.Text.Code
import AppPipeline.Text.Hex

/-!
# Halves of pairs

A half that stands alone in a text has no encoding.

* `HalfFault`: a run of halves in a text that has to be encoded, which is impossible;
* `withoutHalves`: the text with an escape for every half.
-/

namespace AppPipeline.Text

def hasHalf (s : String) : Bool := s.toList.any isHalf

/-- A run of halves in a text that has to be encoded. -/
structure HalfFault where
  /-- how many codes come before the run -/
  position : Nat
  /-- the code of the first half -/
  code : Nat
  count : Nat
  deriving DecidableEq, Repr

/-- The first run of halves among codes, if there is one. -/
def firstHalves? (ns : List Nat) : Option HalfFault :=
  let before := ns.takeWhile fun n => !isHalfCode n
  match ns.drop before.length with
  | [] => none
  | n :: rest => some ⟨before.length, n, (rest.takeWhile isHalfCode).length + 1⟩

def halfFault? (s : String) : Option HalfFault := firstHalves? (codes s.toList)

def halfEscape (code : Nat) : List Char := '\\' :: 'u' :: hexDigits 4 code

def HalfFault.message (f : HalfFault) : String :=
  "'utf-8' codec can't encode character"
    ++ (if f.count = 1 then
        " '" ++ String.ofList (halfEscape f.code) ++ "' in position " ++ toString f.position
      else "s in position " ++ toString f.position ++ "-" ++ toString (f.position + f.count - 1))
    ++ ": surrogates not allowed"

def HalfFault.raised (f : HalfFault) : Raised := ⟨"UnicodeEncodeError", f.message⟩

/-- Every half becomes a backslash and its code. -/
def withoutHalves (s : String) : String :=
  String.ofList (s.toList.flatMap fun c => if isHalf c then halfEscape (codeOf c) else [c])

end AppPipeline.Text
