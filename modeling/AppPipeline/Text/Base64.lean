/-!
# Bytes written with 64 characters

Four characters stand for three bytes. Characters outside the alphabet are
skipped; one or two equals signs end an incomplete group, and nothing counts
after that. Without them a group must be complete.
-/

namespace AppPipeline.Text

/-- The six bits of a character. -/
def sixBits? (c : Char) : Option Nat :=
  let n := c.toNat
  if 'A' ≤ c ∧ c ≤ 'Z' then some (n - 65)
  else if 'a' ≤ c ∧ c ≤ 'z' then some (n - 71)
  else if '0' ≤ c ∧ c ≤ '9' then some (n + 4)
  else if c = '+' then some 62
  else if c = '/' then some 63
  else none

/-- The byte that a character completes, if it is not the first of its group;
`place` is its place in the group and `bits` what the one before it left. -/
def groupByte (place bits six : Nat) : List Nat :=
  match place with
  | 0 => []
  | 1 => [bits * 4 + six / 16]
  | 2 => [bits * 16 + six / 4]
  | _ => [bits * 64 + six]

/-- The bits that a character leaves for the next one. -/
def groupRest (place six : Nat) : Nat :=
  match place with
  | 0 => six
  | 1 => six % 16
  | 2 => six % 4
  | _ => 0

/-- Reads on; `pads` equals signs were just seen. -/
def base64From (place bits pads : Nat) : List Char → Option (List Nat)
  | [] => if place = 0 then some [] else none
  | c :: s =>
    if c = '=' then
      if 2 ≤ place then
        if 4 ≤ place + pads + 1 then some [] else base64From place bits (pads + 1) s
      else base64From place bits pads s
    else
      match sixBits? c with
      | none => base64From place bits pads s
      | some six =>
        (base64From ((place + 1) % 4) (groupRest place six) 0 s).map (groupByte place bits six ++ ·)

/-- The bytes that a text stands for. -/
def base64? (s : List Char) : Option (List Nat) := base64From 0 0 0 s

end AppPipeline.Text
