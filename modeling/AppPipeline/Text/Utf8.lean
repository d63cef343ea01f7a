import AppPipeline.Text.Code

/-!
# Reading UTF-8

`decodeLossy` reads bytes as UTF-8. Where no code can be read, the longest
start of one, or else a single byte, is replaced by U+FFFD. `decode?` reads
only what codes are encoded by.
-/

namespace AppPipeline.Text

/-- For a first byte: the number of further bytes, the range of the second one
and the bits that the first one carries. -/
def leadByte (b : Nat) : Option (Nat × Nat × Nat × Nat) :=
  if b < 0x80 then some (0, 0x80, 0xBF, b)
  else if b < 0xC2 then none
  else if b < 0xE0 then some (1, 0x80, 0xBF, b - 0xC0)
  else if b = 0xE0 then some (2, 0xA0, 0xBF, 0)
  else if b = 0xED then some (2, 0x80, 0x9F, 0xD)
  else if b < 0xF0 then some (2, 0x80, 0xBF, b - 0xE0)
  else if b = 0xF0 then some (3, 0x90, 0xBF, 0)
  else if b < 0xF4 then some (3, 0x80, 0xBF, b - 0xF0)
  else if b = 0xF4 then some (3, 0x80, 0x8F, 4)
  else none

/-- Takes up to `more` continuation bytes, the next one in the range `lo` to
`hi`; answers the bits, how many bytes are missing and the rest. -/
def continuation (more lo hi bits : Nat) : List Nat → Nat × Nat × List Nat
  | [] => (bits, more, [])
  | b :: rest =>
    match more with
    | 0 => (bits, 0, b :: rest)
    | n + 1 =>
      if lo ≤ b && b ≤ hi then continuation n 0x80 0xBF (bits * 64 + (b - 0x80)) rest
      else (bits, n + 1, b :: rest)

theorem length_continuation_le (more lo hi bits : Nat) (bs : List Nat) :
    (continuation more lo hi bits bs).2.2.length ≤ bs.length := by
  induction bs generalizing more lo hi bits with
  | nil => simp [continuation]
  | cons b rest ih =>
    cases more with
    | zero => simp [continuation]
    | succ n =>
      simp only [continuation]
      split
      · exact Nat.le_succ_of_le (ih ..)
      · simp

/-- The code that stands for bytes which encode nothing. -/
def replacement : Nat := 0xFFFD

def decodeLossy : List Nat → List Nat
  | [] => []
  | b :: rest =>
    match leadByte b with
    | none => replacement :: decodeLossy rest
    | some (more, lo, hi, bits) =>
      let read := continuation more lo hi bits rest
      (if read.2.1 = 0 then read.1 else replacement) :: decodeLossy read.2.2
  termination_by bs => bs.length
  decreasing_by
    · exact Nat.lt_succ_self _
    · exact Nat.lt_succ_of_le (length_continuation_le ..)

/-- The bytes of codes of characters. -/
def encode (ns : List Nat) : List Nat :=
  ns.flatMap fun n => (String.utf8EncodeChar (Char.ofNat n)).map UInt8.toNat

/-- The codes that the bytes encode, if they encode any. -/
def decode? (bs : List Nat) : Option (List Nat) :=
  let ns := decodeLossy bs
  if encode ns = bs then some ns else none

end AppPipeline.Text
