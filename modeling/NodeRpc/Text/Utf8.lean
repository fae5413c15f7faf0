/-!
# Reading bytes as text

`Utf8.read` reads bytes as UTF-8, character by character. Where the bytes cannot be continued to a
character, those that began one are a bad sequence, and reading goes on behind them. A strict reader
refuses bad sequences; a lenient one puts a replacement character in place of each.
-/

namespace NodeRpc.Utf8

/-- What the first byte of a character announces: its own bits, how many bytes follow, and the
least and greatest value of the first of those. -/
structure Lead where
  bits : Nat
  following : Nat
  least : Nat := 0x80
  greatest : Nat := 0xBF
  deriving DecidableEq

/-- The announcement of a byte, if it may begin a character. -/
def Lead.ofByte? (b : Nat) : Option Lead :=
  if b < 0x80 then some { bits := b, following := 0 }
  else if b < 0xC2 then none
  else if b < 0xE0 then some { bits := b - 0xC0, following := 1 }
  else if b = 0xE0 then some { bits := 0, following := 2, least := 0xA0 }
  else if b = 0xED then some { bits := 0xD, following := 2, greatest := 0x9F }
  else if b < 0xF0 then some { bits := b - 0xE0, following := 2 }
  else if b = 0xF0 then some { bits := 0, following := 3, least := 0x90 }
  else if b < 0xF4 then some { bits := b - 0xF0, following := 3 }
  else if b = 0xF4 then some { bits := 4, following := 3, greatest := 0x8F }
  else none

/-- The code point that an announcement and the bytes behind it make, and the rest. -/
def finish (lead : Lead) : List Nat → Option Nat × List Nat
  | [] => (if lead.following = 0 then some lead.bits else none, [])
  | b :: bytes =>
    if lead.following = 0 then (some lead.bits, b :: bytes)
    else if lead.least ≤ b ∧ b ≤ lead.greatest then
      finish { bits := lead.bits * 64 + (b - 0x80), following := lead.following - 1 } bytes
    else (none, b :: bytes)

theorem length_finish (lead : Lead) (bytes : List Nat) :
    (finish lead bytes).2.length ≤ bytes.length := by
  induction bytes generalizing lead with
  | nil => simp [finish]
  | cons b bytes ih =>
    simp only [finish]
    split
    · simp
    · split
      · exact Nat.le_succ_of_le (ih _)
      · simp

/-- The characters that the bytes are, and nothing for each bad sequence. -/
def read : List Nat → List (Option Char)
  | [] => []
  | b :: bytes =>
    match Lead.ofByte? b with
    | none => none :: read bytes
    | some lead => (finish lead bytes).1.map Char.ofNat :: read (finish lead bytes).2
termination_by bytes => bytes.length
decreasing_by
  · simp
  · exact Nat.lt_succ_of_le (length_finish lead bytes)

/-- The text, if there is no bad sequence. -/
def text? (bytes : List Nat) : Option String := ((read bytes).mapM id).map String.ofList

/-- The text, with U+FFFD for each bad sequence. -/
def lenient (bytes : List Nat) : String :=
  String.ofList ((read bytes).map fun c => c.getD '\uFFFD')

end NodeRpc.Utf8
