import NodeRpc.Json.Basic

/-!
# Compact JSON text

`Json.compact` writes a value without blanks, the fields of an object in their order. A double is
written with the fewest digits that read back, positionally where the point falls within or near
its digits and with an exponent elsewhere, and always with a point or an exponent, so that it never
looks like an integer.
-/

namespace NodeRpc

namespace Decimal

/-- The decimal digits of a natural number. -/
def ofNat (n : Nat) : List Char := Nat.toDigits 10 n

/-- The decimal digits of an integer, after its sign. -/
def ofInt : Int → List Char
  | .ofNat n => ofNat n
  | .negSucc n => '-' :: ofNat (n + 1)

end Decimal

namespace Binary64

/-- The largest number of digits before the point that are written positionally. -/
def widestWhole : Int := 16

/-- The largest number of zeros between the point and the first digit that are written out. -/
def mostLeadingZeros : Int := 4

/-- An exponent, with a sign in either case. -/
def exponentChars (e : Int) : List Char := 'e' :: (if 0 ≤ e then ['+'] else []) ++ Decimal.ofInt e

/-- The magnitude `digits * 10 ^ exponent` as text. -/
def magnitudeChars (x : Digits) : List Char :=
  let digits := Decimal.ofNat x.digits
  let point := digits.length + x.exponent
  if 0 ≤ x.exponent ∧ point ≤ widestWhole then
    digits ++ List.replicate x.exponent.toNat '0' ++ ['.', '0']
  else if 0 < point ∧ point ≤ widestWhole then
    digits.take point.toNat ++ '.' :: digits.drop point.toNat
  else if -mostLeadingZeros ≤ point ∧ point ≤ 0 then
    '0' :: '.' :: (List.replicate (-point).toNat '0' ++ digits)
  else
    let mark := exponentChars (point - 1)
    match digits with
    | [d] => d :: mark
    | d :: rest => d :: '.' :: (rest ++ mark)
    | [] => mark

/-- The number as text, a minus sign in front of negative numbers and of negative zero. -/
def chars (x : Binary64) : List Char :=
  (if x.isNegative then ['-'] else []) ++ magnitudeChars x.shortest

end Binary64

namespace Json

/-- The hexadecimal digit of a number below sixteen. -/
def hexDigit (n : Nat) : Char :=
  if n < 10 then Char.ofNat (48 + n) else Char.ofNat (87 + n)

/-- A character inside a quoted text. -/
def escaped (c : Char) : List Char :=
  if c = '"' then ['\\', '"']
  else if c = '\\' then ['\\', '\\']
  else if c = '\x08' then ['\\', 'b']
  else if c = '\t' then ['\\', 't']
  else if c = '\n' then ['\\', 'n']
  else if c = '\x0c' then ['\\', 'f']
  else if c = '\r' then ['\\', 'r']
  else if c.toNat < 32 then
    ['\\', 'u', '0', '0', hexDigit (c.toNat / 16), hexDigit (c.toNat % 16)]
  else [c]

/-- A text in quotes. -/
def quoted (s : String) : List Char := '"' :: (s.toList.flatMap escaped ++ ['"'])

mutual

/-- The compact text of a value. -/
def chars : Json → List Char
  | .null => ['n', 'u', 'l', 'l']
  | .bool true => ['t', 'r', 'u', 'e']
  | .bool false => ['f', 'a', 'l', 's', 'e']
  | .int n => Decimal.ofInt n
  | .float x => x.chars
  | .str s => quoted s
  | .arr items => '[' :: (itemChars items ++ [']'])
  | .obj fields => '\x7b' :: (fieldChars fields ++ ['\x7d'])

/-- The items of an array, separated by commas. -/
def itemChars : List Json → List Char
  | [] => []
  | [v] => chars v
  | v :: vs => chars v ++ ',' :: itemChars vs

/-- The fields of an object, separated by commas. -/
def fieldChars : List (String × Json) → List Char
  | [] => []
  | [(k, v)] => quoted k ++ ':' :: chars v
  | (k, v) :: vs => quoted k ++ ':' :: (chars v ++ ',' :: fieldChars vs)

end

/-- The value as compact text. -/
def compact (v : Json) : String := String.ofList v.chars

end Json

end NodeRpc
