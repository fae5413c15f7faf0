/-!
# Percent encoding

A character that may not stand for itself is written byte by byte as `%` and two hexadecimal
digits. The sets of such characters differ between the parts of an endpoint; control characters and
all characters beyond ASCII are in every one of them.
-/

namespace NodeRpc.Percent

/-- The upper-case hexadecimal digit of a number below sixteen. -/
def digit (n : Nat) : Char := if n < 10 then Char.ofNat (48 + n) else Char.ofNat (55 + n)

/-- The number that a hexadecimal digit stands for. -/
def digitValue? (c : Char) : Option Nat :=
  if '0' ≤ c ∧ c ≤ '9' then some (c.toNat - 48)
  else if 'a' ≤ c ∧ c ≤ 'f' then some (c.toNat - 87)
  else if 'A' ≤ c ∧ c ≤ 'F' then some (c.toNat - 55)
  else none

/-- A byte as `%` and two digits. -/
def byte (b : UInt8) : List Char := ['%', digit (b.toNat / 16), digit (b.toNat % 16)]

/-- Whether a character is written byte by byte wherever it stands. -/
def isBare (c : Char) : Bool := c.toNat < 32 || 126 < c.toNat

/-- The characters `cs`, with those in `escapes` and the bare ones written byte by byte. -/
def encode (escapes : List Char) (cs : List Char) : List Char :=
  cs.flatMap fun c =>
    if isBare c || escapes.contains c then c.toString.toUTF8.data.toList.flatMap byte else [c]

/-- The bytes that a text stands for; a `%` without two digits stands for itself. -/
def decode : List Char → List UInt8
  | [] => []
  | '%' :: a :: b :: rest =>
    match digitValue? a, digitValue? b with
    | some m, some n => UInt8.ofNat (16 * m + n) :: decode rest
    | _, _ => '%'.toString.toUTF8.data.toList ++ decode (a :: b :: rest)
  | c :: rest => c.toString.toUTF8.data.toList ++ decode rest

/-- What is escaped in a fragment. -/
def inFragment : List Char := [' ', '"', '<', '>', '\x60']

/-- What is escaped in a path. -/
def inPath : List Char := inFragment ++ ['#', '?', '\x7b', '\x7d']

/-- What is escaped in a user name or a password. -/
def inUser : List Char := inPath ++ ['/', ':', ';', '=', '@', '[', '\\', ']', '^', '|']

/-- What is escaped in a query. -/
def inQuery : List Char := [' ', '"', '#', '<', '>']

/-- What is escaped in a query of a scheme that names a network service. -/
def inServiceQuery : List Char := inQuery ++ ['\x27']

end NodeRpc.Percent
