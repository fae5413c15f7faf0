import NodeRpc.Json.Basic

/-!
# Reading numbers

A number literal is split into sign, digits before and after the point, and exponent. An integer
literal that fits 64 bits stays an integer. Any other literal becomes a double: as many leading
digits as fit 64 bits are kept, and the kept integer is scaled by a power of ten in double
arithmetic. A literal too large for a double is no number at all.
-/

namespace NodeRpc.Json

/-- A number literal, its digits as their values. -/
structure Literal where
  negative : Bool
  whole : List Nat
  fraction : Option (List Nat)
  exponent : Option Int

namespace Literal

/-- The value of a digit. -/
def digit? (c : Char) : Option Nat :=
  if '0' ≤ c ∧ c ≤ '9' then some (c.toNat - '0'.toNat) else none

/-- The leading digits of a text, and the rest. -/
def digits : List Char → List Nat × List Char
  | [] => ([], [])
  | c :: cs =>
    match digit? c with
    | some d => let (ds, rest) := digits cs; (d :: ds, rest)
    | none => ([], c :: cs)

/-- The natural number with these decimal digits. -/
def value (ds : List Nat) : Nat := ds.foldl (fun n d => 10 * n + d) 0

/-- The digits before the point: a single zero, or no zero in front. -/
def readWhole (cs : List Char) : Option (List Nat × List Char) :=
  match digits cs with
  | ([], _) => none
  | (0 :: _ :: _, _) => none
  | (ds, rest) => some (ds, rest)

/-- A point and at least one digit, if there is a point. -/
def readFraction : List Char → Option (Option (List Nat) × List Char)
  | '.' :: cs =>
    match digits cs with
    | ([], _) => none
    | (ds, rest) => some (some ds, rest)
  | cs => some (none, cs)

/-- The mark of an exponent, its sign and at least one digit, if there is a mark. -/
def readExponent : List Char → Option (Option Int × List Char)
  | c :: cs =>
    if c = 'e' ∨ c = 'E' then
      let (negative, cs) :=
        match cs with
        | '+' :: cs => (false, cs)
        | '-' :: cs => (true, cs)
        | cs => (false, cs)
      match digits cs with
      | ([], _) => none
      | (ds, rest) => some (some (if negative then -(value ds : Int) else value ds), rest)
    else some (none, c :: cs)
  | [] => some (none, [])

/-- The literal that the whole text is. -/
def ofChars? (cs : List Char) : Option Literal := do
  let (negative, cs) := match cs with
    | '-' :: cs => (true, cs)
    | cs => (false, cs)
  let (whole, cs) ← readWhole cs
  let (fraction, cs) ← readFraction cs
  let (exponent, cs) ← readExponent cs
  if cs.isEmpty then some ⟨negative, whole, fraction, exponent⟩ else none

/-- Kept digits as an integer, the power of ten it is to be scaled by, and whether a digit was
dropped because the integer would not have fitted 64 bits. -/
structure Kept where
  significand : Nat
  exponent : Int
  full : Bool

/-- Keeps the next digit if it fits; `shift` is what a kept digit and `drop` what a dropped digit
adds to the exponent. -/
def Kept.next (shift drop : Int) (k : Kept) (d : Nat) : Kept :=
  let n := 10 * k.significand + d
  if k.full ∨ Nat.pow 2 64 ≤ n then { k with exponent := k.exponent + drop, full := true }
  else { k with significand := n, exponent := k.exponent + shift }

/-- The kept digits of a literal. A dropped digit before the point multiplies by ten, a kept digit
behind it divides by ten. -/
def kept (l : Literal) : Kept :=
  let whole := l.whole.foldl (Kept.next 0 1) ⟨0, 0, false⟩
  let all := (l.fraction.getD []).foldl (Kept.next (-1) 0) { whole with full := false }
  { all with exponent := all.exponent + l.exponent.getD 0 }

/-- The largest power of ten used in one scaling. -/
def widestPower : Int := 308

/-- `x * 10 ^ e` in double arithmetic; nothing when it is too large. -/
def scaled (x : Float) (e : Int) : Nat → Option Float
  | 0 => some 0
  | steps + 1 =>
    if e < -widestPower then
      if x == 0 then some x else scaled (x / Float.ofScientific 1 false 308) (e + widestPower) steps
    else if e < 0 then some (x / Float.ofScientific 1 false (-e).toNat)
    else if e ≤ widestPower then
      let y := x * Float.ofScientific 1 false e.toNat
      if y.isInf then none else some y
    else if x == 0 then some x else none

/-- The double that a literal is read as. -/
def float? (l : Literal) : Option Binary64 :=
  let k := l.kept
  (scaled k.significand.toUInt64.toFloat k.exponent 4).map fun x =>
    Binary64.ofFloat (if l.negative then -x else x)

/-- The value that a literal is read as. -/
def json? (l : Literal) : Option Json :=
  let n := value l.whole
  match l.fraction, l.exponent with
  | none, none =>
    if ¬l.negative ∧ n < Nat.pow 2 64 then some (.int n)
    else if l.negative ∧ 0 < n ∧ n ≤ Nat.pow 2 63 then some (.int (-n))
    else l.float?.map .float
  | _, _ => l.float?.map .float

end Literal

/-- The number that a text is. -/
def number? (cs : List Char) : Option Json := (Literal.ofChars? cs).bind Literal.json?

end NodeRpc.Json
