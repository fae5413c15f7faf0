/-!
# Double precision numbers and their shortest decimals

A finite double is a sign and a value `m * 2 ^ q`. Its shortest decimal is the point of the
coarsest grid `10 ^ e` that still reads back as the same double: `shortest` looks through the grids
from coarse to fine, and on each grid only at the two neighbours of the value. All arithmetic is
exact, on natural numbers.
-/

namespace NodeRpc

/-- A double precision number, as its 64 bits. -/
structure Binary64 where
  bits : UInt64
  deriving DecidableEq

namespace Binary64

/-- The number that a machine double holds. -/
def ofFloat (x : Float) : Binary64 := ⟨x.toBits⟩

/-- The machine double with these bits. -/
def toFloat (x : Binary64) : Float := Float.ofBits x.bits

/-- Whether the sign bit is set, which it also is for negative zero. -/
def isNegative (x : Binary64) : Bool := x.bits.toNat ≥ Nat.pow 2 63

/-- The eleven bits of the exponent. -/
def exponentField (x : Binary64) : Nat := x.bits.toNat / Nat.pow 2 52 % Nat.pow 2 11

/-- The fifty-two bits of the fraction. -/
def fractionField (x : Binary64) : Nat := x.bits.toNat % Nat.pow 2 52

/-- The integer `m` of the magnitude `m * 2 ^ q`. -/
def mantissa (x : Binary64) : Nat :=
  if x.exponentField = 0 then x.fractionField else Nat.pow 2 52 + x.fractionField

/-- The exponent `q` of the magnitude `m * 2 ^ q`. -/
def scale (x : Binary64) : Int := (max x.exponentField 1 : Nat) - (1075 : Int)

/-- Whether the next double towards zero is only half as far away as the next one from zero. -/
def hasNarrowGap (x : Binary64) : Bool := x.fractionField = 0 && decide (1 < x.exponentField)

/-- The reals that round to a double, as numerators over one denominator. -/
structure Interval where
  low : Nat
  value : Nat
  high : Nat
  denominator : Nat
  closed : Bool

/-- The reals that round to the magnitude of `x`: up to half the gap on each side, the ends
included when the mantissa is even. -/
def interval (x : Binary64) : Interval :=
  let m := 4 * x.mantissa
  let q := x.scale - 2
  let up := Nat.pow 2 q.toNat
  { low := (m - if x.hasNarrowGap then 1 else 2) * up
    value := m * up
    high := (m + 2) * up
    denominator := Nat.pow 2 (-q).toNat
    closed := x.mantissa % 2 == 0 }

/-- Whether `n / d` lies in the interval. -/
def Interval.contains (i : Interval) (n d : Nat) : Bool :=
  let v := n * i.denominator
  if i.closed then decide (i.low * d ≤ v ∧ v ≤ i.high * d)
  else decide (i.low * d < v ∧ v < i.high * d)

/-- A decimal number `digits * 10 ^ exponent`. -/
structure Digits where
  digits : Nat
  exponent : Int
  deriving DecidableEq, Repr

/-- The multiple of `10 ^ e` nearest to the value, of those next to it that read back; on a tie the
even one. -/
def Interval.onGrid? (i : Interval) (e : Int) : Option Digits :=
  let p := Nat.pow 10 e.toNat
  let d := Nat.pow 10 (-e).toNat
  let below := i.value * d / (i.denominator * p)
  let above := below + 1
  let twice := 2 * i.value * d
  let middle := (below + above) * p * i.denominator
  let nearer := if twice < middle ∨ (twice = middle ∧ below % 2 = 0) then below else above
  let farther := if nearer = below then above else below
  if i.contains (nearer * p) d then some ⟨nearer, e⟩
  else if i.contains (farther * p) d then some ⟨farther, e⟩
  else none

/-- The first grid with a hit, from `10 ^ e` downwards. -/
def Interval.search (i : Interval) (e : Int) : Nat → Digits
  | 0 => ⟨0, 0⟩
  | fuel + 1 => (i.onGrid? e).getD (i.search (e - 1) fuel)

/-- The fewest digits that read back as the magnitude of `x`, and of these the nearest. -/
def shortest (x : Binary64) : Digits :=
  if x.mantissa = 0 then ⟨0, 0⟩
  else
    let i := x.interval
    let start := (Nat.toDigits 10 (i.value / i.denominator)).length
    i.search start (start + 345)

end Binary64

end NodeRpc
