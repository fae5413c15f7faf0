/-!
# Punycode

A label with characters beyond ASCII is written in ASCII: its ASCII characters first, then the
others as differences between insertions, in the order of their code points. The differences are
written in base 36 with thresholds that adapt to the differences already written.
-/

namespace NodeRpc.Punycode

/-- The letter or figure of a number below 36. -/
def digit (n : Nat) : Char := if n < 26 then Char.ofNat (97 + n) else Char.ofNat (22 + n)

/-- The threshold at position `k`. -/
def threshold (k bias : Nat) : Nat := max 1 (min 26 (k - bias))

/-- Scales a difference down; at most `fuel` times, which bounds its logarithm. -/
def scaleDown : Nat → Nat → Nat → Nat × Nat
  | 0, delta, k => (delta, k)
  | fuel + 1, delta, k => if 455 < delta then scaleDown fuel (delta / 35) (k + 36) else (delta, k)

/-- The bias after a difference, with `points` characters written. -/
def adapt (delta points : Nat) (first : Bool) : Nat :=
  let scaled := if first then delta / 700 else delta / 2
  let scaled := scaled + scaled / points
  let (delta, k) := scaleDown scaled scaled 0
  k + 36 * delta / (delta + 38)

/-- The digits of a difference from position `k` on; `fuel` bounds their number. -/
def digits (bias : Nat) : Nat → Nat → Nat → List Char
  | 0, _, _ => []
  | fuel + 1, k, q =>
    let t := threshold k bias
    if q < t then [digit q]
    else digit (t + (q - t) % (36 - t)) :: digits bias fuel (k + 36) ((q - t) / (36 - t))

/-- What has been written, and what the next difference depends on. -/
structure State where
  written : List Char
  delta : Nat
  bias : Nat
  points : Nat

/-- Takes character `c` of the label in the round that inserts the characters `m`. -/
def visit (basic m : Nat) (s : State) (c : Char) : State :=
  if c.toNat < m then { s with delta := s.delta + 1 }
  else if c.toNat = m then
    { written := s.written ++ digits s.bias (s.delta + 1) 36 s.delta
      delta := 0
      bias := adapt s.delta (s.points + 1) (s.points == basic)
      points := s.points + 1 }
  else s

/-- One round for each code point beyond ASCII, in ascending order; `n` is the least that may
still come. -/
def rounds (label : List Char) (basic : Nat) : List Nat → Nat → State → State
  | [], _, s => s
  | m :: ms, n, s =>
    let s := { s with delta := s.delta + (m - n) * (s.points + 1) }
    let s := label.foldl (visit basic m) s
    rounds label basic ms (m + 1) { s with delta := s.delta + 1 }

/-- A label in ASCII, without the mark that says so. -/
def encode (label : List Char) : List Char :=
  let basic := label.filter fun c => c.toNat < 128
  let others := (label.filter fun c => 128 ≤ c.toNat).map Char.toNat
  let ordered := (others.mergeSort fun a b => decide (a ≤ b)).eraseReps
  let s := rounds label basic.length ordered 128 ⟨[], 0, 72, basic.length⟩
  (if basic.isEmpty then [] else basic ++ ['-']) ++ s.written

end NodeRpc.Punycode
