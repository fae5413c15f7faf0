import Mathlib.Order.Monotone.Basic
import Mathlib.Tactic.Ring
import NodeRpc.Decimal.Binary64

/-!
# Which decimals read back as a double

Without its sign a double is told by its other bits, its rank, and greater magnitudes have greater
ranks. The reals that round to a magnitude begin where those of the rank below it end
(`bottom_succ`), and of two neighbours only one has the point between them. So a decimal reads back
as one magnitude at most (`Inside.unique`).

All ends are multiples of a quarter of the smallest magnitude, and are counted in it.
-/

namespace NodeRpc.Binary64

/-- The bits of a double without the sign. -/
def rank (x : Binary64) : Nat := x.bits.toNat % 2 ^ 63

/-- Sign and rank tell a double. -/
theorem eq_of_rank {x y : Binary64} (hsign : x.isNegative = y.isNegative) (hrank : x.rank = y.rank) :
    x = y := by
  have hx := x.bits.toNat_lt
  have hy := y.bits.toNat_lt
  have hbits : x.bits.toNat = y.bits.toNat := by
    simp only [isNegative, Nat.pow_eq, ge_iff_le, decide_eq_decide] at hsign
    unfold rank at hrank
    omega
  cases x
  cases y
  exact congrArg Binary64.mk (UInt64.toNat_inj.1 hbits)

/-! ### The ends of the intervals, by rank -/

/-- The mantissa of the magnitude of rank `n`. -/
def mantissaAt (n : Nat) : Nat := if n / 2 ^ 52 = 0 then n % 2 ^ 52 else 2 ^ 52 + n % 2 ^ 52

/-- How often the gaps have doubled up to rank `n`. -/
def doublings (n : Nat) : Nat := max (n / 2 ^ 52) 1 - 1

/-- Where the reals that round to the magnitude of rank `n` end. -/
def top (n : Nat) : Nat := (4 * mantissaAt n + 2) * 2 ^ doublings n

/-- Where they begin: half a gap below, and half as much where the gap is narrow. -/
def bottom (n : Nat) : Nat :=
  (4 * mantissaAt n - if n % 2 ^ 52 = 0 ∧ 1 < n / 2 ^ 52 then 1 else 2) * 2 ^ doublings n

theorem bottom_lt_top (n : Nat) : bottom n < top n := by
  refine Nat.mul_lt_mul_of_pos_right ?_ (Nat.two_pow_pos _)
  split <;> omega

/-- The reals of one rank begin where those of the rank below it end. -/
theorem bottom_succ (n : Nat) : bottom (n + 1) = top n := by
  by_cases hlast : n % 2 ^ 52 + 1 = 2 ^ 52
  · have hdiv : (n + 1) / 2 ^ 52 = n / 2 ^ 52 + 1 := by omega
    have hmod : (n + 1) % 2 ^ 52 = 0 := by omega
    have hmantissa : mantissaAt (n + 1) = 2 ^ 52 := by
      unfold mantissaAt
      rw [hdiv, hmod, if_neg (by omega), Nat.add_zero]
    unfold bottom top
    rw [hmantissa, hdiv, hmod, mantissaAt]
    by_cases hsmall : n / 2 ^ 52 = 0
    · have hsame : doublings (n + 1) = doublings n := by
        unfold doublings
        omega
      rw [if_neg (by omega), if_pos hsmall, hsame]
      congr 1
      omega
    · -- from here on the gaps are twice as wide
      have hdouble : doublings (n + 1) = doublings n + 1 := by
        unfold doublings
        omega
      rw [if_pos ⟨rfl, by omega⟩, if_neg hsmall, hdouble, pow_succ 2 (doublings n), ← mul_assoc,
        mul_right_comm]
      congr 1
      omega
  · have hdiv : (n + 1) / 2 ^ 52 = n / 2 ^ 52 := by omega
    have hmod : (n + 1) % 2 ^ 52 = n % 2 ^ 52 + 1 := by omega
    have hmantissa : mantissaAt (n + 1) = mantissaAt n + 1 := by
      unfold mantissaAt
      rw [hdiv, hmod]
      split <;> omega
    unfold bottom top
    rw [hmantissa, hmod, if_neg (by omega), doublings, hdiv, ← doublings]
    congr 1

theorem top_strictMono : StrictMono top :=
  strictMono_nat_of_lt_succ fun n => bottom_succ n ▸ bottom_lt_top (n + 1)

/-! ### One magnitude for each decimal -/

/-- The smallest magnitude is four times `2 ^ (-finest)`. -/
def finest : Nat := 1076

/-- How many quarters of the smallest magnitude make one. -/
def quarters : Nat := 2 ^ finest

/-- The decimal `m / d` lies between the ends of rank `n`, or on one of them if the rank is even. -/
def Inside (n m d : Nat) : Prop :=
  if n % 2 = 0 then bottom n * d ≤ m * quarters ∧ m * quarters ≤ top n * d
  else bottom n * d < m * quarters ∧ m * quarters < top n * d

theorem Inside.le {n m d : Nat} (h : Inside n m d) :
    bottom n * d ≤ m * quarters ∧ m * quarters ≤ top n * d := by
  unfold Inside at h
  split at h
  · exact h
  · exact ⟨h.1.le, h.2.le⟩

theorem Inside.lt {n m d : Nat} (h : Inside n m d) (hodd : n % 2 = 1) :
    bottom n * d < m * quarters ∧ m * quarters < top n * d := by
  unfold Inside at h
  rwa [if_neg (by omega)] at h

theorem Inside.mul {n m d : Nat} (h : Inside n m d) {k : Nat} (hk : 0 < k) :
    Inside n (m * k) (d * k) := by
  have hleft : bottom n * (d * k) = bottom n * d * k := by ring
  have hmiddle : m * k * quarters = m * quarters * k := by ring
  have hright : top n * (d * k) = top n * d * k := by ring
  unfold Inside at h ⊢
  rw [hleft, hmiddle, hright]
  split at h
  · next heven =>
    rw [if_pos heven]
    exact ⟨Nat.mul_le_mul_right k h.1, Nat.mul_le_mul_right k h.2⟩
  · next hodd =>
    rw [if_neg hodd]
    exact ⟨Nat.mul_lt_mul_of_pos_right h.1 hk, Nat.mul_lt_mul_of_pos_right h.2 hk⟩

theorem not_inside_of_lt {n n' m d : Nat} (hd : 0 < d) (hlt : n < n') (h : Inside n m d) :
    ¬Inside n' m d := by
  intro h'
  have hbelow := h.le.2
  have habove := h'.le.1
  by_cases hnext : n' = n + 1
  · subst hnext
    rw [bottom_succ] at habove
    -- the point between two neighbours belongs to the even one
    rcases Nat.mod_two_eq_zero_or_one n with heven | hodd
    · have hstrict := (h'.lt (by omega)).1
      rw [bottom_succ] at hstrict
      exact absurd hbelow (Nat.not_le.2 hstrict)
    · exact absurd habove (Nat.not_le.2 (h.lt hodd).2)
  · obtain ⟨k, rfl⟩ : ∃ k, n' = k + 1 := ⟨n' - 1, by omega⟩
    rw [bottom_succ] at habove
    have hmono : top n * d < top k * d := Nat.mul_lt_mul_of_pos_right (top_strictMono (by omega)) hd
    omega

/-- No decimal reads back as two magnitudes. -/
theorem Inside.unique {n n' m d : Nat} (hd : 0 < d) (h : Inside n m d) (h' : Inside n' m d) :
    n = n' := by
  rcases Nat.lt_trichotomy n n' with hlt | heq | hgt
  · exact absurd h' (not_inside_of_lt hd hlt h)
  · exact heq
  · exact absurd h (not_inside_of_lt hd hgt h')

end NodeRpc.Binary64
