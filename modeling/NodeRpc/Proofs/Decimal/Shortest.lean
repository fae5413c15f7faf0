import NodeRpc.Proofs.Decimal.Gaps

/-!
# The shortest decimal reads back

The search for the shortest decimal of a double ends at a grid that is finer than every gap between
doubles, and there it finds a decimal that reads back. So it finds one in any case
(`holds_shortest`), and the value of that decimal has the rank of the double
(`hasRank_shortest`).
-/

namespace NodeRpc.Binary64

/-! ### The search -/

/-- A decimal is one of the reals of an interval. -/
def Interval.Holds (i : Interval) (r : Digits) : Prop :=
  i.contains (r.digits * 10 ^ r.exponent.toNat) (10 ^ (-r.exponent).toNat) = true

theorem Interval.holds_of_onGrid? {i : Interval} {e : Int} {r : Digits}
    (h : i.onGrid? e = some r) : i.Holds r := by
  unfold onGrid? at h
  extract_lets p d below above twice middle nearer farther at h
  split at h
  · next hin =>
    obtain rfl := Option.some.inj h
    exact hin
  · split at h
    · next hin =>
      obtain rfl := Option.some.inj h
      exact hin
    · simp at h

/-- The search finds a decimal if there is one on its last grid. -/
theorem Interval.holds_search (i : Interval) (fuel : Nat) (e : Int)
    (hlast : (i.onGrid? (e - fuel)).isSome = true) : i.Holds (i.search e (fuel + 1)) := by
  induction fuel generalizing e with
  | zero =>
    obtain ⟨r, hr⟩ := Option.isSome_iff_exists.1 hlast
    rw [Int.natCast_zero, Int.sub_zero] at hr
    rw [search, hr, Option.getD_some]
    exact holds_of_onGrid? hr
  | succ fuel ih =>
    rw [search]
    cases hr : i.onGrid? e with
    | some r => exact holds_of_onGrid? hr
    | none =>
      refine ih (e - 1) ?_
      have hgrid : e - 1 - (fuel : Int) = e - ((fuel + 1 : Nat) : Int) := by omega
      rwa [hgrid]

/-- On a grid whose step is at most the distance from the value to the lower end, the point below
the value is in the interval. -/
theorem Interval.onGrid?_isSome (i : Interval) (k : Nat) (hden : 0 < i.denominator)
    (hlow : i.low * 10 ^ k + i.denominator ≤ i.value * 10 ^ k) (hhigh : i.value < i.high) :
    (i.onGrid? (-k)).isSome = true := by
  have hwhole : (-(k : Int)).toNat = 0 := by omega
  have hplaces : (- -(k : Int)).toNat = k := by omega
  unfold onGrid?
  rw [hwhole, hplaces]
  extract_lets p d below above twice middle nearer farther
  have hp : p = 1 := rfl
  have hstep : i.low * d + i.denominator ≤ i.value * d := hlow
  have hbelow : i.contains (below * p) d = true := by
    have hle : below * i.denominator ≤ i.value * d := by
      rw [← Nat.mul_one i.denominator]
      exact Nat.div_mul_le_self ..
    have hlt : i.value * d < below * i.denominator + i.denominator := by
      rw [← Nat.mul_one i.denominator]
      exact Nat.lt_div_mul_add (by rwa [Nat.mul_one])
    have htop : i.value * d < i.high * d :=
      Nat.mul_lt_mul_of_pos_right hhigh (Nat.pow_pos (by decide))
    rw [hp, Nat.mul_one]
    unfold contains
    dsimp only
    split
    · exact decide_eq_true ⟨by omega, by omega⟩
    · exact decide_eq_true ⟨by omega, by omega⟩
  -- the point below the value is one of the two that are tried
  split
  · rfl
  · next hnearer =>
    split
    · rfl
    · next hfarther =>
      refine absurd hbelow ?_
      by_cases hcloser : nearer = below
      · rwa [hcloser] at hnearer
      · have hother : farther = below := if_neg hcloser
        rwa [hother] at hfarther

/-! ### What the interval of a double is -/

/-- The exponent of the grid that the search ends at, but for its sign. -/
def lastGrid : Nat := 344

theorem quarters_le : quarters ≤ 10 ^ lastGrid := by
  have hgrid : 4 * 86 = lastGrid := rfl
  calc
    2 ^ finest ≤ 2 ^ (13 * 86) := Nat.pow_le_pow_right (by decide) (by decide)
    _ = (2 ^ 13) ^ 86 := Nat.pow_mul ..
    _ ≤ (10 ^ 4) ^ 86 := Nat.pow_le_pow_left (by decide) 86
    _ = 10 ^ lastGrid := by rw [← Nat.pow_mul, hgrid]

theorem scale_ge (x : Binary64) : -(finest : Int) ≤ x.scale - 2 := by
  unfold scale finest
  omega

theorem denominator_interval_le (x : Binary64) : x.interval.denominator ≤ quarters := by
  have hscale := x.scale_ge
  have hexponent : (-(x.scale - 2)).toNat ≤ finest := by omega
  exact Nat.pow_le_pow_right (n := 2) (by decide) hexponent

/-- On the last grid there is a decimal that reads back. -/
theorem onGrid?_last (x : Binary64) (hne : x.mantissa ≠ 0) :
    (x.interval.onGrid? (-lastGrid)).isSome = true := by
  let up := 2 ^ (x.scale - 2).toNat
  have hup : 0 < up := Nat.two_pow_pos _
  have hvalue : x.interval.value = 4 * x.mantissa * up := rfl
  have hhigh : x.interval.high = (4 * x.mantissa + 2) * up := rfl
  have hlow : x.interval.low + up ≤ x.interval.value := by
    have hsplit : (4 * x.mantissa - 1) * up + up = 4 * x.mantissa * up := by
      rw [← Nat.succ_mul]
      congr 1
      omega
    rw [hvalue, ← hsplit]
    refine Nat.add_le_add_right (Nat.mul_le_mul_right up ?_) up
    split <;> omega
  refine x.interval.onGrid?_isSome lastGrid (Nat.two_pow_pos _) ?_ ?_
  · have hden : x.interval.denominator ≤ up * 10 ^ lastGrid :=
      (x.denominator_interval_le.trans quarters_le).trans (Nat.le_mul_of_pos_left _ hup)
    calc
      x.interval.low * 10 ^ lastGrid + x.interval.denominator
        ≤ x.interval.low * 10 ^ lastGrid + up * 10 ^ lastGrid := Nat.add_le_add_left hden _
      _ = (x.interval.low + up) * 10 ^ lastGrid := (Nat.add_mul ..).symm
      _ ≤ x.interval.value * 10 ^ lastGrid := Nat.mul_le_mul_right _ hlow
  · rw [hvalue, hhigh]
    exact Nat.mul_lt_mul_of_pos_right (by omega) hup

/-- The shortest decimal of a double is one of the reals that round to it. -/
theorem holds_shortest (x : Binary64) : x.interval.Holds x.shortest := by
  unfold shortest
  split
  · next hzero =>
    have hclosed : x.interval.closed = true := by simp [interval, hzero]
    have hlow : x.interval.low = 0 := by simp [interval, hzero]
    unfold Interval.Holds Interval.contains
    rw [hclosed, hlow]
    simp
  · next hne =>
    extract_lets i start
    refine i.holds_search (start + lastGrid) start ?_
    have hgrid : (start : Int) - ((start + lastGrid : Nat) : Int) = -lastGrid := by omega
    rw [hgrid]
    exact x.onGrid?_last hne

/-! ### By rank -/

theorem rank_div (x : Binary64) : x.rank / 2 ^ 52 = x.exponentField := by
  unfold rank exponentField
  simp only [Nat.pow_eq]
  omega

theorem rank_mod (x : Binary64) : x.rank % 2 ^ 52 = x.fractionField := by
  unfold rank fractionField
  simp only [Nat.pow_eq]
  omega

theorem mantissaAt_rank (x : Binary64) : mantissaAt x.rank = x.mantissa := by
  rw [mantissaAt, rank_div, rank_mod]
  rfl

/-- The unit in which the interval of a double is given, in quarters of the smallest magnitude. -/
theorem up_mul_quarters (x : Binary64) :
    2 ^ (x.scale - 2).toNat * quarters = 2 ^ doublings x.rank * x.interval.denominator := by
  have hexponent : (x.scale - 2).toNat + finest = doublings x.rank + (-(x.scale - 2)).toNat := by
    unfold doublings scale finest
    rw [rank_div]
    omega
  have hden : x.interval.denominator = 2 ^ (-(x.scale - 2)).toNat := rfl
  rw [quarters, hden, ← pow_add, ← pow_add, hexponent]

theorem low_interval (x : Binary64) :
    x.interval.low * quarters = bottom x.rank * x.interval.denominator := by
  have hlow : x.interval.low =
      (4 * x.mantissa - if x.hasNarrowGap then 1 else 2) * 2 ^ (x.scale - 2).toNat := rfl
  have hnarrow : (x.rank % 2 ^ 52 = 0 ∧ 1 < x.rank / 2 ^ 52) ↔ x.hasNarrowGap = true := by
    rw [rank_div, rank_mod]
    simp [hasNarrowGap]
  rw [hlow, bottom, mantissaAt_rank, Nat.mul_assoc, up_mul_quarters, ← Nat.mul_assoc]
  simp only [hnarrow]

theorem high_interval (x : Binary64) :
    x.interval.high * quarters = top x.rank * x.interval.denominator := by
  have hhigh : x.interval.high = (4 * x.mantissa + 2) * 2 ^ (x.scale - 2).toNat := rfl
  rw [hhigh, top, mantissaAt_rank, Nat.mul_assoc, up_mul_quarters, ← Nat.mul_assoc]

theorem closed_interval (x : Binary64) : x.interval.closed = true ↔ x.rank % 2 = 0 := by
  have hmantissa : x.rank % 2 = x.mantissa % 2 := by
    rw [← mantissaAt_rank, mantissaAt]
    split <;> omega
  have hclosed : x.interval.closed = (x.mantissa % 2 == 0) := rfl
  rw [hclosed, hmantissa, beq_iff_eq]

/-- A decimal is one of the reals that round to a double if and only if it lies inside its rank. -/
theorem contains_interval_iff (x : Binary64) (m d : Nat) :
    x.interval.contains m d = true ↔ Inside x.rank m d := by
  have hden : 0 < x.interval.denominator := Nat.two_pow_pos _
  have hquarters : 0 < quarters := Nat.two_pow_pos _
  -- one and the same factor leads from the terms on the left to those on the right
  have hscaled : ∀ {a b a' b' : Nat}, a * quarters = a' * x.interval.denominator →
      b * quarters = b' * x.interval.denominator → (a ≤ b ↔ a' ≤ b') := by
    intro a b a' b' ha hb
    rw [← Nat.mul_le_mul_right_iff hquarters, ha, hb, Nat.mul_le_mul_right_iff hden]
  have hvalue : m * x.interval.denominator * quarters = m * quarters * x.interval.denominator :=
    Nat.mul_right_comm ..
  have hend : ∀ {e e' : Nat}, e * quarters = e' * x.interval.denominator →
      e * d * quarters = e' * d * x.interval.denominator := by
    intro e e' he
    rw [Nat.mul_right_comm, he, Nat.mul_right_comm]
  have hlow := hend x.low_interval
  have hhigh := hend x.high_interval
  unfold Interval.contains Inside
  dsimp only
  rw [if_congr x.closed_interval rfl rfl]
  split
  · rw [decide_eq_true_eq, hscaled hlow hvalue, hscaled hvalue hhigh]
  · rw [decide_eq_true_eq, ← Nat.not_le, ← Nat.not_le, ← Nat.not_le, ← Nat.not_le,
      hscaled hvalue hlow, hscaled hhigh hvalue]

/-- The value of a decimal lies inside rank `n`. -/
def Digits.HasRank (r : Digits) (n : Nat) : Prop :=
  Inside n (r.digits * 10 ^ r.exponent.toNat) (10 ^ (-r.exponent).toNat)

theorem Digits.HasRank.unique {r : Digits} {n n' : Nat} (h : r.HasRank n) (h' : r.HasRank n') :
    n = n' :=
  Inside.unique (Nat.pow_pos (by decide)) h h'

/-- The shortest decimal of a double has the rank of the double. -/
theorem hasRank_shortest (x : Binary64) : x.shortest.HasRank x.rank :=
  (x.contains_interval_iff _ _).1 x.holds_shortest

end NodeRpc.Binary64
