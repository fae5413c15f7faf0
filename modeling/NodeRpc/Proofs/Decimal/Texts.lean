import NodeRpc.Proofs.Decimal.Shortest
import NodeRpc.Json.Printer

/-!
# The text of a double tells it

However a decimal is written, positionally or with an exponent, its text has digits, a point or a
mark or both, and can be read back (`readDigits`): as the decimal itself, or with zeros behind it
that leave its value alone. The decimal that a double is written with has the rank of the double
and no other one, so different doubles have different texts (`chars_inj`).
-/

namespace NodeRpc

theorem Decimal.isDigit_ofNat (n : Nat) : ∀ c ∈ ofNat n, c.isDigit = true :=
  fun _ hc => Nat.isDigit_of_mem_toDigits (by decide) (by decide) hc

theorem Decimal.ofDigitChars_ofNat (n : Nat) : Nat.ofDigitChars 10 (ofNat n) 0 = n :=
  Nat.ofDigitChars_toDigits (by decide) (by decide)

namespace Binary64

/-! ### Reading a text -/

/-- The exponent behind a mark. -/
def readMark : List Char → Int
  | _ :: '-' :: ds => -(Nat.ofDigitChars 10 ds 0)
  | _ :: _ :: ds => Nat.ofDigitChars 10 ds 0
  | _ => 0

/-- The decimal that a text without a sign stands for. -/
def readDigits (cs : List Char) : Digits :=
  let body := cs.takeWhile (· ≠ 'e')
  let whole := body.takeWhile (· ≠ '.')
  let places := (body.dropWhile (· ≠ '.')).tail
  ⟨Nat.ofDigitChars 10 (whole ++ places) 0, readMark (cs.dropWhile (· ≠ 'e')) - places.length⟩

@[simp] theorem readMark_nil : readMark [] = 0 := rfl

theorem readMark_exponentChars (e : Int) : readMark (exponentChars e) = e := by
  cases e with
  | ofNat n =>
    have hchars : exponentChars (.ofNat n) = 'e' :: '+' :: Decimal.ofNat n := by
      simp [exponentChars, Decimal.ofInt]
    rw [hchars, readMark, Decimal.ofDigitChars_ofNat]
    · rfl
    · simp
  | negSucc n =>
    have hchars : exponentChars (.negSucc n) = 'e' :: '-' :: Decimal.ofNat (n + 1) := by
      simp [exponentChars, Decimal.ofInt]
    rw [hchars, readMark, Decimal.ofDigitChars_ofNat]
    rfl

/-- The parts of a text: digits, a point with digits behind it or none, a mark or none. -/
structure Parts (whole point places mark : List Char) : Prop where
  ne_nil : whole ≠ []
  digits : ∀ c ∈ whole ++ places, c.isDigit = true
  split : point = '.' :: places ∨ point = [] ∧ places = []
  marked : mark = [] ∧ point ≠ [] ∨ ∃ e, mark = exponentChars e

variable {whole point places mark : List Char}

theorem readDigits_parts (h : Parts whole point places mark) :
    readDigits (whole ++ point ++ mark) =
      ⟨Nat.ofDigitChars 10 (whole ++ places) 0, readMark mark - places.length⟩ := by
  have hdigit : ∀ c ∈ whole ++ places, c ≠ 'e' ∧ c ≠ '.' := by
    intro c hc
    have hd := h.digits c hc
    constructor
    · rintro rfl
      simp at hd
    · rintro rfl
      simp at hd
  have hbody : ∀ c ∈ whole ++ point, decide (c ≠ 'e') = true := by
    intro c hc
    rcases List.mem_append.1 hc with hw | hp
    · exact decide_eq_true (hdigit c (List.mem_append_left _ hw)).1
    · rcases h.split with rfl | ⟨rfl, _⟩
      · rcases List.mem_cons.1 hp with rfl | hp
        · decide
        · exact decide_eq_true (hdigit c (List.mem_append_right _ hp)).1
      · simp at hp
  have hmark : mark.takeWhile (· ≠ 'e') = [] ∧ mark.dropWhile (· ≠ 'e') = mark := by
    rcases h.marked with ⟨rfl, _⟩ | ⟨e, rfl⟩
    · exact ⟨rfl, rfl⟩
    · simp [exponentChars]
  have hwhole : ∀ c ∈ whole, decide (c ≠ '.') = true := fun c hc =>
    decide_eq_true (hdigit c (List.mem_append_left _ hc)).2
  have hpoint : point.takeWhile (· ≠ '.') = [] ∧ (point.dropWhile (· ≠ '.')).tail = places := by
    rcases h.split with rfl | ⟨rfl, rfl⟩
    · simp
    · exact ⟨rfl, rfl⟩
  unfold readDigits
  dsimp only
  rw [List.takeWhile_append_of_pos hbody, List.dropWhile_append_of_pos hbody, hmark.1, hmark.2,
    List.append_nil, List.takeWhile_append_of_pos hwhole, List.dropWhile_append_of_pos hwhole,
    hpoint.1, hpoint.2, List.append_nil]

/-! ### The parts of a written decimal -/

/-- A decimal as it is, or with zeros in the place of its exponent and one more behind the point. -/
def Respelt (r r' : Digits) : Prop :=
  r' = r ∨ 0 ≤ r.exponent ∧ r' = ⟨r.digits * 10 ^ r.exponent.toNat * 10, -1⟩

/-- A text has such parts and stands for a decimal. -/
def Spells (cs : List Char) (r : Digits) : Prop :=
  ∃ whole point places mark, Parts whole point places mark ∧ cs = whole ++ point ++ mark ∧
    Respelt r ⟨Nat.ofDigitChars 10 (whole ++ places) 0, readMark mark - places.length⟩

theorem isDigit_zeros {k : Nat} {c : Char} (h : c ∈ List.replicate k '0') : c.isDigit = true := by
  rw [List.eq_of_mem_replicate h]
  rfl

/-- Digits and a point with digits behind it. -/
theorem Parts.pointed (hne : whole ≠ []) (hdigits : ∀ c ∈ whole ++ places, c.isDigit = true) :
    Parts whole ('.' :: places) places [] :=
  ⟨hne, hdigits, .inl rfl, .inl ⟨rfl, by simp⟩⟩

section Spelling

variable {r : Digits} {digits : List Char} (hdigits : ∀ c ∈ digits, c.isDigit = true)
  (hread : Nat.ofDigitChars 10 digits 0 = r.digits)

include hdigits hread

/-- With zeros behind the digits. -/
theorem spells_whole (hne : digits ≠ []) (hexponent : 0 ≤ r.exponent) :
    Spells (digits ++ List.replicate r.exponent.toNat '0' ++ ['.', '0']) r := by
  refine ⟨digits ++ List.replicate r.exponent.toNat '0', ['.', '0'], ['0'], [],
    .pointed (by simp [hne]) fun c hc => ?_, by simp, .inr ⟨hexponent, ?_⟩⟩
  · simp only [List.mem_append, List.mem_singleton] at hc
    rcases hc with (hc | hc) | rfl
    · exact hdigits c hc
    · exact isDigit_zeros hc
    · rfl
  · rw [Nat.ofDigitChars_append, Nat.ofDigitChars_append, hread, Nat.ofDigitChars_replicate_zero]
    simp [Nat.ofDigitChars, Nat.mul_comm]

/-- With the point among the digits or at their end. -/
theorem spells_pointed (hne : digits ≠ []) {k : Nat} (hpos : 0 < k) (hle : k ≤ digits.length)
    (hexponent : r.exponent = k - digits.length) :
    Spells (digits.take k ++ '.' :: digits.drop k) r := by
  refine ⟨digits.take k, '.' :: digits.drop k, digits.drop k, [], .pointed ?_ ?_, by simp, .inl ?_⟩
  · simp [hne, hpos.ne']
  · rwa [List.take_append_drop]
  · have hplaces : readMark [] - ((digits.drop k).length : Int) = r.exponent := by
      rw [List.length_drop, readMark_nil]
      omega
    rw [List.take_append_drop, hread, hplaces]

/-- With zeros between the point and the digits. -/
theorem spells_small {k : Nat} (hexponent : r.exponent = -(k + digits.length)) :
    Spells ('0' :: '.' :: (List.replicate k '0' ++ digits)) r := by
  refine ⟨['0'], '.' :: (List.replicate k '0' ++ digits), List.replicate k '0' ++ digits, [],
    .pointed (by simp) fun c hc => ?_, by simp, .inl ?_⟩
  · simp only [List.mem_append, List.mem_singleton] at hc
    rcases hc with rfl | hc | hc
    · rfl
    · exact isDigit_zeros hc
    · exact hdigits c hc
  · have hvalue : Nat.ofDigitChars 10 (['0'] ++ (List.replicate k '0' ++ digits)) 0 = r.digits := by
      rw [Nat.ofDigitChars_append, Nat.ofDigitChars_append, Nat.ofDigitChars_replicate_zero]
      simpa [Nat.ofDigitChars] using hread
    have hplaces : readMark [] - ((List.replicate k '0' ++ digits).length : Int) = r.exponent := by
      rw [List.length_append, List.length_replicate, readMark_nil]
      omega
    rw [hvalue, hplaces]

end Spelling

/-- With a mark behind the digits, and a point after the first one if there are more. -/
theorem spells_marked {r : Digits} {d : Char} {ds : List Char} {e : Int}
    (hdigits : ∀ c ∈ d :: ds, c.isDigit = true)
    (hread : Nat.ofDigitChars 10 (d :: ds) 0 = r.digits)
    (hpoint : point = '.' :: ds ∨ point = [] ∧ ds = []) (hexponent : r.exponent = e - ds.length) :
    Spells (d :: (point ++ exponentChars e)) r := by
  refine ⟨[d], point, ds, exponentChars e, ⟨by simp, hdigits, hpoint, .inr ⟨e, rfl⟩⟩, rfl, .inl ?_⟩
  rw [readMark_exponentChars, List.singleton_append, hread, ← hexponent]

/-- The text of a decimal stands for the decimal. -/
theorem Digits.spells_magnitudeChars (r : Digits) : Spells (magnitudeChars r) r := by
  have hdigits := Decimal.isDigit_ofNat r.digits
  have hread := Decimal.ofDigitChars_ofNat r.digits
  have hne : Decimal.ofNat r.digits ≠ [] := Nat.toDigits_ne_nil
  unfold magnitudeChars
  generalize Decimal.ofNat r.digits = digits at hdigits hread hne
  dsimp only
  split
  · next hwhole => exact spells_whole hdigits hread hne hwhole.1
  · split
    · exact spells_pointed hdigits hread hne (by omega) (by omega) (by omega)
    · split
      · exact spells_small hdigits hread (by omega)
      · match digits, hne with
        | [d], _ => exact spells_marked hdigits hread (.inr ⟨rfl, rfl⟩) (by simp)
        | d :: d' :: ds, _ =>
          refine spells_marked hdigits hread (.inl rfl) ?_
          simp only [List.length_cons]
          omega

/-! ### Different doubles -/

/-- Zeros behind a decimal leave its rank alone. -/
theorem Respelt.hasRank {r r' : Digits} (h : Respelt r r') {n : Nat} (hr : r.HasRank n) :
    r'.HasRank n := by
  rcases h with rfl | ⟨hexponent, rfl⟩
  · exact hr
  · have hden : (-r.exponent).toNat = 0 := by omega
    have hten := Inside.mul hr (k := 10) (by decide)
    rw [hden] at hten
    unfold Digits.HasRank
    simpa using hten

/-- A written decimal is read back with its rank. -/
theorem hasRank_readDigits {r : Digits} {n : Nat} (h : r.HasRank n) :
    (readDigits (magnitudeChars r)).HasRank n := by
  obtain ⟨whole, point, places, mark, hparts, htext, hrespelt⟩ := r.spells_magnitudeChars
  rw [htext, readDigits_parts hparts]
  exact hrespelt.hasRank h

/-- No magnitude begins with a sign. -/
theorem magnitudeChars_ne_minus (r : Digits) (cs : List Char) : magnitudeChars r ≠ '-' :: cs := by
  obtain ⟨whole, point, places, mark, hparts, htext, -⟩ := r.spells_magnitudeChars
  obtain ⟨c, rest, rfl⟩ := List.exists_cons_of_ne_nil hparts.ne_nil
  intro h
  rw [htext] at h
  have hdigit := hparts.digits c (by simp)
  rw [(List.cons.inj h).1] at hdigit
  simp at hdigit

/-- Different doubles have different texts. -/
theorem chars_inj {x y : Binary64} (h : x.chars = y.chars) : x = y := by
  have hboth : x.isNegative = y.isNegative ∧
      magnitudeChars x.shortest = magnitudeChars y.shortest := by
    unfold chars at h
    cases hx : x.isNegative <;> cases hy : y.isNegative <;> simp [hx, hy] at h
    · exact ⟨rfl, h⟩
    · exact absurd h (magnitudeChars_ne_minus _ _)
    · exact absurd h.symm (magnitudeChars_ne_minus _ _)
    · exact ⟨rfl, h⟩
  have hread := hasRank_readDigits x.hasRank_shortest
  rw [hboth.2] at hread
  exact eq_of_rank hboth.1 (hread.unique (hasRank_readDigits y.hasRank_shortest))

end Binary64

end NodeRpc
