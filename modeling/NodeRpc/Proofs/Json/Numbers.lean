import NodeRpc.Json.Number
import NodeRpc.Proofs.Decimal.Texts

/-!
# Integers read back

The decimal text of an integer that fits 64 bits, with or without a sign, is read as this integer.
What is read as a number starts with a digit or a minus sign.
-/

namespace NodeRpc

/-- Only zero is written with a zero in front. -/
theorem Decimal.ofNat_ne_zero_cons {n : Nat} (hn : 0 < n) (cs : List Char) :
    ofNat n ≠ '0' :: cs := by
  induction n using Nat.strongRecOn generalizing cs with
  | ind n ih =>
    unfold ofNat at ih ⊢
    by_cases hlt : n < 10
    · rw [Nat.toDigits_of_lt_base hlt]
      intro h
      have hdigit : ∀ m < 10, 0 < m → m.digitChar ≠ '0' := by decide
      exact hdigit n hlt hn (List.cons.inj h).1
    · rw [Nat.toDigits_of_base_le (by decide) (Nat.le_of_not_lt hlt)]
      intro h
      -- the digits in front are those of a smaller number
      obtain ⟨c, front, hfront⟩ :=
        List.exists_cons_of_ne_nil (Nat.toDigits_ne_nil (b := 10) (n := n / 10))
      rw [hfront, List.cons_append] at h
      obtain ⟨rfl, -⟩ := List.cons.inj h
      exact ih (n / 10) (by omega) (by omega) front hfront

namespace Json

namespace Literal

theorem digit?_of_isDigit {c : Char} (h : c.isDigit = true) : digit? c = some (c.toNat - 48) := by
  have hrange : '0' ≤ c ∧ c ≤ '9' := by simpa [Char.isDigit, Char.le_def] using h
  unfold digit?
  rw [if_pos hrange]
  rfl

theorem digits_of_isDigit {cs : List Char} (h : ∀ c ∈ cs, c.isDigit = true) :
    digits cs = (cs.map fun c => c.toNat - 48, []) := by
  induction cs with
  | nil => rfl
  | cons c cs ih =>
    rw [digits, digit?_of_isDigit (h c (by simp)), ih fun x hx => h x (List.mem_cons_of_mem _ hx)]
    rfl

/-- The whole part of a natural number is its digits, which are worth the number. -/
theorem readWhole_ofNat (n : Nat) :
    ∃ ds, readWhole (Decimal.ofNat n) = some (ds, []) ∧ value ds = n := by
  have hdigits := digits_of_isDigit (Decimal.isDigit_ofNat n)
  refine ⟨(Decimal.ofNat n).map fun c => c.toNat - 48, ?_, ?_⟩
  · unfold readWhole
    rw [hdigits]
    cases hn : Decimal.ofNat n with
    | nil => exact absurd hn Nat.toDigits_ne_nil
    | cons c cs =>
      cases cs with
      | nil => cases hc : c.toNat - 48 <;> simp [hc]
      | cons d ds =>
        have hpos : 0 < n := by
          rcases Nat.eq_zero_or_pos n with rfl | hpos
          · simp [Decimal.ofNat] at hn
          · exact hpos
        have hzero : c.toNat - 48 ≠ 0 := by
          intro hzero
          have hge : 48 ≤ c.toNat :=
            (Char.isDigit_iff_toNat.1 (Decimal.isDigit_ofNat n c (by simp [hn]))).1
          obtain rfl : c = '0' := Char.toNat_inj.1 (Nat.le_antisymm (Nat.le_of_sub_eq_zero hzero) hge)
          exact Decimal.ofNat_ne_zero_cons hpos _ hn
        cases hc : c.toNat - 48 with
        | zero => exact absurd hc hzero
        | succ m => simp [hc]
  · have hread := Decimal.ofDigitChars_ofNat n
    unfold value
    rw [List.foldl_map]
    exact hread

theorem ofChars?_of_whole {cs : List Char} {ds : List Nat} (hsign : ∀ rest, cs ≠ '-' :: rest)
    (h : readWhole cs = some (ds, [])) : ofChars? cs = some ⟨false, ds, none, none⟩ := by
  unfold ofChars?
  split
  next heq =>
  split at heq
  · exact absurd rfl (hsign _)
  · obtain ⟨rfl, rfl⟩ := Prod.mk.inj heq
    simp [h, readFraction, readExponent]

theorem ofChars?_of_minus {cs : List Char} {ds : List Nat} (h : readWhole cs = some (ds, [])) :
    ofChars? ('-' :: cs) = some ⟨true, ds, none, none⟩ := by
  simp [ofChars?, h, readFraction, readExponent]

end Literal

/-- The decimal text of an integer of 64 bits is read as the integer. -/
theorem number?_ofInt {n : Int} (hlow : -2 ^ 63 ≤ n) (hhigh : n < 2 ^ 64) :
    number? (Decimal.ofInt n) = some (.int n) := by
  cases n with
  | ofNat m =>
    obtain ⟨ds, hds, hvalue⟩ := Literal.readWhole_ofNat m
    have hfits : m < Nat.pow 2 64 := Int.ofNat_lt.1 hhigh
    have hsign : ∀ rest, Decimal.ofNat m ≠ '-' :: rest := by
      intro rest h
      have hdigit := Decimal.isDigit_ofNat m '-' (by simp [h])
      simp at hdigit
    rw [Decimal.ofInt, number?, Literal.ofChars?_of_whole hsign hds, Option.bind_some]
    simp only [Literal.json?, hvalue]
    rw [if_pos ⟨Bool.false_ne_true, hfits⟩]
    rfl
  | negSucc m =>
    obtain ⟨ds, hds, hvalue⟩ := Literal.readWhole_ofNat (m + 1)
    have hfits : m + 1 ≤ Nat.pow 2 63 := by
      rw [Int.negSucc_eq] at hlow
      exact Int.ofNat_le.1 (Int.neg_le_neg_iff.1 hlow)
    rw [Decimal.ofInt, number?, Literal.ofChars?_of_minus hds, Option.bind_some]
    simp only [Literal.json?, hvalue]
    rw [if_neg fun h => h.1 trivial, if_pos ⟨trivial, Nat.succ_pos m, hfits⟩]
    rfl

end Json

end NodeRpc
