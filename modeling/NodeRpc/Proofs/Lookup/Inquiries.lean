import Mathlib.Logic.Function.Iterate
import Mathlib.Order.Lattice.Nat
import NodeRpc.Proofs.Lookup.Owners

/-!
# The course of an inquiry

Where it is known how accounts are found, an inquiry goes on from one account to the next without
anybody being asked. This is its course, which `resume` follows step by step. The inquiry may pass
any number of accounts, or never come to an end.
-/

namespace NodeRpc

/-- The key of an account that is looked up, with options filled in. -/
def AccountKey.wanted (c : Client) (p : String × AccountOptions) : AccountKey :=
  ⟨p.1, p.2.normalized c.commitment⟩

namespace Inquiry

/-- How an inquiry goes on where account `key` is found as `find key`. -/
def resume (c : Client) (find : AccountKey → Json) : Inquiry → Inquiry
  | .seeks (.account key) goal => after c goal (.ok (find key))
  | i => i

/-- The course of the inquiry passes the account `key`. -/
def Passes (c : Client) (find : AccountKey → Json) (i : Inquiry) (key : AccountKey) : Prop :=
  ∃ n goal, (resume c find)^[n] i = .seeks (.account key) goal

/-- If the inquiry seeks anything, it is an account, with options filled in. -/
def Filled (c : Client) (i : Inquiry) : Prop :=
  ∀ e goal, i = .seeks e goal →
    ∃ key : AccountKey, e = .account key ∧ key.options.normalized c.commitment = key.options

variable {c : Client} {find : AccountKey → Json}

theorem Filled.resume {i : Inquiry} (h : i.Filled c) : (resume c find i).Filled c := by
  unfold Inquiry.resume
  split
  · intro e goal hnext
    obtain ⟨address, o, rfl⟩ := eq_ofAccount_of_after hnext
    exact ⟨_, rfl, rfl⟩
  · exact h

theorem Filled.iterate {i : Inquiry} (h : i.Filled c) (n : Nat) :
    ((Inquiry.resume c find)^[n] i).Filled c := by
  induction n with
  | zero => exact h
  | succ n ih =>
    rw [Function.iterate_succ_apply']
    exact ih.resume

/-- The accounts that are passed have their options filled in. -/
theorem Filled.passes {i : Inquiry} (h : i.Filled c) {key : AccountKey} (hkey : i.Passes c find key) :
    key.options.normalized c.commitment = key.options := by
  obtain ⟨n, goal, hn⟩ := hkey
  obtain ⟨key', hsame, hoptions⟩ := h.iterate n _ _ hn
  cases hsame
  exact hoptions

/-! ### The end of the course -/

/-- The course comes to an end. -/
def Ends (c : Client) (find : AccountKey → Json) (i : Inquiry) : Prop :=
  ∃ n result, (resume c find)^[n] i = .ended result

/-- How many accounts are still to be passed. -/
noncomputable def left (c : Client) (find : AccountKey → Json) (i : Inquiry) : Nat :=
  sInf {n | ∃ result, (resume c find)^[n] i = .ended result}

theorem iterate_ended (n : Nat) (result : Except LookupError Finding) :
    (resume c find)^[n] (.ended result) = .ended result :=
  Function.iterate_fixed rfl n

/-- A course has one end. -/
theorem end_unique {i : Inquiry} {m n : Nat} {r r' : Except LookupError Finding}
    (h : (resume c find)^[m] i = .ended r) (h' : (resume c find)^[n] i = .ended r') : r = r' := by
  have hsum : (resume c find)^[n + m] i = .ended r := by
    rw [Function.iterate_add_apply, h, iterate_ended]
  rw [Nat.add_comm, Function.iterate_add_apply, h', iterate_ended] at hsum
  exact (Inquiry.ended.inj hsum).symm

theorem left_le {i : Inquiry} {n : Nat} {result : Except LookupError Finding}
    (h : (resume c find)^[n] i = .ended result) : left c find i ≤ n :=
  Nat.sInf_le ⟨result, h⟩

theorem Ends.iterate {i : Inquiry} (h : i.Ends c find) (m : Nat) :
    ((resume c find)^[m] i).Ends c find := by
  obtain ⟨n, result, h⟩ := h
  refine ⟨n, result, ?_⟩
  rw [← Function.iterate_add_apply, Nat.add_comm, Function.iterate_add_apply, h, iterate_ended]

/-- When an account is passed, fewer are left. -/
theorem left_resume_lt {e : Entity} {goal : Goal} (h : (seeks e goal).Ends c find) :
    left c find (resume c find (.seeks e goal)) < left c find (.seeks e goal) := by
  obtain ⟨result, hresult⟩ : ∃ result,
      (resume c find)^[left c find (.seeks e goal)] (.seeks e goal) = .ended result :=
    Nat.sInf_mem h
  cases hleft : left c find (.seeks e goal) with
  | zero =>
    rw [hleft] at hresult
    cases hresult
  | succ m =>
    rw [hleft, Function.iterate_succ_apply] at hresult
    exact Nat.lt_succ_of_le (left_le hresult)

end Inquiry

end NodeRpc
