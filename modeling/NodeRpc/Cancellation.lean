/-!
# Cancellation tokens

A caller may hand a token to any number of calls and subscriptions. Each subscription has a token of
its own below the caller's: closing the subscription cancels only that one, cancelling the caller's
cancels both.
-/

namespace NodeRpc

/-- What calls and subscriptions are cancelled by. -/
inductive Token where
  | caller (number : Nat)
  /-- The token of the subscription `handle`. -/
  | stream (handle : Nat)
  /-- A token that nobody else has. -/
  | unshared
  deriving DecidableEq, Inhabited

end NodeRpc
