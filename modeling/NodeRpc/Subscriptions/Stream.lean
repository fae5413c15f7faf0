import NodeRpc.Cancellation
import NodeRpc.Error

/-!
# The consumer's side of a subscription

A stream is pending until a poll finds that the subscription was confirmed, then active, and in the
end closed. It holds what has been delivered and not yet been taken.
-/

namespace NodeRpc

/-- How far a stream has come. -/
inductive Phase where
  | pending
  | active (id : SubscriptionId)
  | closed
  deriving DecidableEq, Inhabited

/-- The consumer's side of a subscription. -/
structure Stream where
  /-- The token that the subscription was opened with. -/
  parent : Token
  phase : Phase := .pending
  /-- What opening came to, once it is known. -/
  confirmation : Option (Except CallError SubscriptionId) := none
  /-- What has been delivered and not been taken, in wire order. -/
  buffer : List Json := []
  /-- Whether deliveries are still accepted. -/
  receiving : Bool := true
  /-- Whether the consumer still has the stream. -/
  held : Bool := true
  deriving DecidableEq

/-- What a poll of a stream finds. -/
inductive Polled where
  | pending
  | item (value : Json)
  | failed (cause : CallError)
  | ended
  deriving DecidableEq

/-- The id of an active stream. -/
def Stream.id? (s : Stream) : Option SubscriptionId :=
  match s.phase with
  | .active id => some id
  | _ => none

end NodeRpc
