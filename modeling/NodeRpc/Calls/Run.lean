import NodeRpc.Calls.Basic

/-!
# Runs of calls

What can happen to the calls of a connection, one thing after the other, in any order. A write may
end at any time after it was begun, and a call may be given up at any time.

A turn of an exchange is one step: it goes as far as it can, and nothing else happens meanwhile. The
numbers that a first turn takes are the exception, as they are taken before the lock: each of them
may be taken in a step of its own (`reserve`), and the turn takes those that are then lacking.
-/

namespace NodeRpc.Calls

/-- Something that happens to the calls of a connection. -/
inductive Event where
  | call (call : Call) (token : Token)
  | batch (calls : List Call) (token : Token)
  /-- Exchange `k` takes a number ahead of the rest of its first turn. -/
  | reserve (k : Nat)
  /-- Exchange `k` gets a turn. -/
  | run (k : Nat)
  | drop (k : Nat)
  | cancel (token : Token)
  /-- The connection does this with frames from now on. -/
  | sink (sink : Sink)
  /-- The write of exchange `k` ends. -/
  | resume (k : Nat) (reply : Except CallError Unit)
  | route (r : Response)
  | routeBatch (responses : List Response)
  | reject (error : ErrorObject)
  | close
  deriving DecidableEq

/-- What becomes of the calls by an event. -/
def apply (c : Calls) : Event → Calls
  | .call call token => c.make [call] false token
  | .batch calls token => c.make calls true token
  | .reserve k => c.reserve k
  | .run k => c.run k
  | .drop k => c.abandon k
  | .cancel token => c.cancel token
  | .sink sink => { c with sink }
  | .resume k reply => c.resume k reply
  | .route r => c.route r
  | .routeBatch responses => c.routeBatch responses
  | .reject error => c.reject error
  | .close => c.close

/-- The calls after some events. -/
def after (events : List Event) : Calls := events.foldl apply {}

theorem after_concat (events : List Event) (e : Event) :
    after (events ++ [e]) = (after events).apply e := by
  simp [after]

end NodeRpc.Calls
