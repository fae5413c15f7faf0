import NodeRpc.Link.Basic

/-!
# Runs of a link

What can happen at the client's end of a connection: what its callers do, what arrives, and the
turns of its tasks.
-/

namespace NodeRpc.Link

/-- Something that a caller does. -/
inductive Action where
  | call (call : Call) (token : Token)
  | batch (calls : List Call) (token : Token)
  | «open» (request : SubscriptionRequest) (token : Token)
  | poll (handle : Nat)
  | closeStream (handle : Nat) (telling : Bool)
  | dropStream (handle : Nat) (telling : Bool)
  | cancel (token : Token)
  /-- Gives up exchange `k`. -/
  | drop (k : Nat)
  | advance (ms : Nat)
  deriving DecidableEq

/-- What becomes of the link by an action. -/
def act (l : Link) : Action → Link
  | .call call token => l.call call token
  | .batch calls token => l.batch calls token
  | .open request token => l.open request token
  | .poll handle => (l.poll handle).2
  | .closeStream handle telling => l.closeStream handle telling
  | .dropStream handle telling => l.dropStream handle telling
  | .cancel token => l.cancel token
  | .drop k => l.drop (.exchange k)
  | .advance ms => { l with now := l.now + ms }

/-- Something that happens to a link. -/
inductive Event where
  | act (a : Action)
  | release (handle : Nat)
  | unsubscribe (id : SubscriptionId) (method : String)
  | dispatch (n : Notification)
  | run (t : Task)
  /-- Gives up delivery `d`. -/
  | dropDelivery (d : Nat)
  | route (r : Response)
  | routeBatch (responses : List Response)
  | reject (error : ErrorObject)
  | closeCalls
  | closeSubscriptions
  /-- The connection does this with frames from now on. -/
  | sink (sink : Sink)
  /-- The write of exchange `k` ends. -/
  | resume (k : Nat) (reply : Except CallError Unit)
  deriving DecidableEq

/-- What becomes of the link by an event. -/
def apply (l : Link) : Event → Link
  | .act a => l.act a
  | .release handle => (l.release handle).2
  | .unsubscribe id method => l.unsubscribe id method
  | .dispatch n => l.dispatch n
  | .run t => l.run t
  | .dropDelivery d => l.drop (.delivery d)
  | .route r => l.route r
  | .routeBatch responses => l.routeBatch responses
  | .reject error => l.reject error
  | .closeCalls => l.closeCalls
  | .closeSubscriptions => l.closeSubscriptions
  | .sink sink => { l with calls := { l.calls with sink } }
  | .resume k reply => { l with calls := l.calls.resume k reply }

/-- A link after some events. -/
def after (l : Link) (events : List Event) : Link := events.foldl apply l

theorem after_concat (l : Link) (events : List Event) (e : Event) :
    l.after (events ++ [e]) = (l.after events).apply e := by
  simp [after]

theorem after_append (l : Link) (events more : List Event) :
    l.after (events ++ more) = (l.after events).after more := by
  simp [after]

/-- Whether no task can run. -/
def isSettled (l : Link) : Bool := l.enabled.isEmpty

end NodeRpc.Link
