import NodeRpc.Link.Run
import NodeRpc.Session.Basic

/-!
# Runs of a session

What can happen to a session: what its callers do, what arrives, what becomes of the frames that it
writes, and the turns of its tasks. A session that nobody owns any more takes no new calls and opens
no subscriptions.

In a session that is closing a turn of the reader is its last (`run .reader`), or it takes an item
or goes on with a delivery (`readOn`). To leave an item behind is the same as to take it and to stop
before it is handled.
-/

namespace NodeRpc.Session

/-- Something that happens to a session. -/
inductive Event where
  | act (a : Link.Action)
  | arrive (a : Arrival)
  | disconnect
  | close
  /-- The owner lets go of the session. -/
  | letGo
  /-- The connection does this with frames from now on. -/
  | sink (sink : Sink)
  /-- The write of exchange `k` ends. -/
  | resume (k : Nat) (reply : Except CallError Unit)
  | run (t : Task)
  /-- The reader has a turn and does not notice that the session is closing. -/
  | readOn
  deriving DecidableEq

/-- Whether an action needs the session itself, and not only what was got from it. -/
def needsOwner : Link.Action → Bool
  | .call .. | .batch .. | .open .. => true
  | _ => false

/-- What becomes of a session by an event. -/
def apply (s : Session) : Event → Session
  | .act a => if needsOwner a && !s.owned then s else s.onLink (·.act a)
  | .arrive a => s.arrive a
  | .disconnect => s.disconnect
  | .close => if s.owned then s.close else s
  | .letGo => { s with owned := false }
  | .sink sink => if s.closing then s else s.onLink (·.apply (.sink sink))
  | .resume k reply => s.onLink (·.apply (.resume k reply))
  | .run t => s.run t
  | .readOn => s.readOn

/-- A session after some events. -/
def after (s : Session) (events : List Event) : Session := events.foldl apply s

theorem after_concat (s : Session) (events : List Event) (e : Event) :
    s.after (events ++ [e]) = (s.after events).apply e := by
  simp [after]

/-- Whether no task can run. -/
def isSettled (s : Session) : Bool := s.enabled.isEmpty

end NodeRpc.Session
