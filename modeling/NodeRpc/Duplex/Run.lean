import NodeRpc.Duplex.Basic
import NodeRpc.Session.Run

/-!
# Runs of a shared connection

What can happen to a shared connection and the sessions behind it, in any order. To try to open a
subscription is to make a use, to give it one turn, and to give it up.
-/

namespace NodeRpc.Duplex

/-- Something that happens to a shared connection. -/
inductive Event where
  | make (purpose : Purpose) (token : Token)
  /-- Use `u` gets a turn. -/
  | turn (u : Nat)
  | abandon (u : Nat)
  | cancel (token : Token)
  /-- The connections that are waited for are made or refused. -/
  | resume
  /-- Something happens to session `n`. It is let go of by the shared connection only. -/
  | session (n : Nat) (e : Session.Event)
  deriving DecidableEq

/-- What becomes of a shared connection by an event. -/
def apply (d : Duplex) : Event → Duplex
  | .make purpose token => d.make purpose token
  | .turn u => d.runUse u
  | .abandon u => d.abandon u
  | .cancel token => d.cancel token
  | .resume => d.resume
  | .session n e => if e = .letGo then d else d.onSession n (·.apply e)

/-- A shared connection after some events. -/
def after (d : Duplex) (events : List Event) : Duplex := events.foldl apply d

theorem after_concat (d : Duplex) (events : List Event) (e : Event) :
    d.after (events ++ [e]) = (d.after events).apply e := by
  simp [after]

end NodeRpc.Duplex
