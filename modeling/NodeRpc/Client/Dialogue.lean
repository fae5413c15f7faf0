import NodeRpc.Client.Question

/-!
# Dialogues with a node

A dialogue asks the node for something, goes on with the answer, and so on until it is done. Who
answers, and when, is left open.
-/

namespace NodeRpc

/-- What is asked of a node at once. -/
inductive Ask where
  /-- Calls made side by side. -/
  | calls (calls : List Call)
  /-- Calls made in one exchange. -/
  | batch (calls : List Call)
  deriving DecidableEq

/-- What the node answers: an outcome per call, or that the exchange has failed as a whole. -/
abbrev Answer := Except CallError (List Outcome)

/-- The outcomes of `n` calls that were made side by side. -/
def Answer.outcomes (a : Answer) (n : Nat) : List Outcome :=
  match a with
  | .ok outcomes => outcomes
  | .error cause => List.replicate n (.error cause)

/-- The outcome of a call that was made by itself. -/
def Answer.outcome (a : Answer) : Outcome := (a.outcomes 1).headD (.error .transportClosed)

/-- A dialogue that comes to an `α`. -/
inductive Dialogue (α : Type) where
  | done (result : α)
  | ask (a : Ask) (next : Answer → Dialogue α)

namespace Dialogue

variable {α β : Type}

/-- The same dialogue, with `f` applied to the result. -/
def map (f : α → β) : Dialogue α → Dialogue β
  | .done a => .done (f a)
  | .ask a next => .ask a fun answer => (next answer).map f

/-- What the dialogue comes to with a node that answers by `node`. -/
def result (node : Ask → Answer) : Dialogue α → α
  | .done a => a
  | .ask a next => (next (node a)).result node

/-- What is asked on the way. -/
def asked (node : Ask → Answer) : Dialogue α → List Ask
  | .done _ => []
  | .ask a next => a :: (next (node a)).asked node

end Dialogue

/-- Asks a question, and goes on with what is read. -/
def Question.dialogue {α : Type} (q : Question α) : Dialogue (Except CallError α) :=
  .ask (.calls [q.call]) fun answer => .done (q.read answer.outcome)

end NodeRpc
