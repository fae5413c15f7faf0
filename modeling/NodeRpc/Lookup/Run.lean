import NodeRpc.Lookup.Context

/-!
# Runs of lookups

What can happen to those who ask a scope, to the loads of a coalescer, and to the lookups of a
context: they are started, polled and given up in any order, and the node answers at any time.

A poll is one step: what it does to the scope and to the coalescers it does under their locks, and
in one piece. So a batch that is dispatched has the loads that are queued then, in their order, and
what is polled meanwhile on another thread is polled before or after.
-/

namespace NodeRpc

/-- What is seen of the events of a run, each in the state that it comes upon. -/
def observed {σ ε α : Type} (apply : σ → ε → σ) (see : σ → ε → List α) : σ → List ε → List α
  | _, [] => []
  | s, e :: events => see s e ++ observed apply see (apply s e) events

theorem observed_append {σ ε α : Type} (apply : σ → ε → σ) (see : σ → ε → List α) (s : σ)
    (events more : List ε) : observed apply see s (events ++ more) =
      observed apply see s events ++ observed apply see (events.foldl apply s) more := by
  induction events generalizing s with
  | nil => rfl
  | cons e events ih => simp only [List.cons_append, observed, ih, List.append_assoc, List.foldl]

theorem observed_concat {σ ε α : Type} (apply : σ → ε → σ) (see : σ → ε → List α) (s : σ)
    (events : List ε) (e : ε) : observed apply see s (events ++ [e]) =
      observed apply see s events ++ see (events.foldl apply s) e := by
  rw [observed_append, observed, observed, List.append_nil]

namespace Resolves

/-- Something that happens to a scope and those who ask. -/
inductive Event where
  | make (key : LookupKey)
  | run (k : Nat)
  /-- Load `n` comes to an outcome. -/
  | finish (n : Nat) (outcome : Loaded)
  | drop (k : Nat)
  | clear
  deriving DecidableEq

/-- What becomes of a scope by an event. -/
def apply (r : Resolves) : Event → Resolves
  | .make key => r.make key
  | .run k => r.run k
  | .finish n outcome => r.finish n outcome
  | .drop k => r.drop k
  | .clear => r.clear

/-- A scope after some events. -/
def after (events : List Event) : Resolves := events.foldl apply {}

theorem after_concat (events : List Event) (e : Event) :
    after (events ++ [e]) = (after events).apply e := by
  simp [after]

end Resolves

namespace Coalescer

variable {κ : Type}

/-- Something that happens to a coalescer. -/
inductive Event (κ : Type) where
  | make (key : κ)
  | poll (k : Nat)
  | drop (k : Nat) (inside : Bool)
  /-- Batch `n` comes to an outcome. -/
  | finish (n : Nat) (outcome : BatchOutcome)

/-- What becomes of a coalescer by an event. -/
def apply (c : Coalescer κ) : Event κ → Coalescer κ
  | .make key => c.make key
  | .poll k => c.poll k
  | .drop k inside => c.drop k inside
  | .finish n outcome => c.finish n outcome

/-- A coalescer with batches of at most `limit` keys after some events. -/
def after (limit : Nat) (events : List (Event κ)) : Coalescer κ := events.foldl apply { limit }

theorem after_concat (limit : Nat) (events : List (Event κ)) (e : Event κ) :
    after limit (events ++ [e]) = (after limit events).apply e := by
  simp [after]

end Coalescer

namespace Context

variable {ν : Type}

/-- Something that happens to a context. -/
inductive Event where
  | start (i : Inquiry)
  | poll (k : Nat)
  | drop (k : Nat)
  | runTalk (t : Nat)
  /-- The answer to what talk `t` has asked arrives. -/
  | deliver (t : Nat) (answer : Answer)
  | teardown
  deriving DecidableEq

/-- What becomes of a context by an event. The talk of a block has no turns of its own. -/
def apply (respond : Respondent ν) (x : Context ν) : Event → Context ν
  | .start i => x.start i
  | .poll k => x.poll respond k
  | .drop k => x.drop k
  | .runTalk t => if x.isTask t then x.runTalk respond t else x
  | .deliver t answer => x.deliver t answer
  | .teardown => x.teardown

/-- A context after some events. -/
def after (respond : Respondent ν) (x : Context ν) (events : List Event) : Context ν :=
  events.foldl (apply respond) x

theorem after_concat (respond : Respondent ν) (x : Context ν) (events : List Event) (e : Event) :
    x.after respond (events ++ [e]) = (x.after respond events).apply respond e := by
  simp [after]

/-- Whether neither a lookup nor a batch can go on. -/
def isSettled (x : Context ν) : Bool :=
  ((List.range x.lookups.length).all fun k => !x.canPoll k && !x.isLeading k)
    && x.talks.zipIdx.all fun p => !(p.1.canRun && x.isTask p.2)

/-- Whether every talk that has asked something has got an answer. -/
def isAnswered (x : Context ν) : Bool :=
  x.talks.all fun t =>
    match t with
    | .waiting _ none => false
    | _ => true

end Context

end NodeRpc
