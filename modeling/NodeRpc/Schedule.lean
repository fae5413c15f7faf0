/-!
# Turns

Tasks that can run wait in a queue and take turns. A task is queued when something that has happened
lets it run; one that can still run after its turn goes first again. Tasks that have given way are
queued when the queue is empty. A machine has settled when no task can run.
-/

namespace NodeRpc

/-- A state with tasks: which of them can run, and what a turn of one does. -/
structure Machine (σ τ : Type) where
  enabled : σ → List τ
  /-- The tasks that have given way: they can run when no other task can. -/
  yielded : σ → List τ := fun _ => []
  run : σ → τ → σ
  /-- A bound on the number of turns before the machine settles. -/
  effort : σ → Nat

/-- A state with the queue of its tasks. -/
structure Running (σ τ : Type) where
  state : σ
  queue : List τ := []

namespace Running

variable {σ τ : Type} [DecidableEq τ]

/-- Replaces the state and queues the tasks that can run now. -/
def become (m : Machine σ τ) (r : Running σ τ) (state : σ) : Running σ τ :=
  ⟨state, r.queue ++ (m.enabled state).filter fun t => !r.queue.contains t⟩

/-- Applies `f` to the state. -/
def update (m : Machine σ τ) (r : Running σ τ) (f : σ → σ) : Running σ τ := r.become m (f r.state)

/-- Whether a task can run, having given way or not. -/
def canRun (m : Machine σ τ) (s : σ) (t : τ) : Bool :=
  (m.enabled s).contains t || (m.yielded s).contains t

/-- Gives the next task its turn. -/
def turn (m : Machine σ τ) (r : Running σ τ) : Running σ τ :=
  match r.queue with
  | [] => { r with queue := m.yielded r.state }
  | t :: rest =>
    if canRun m r.state t then
      let state := m.run r.state t
      let again := if (m.enabled state).contains t then [t] else []
      become m ⟨r.state, again ++ rest⟩ state
    else ⟨r.state, rest⟩

/-- Gives at most `fuel` turns. -/
def turns (m : Machine σ τ) : Nat → Running σ τ → Running σ τ
  | 0, r => r
  | fuel + 1, r =>
    if r.queue.isEmpty && (m.yielded r.state).isEmpty then r else turns m fuel (r.turn m)

/-- Gives turns until no task can run. -/
def settle (m : Machine σ τ) (r : Running σ τ) : Running σ τ :=
  turns m (2 * (r.queue.length + m.effort r.state)) r

end Running

end NodeRpc
