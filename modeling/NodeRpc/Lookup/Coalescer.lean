import NodeRpc.Error

/-!
# Coalescing loads into batches

The first load of a turn becomes the leader: it queues its key and gives way once, so that others
can queue theirs. When the leader goes on, or is dropped, the whole queue is handed over in batches
of bounded size. Each batch is answered on its own, so dropping a load takes nothing away from
another that is in a batch with it.
-/

namespace NodeRpc

/-- Pieces of `n` items each, or of one if `n` is zero; only the last may be shorter. -/
def pieces {α : Type} (n : Nat) : List α → List (List α)
  | [] => []
  | x :: xs => (x :: xs.take (n - 1)) :: pieces n (xs.drop (n - 1))
termination_by xs => xs.length
decreasing_by
  simp only [List.length_drop, List.length_cons]
  omega

/-- How far a load has come. -/
inductive JoinStage where
  | fresh
  /-- Has queued the first key, and hands the queue over when it goes on. -/
  | leading
  | waiting
  | done
  | dropped
  deriving DecidableEq, Inhabited

/-- A load of one key. -/
structure Join (κ : Type) where
  key : κ
  stage : JoinStage := .fresh
  answer : Option (Except LookupError Json) := none

/-- What a batch comes to: a result per key, or one error for all. -/
abbrev BatchOutcome := Except LookupError (List (Except LookupError Json))

/-- Keys that are loaded together, and the loads that wait for them. -/
structure Batch (κ : Type) where
  joins : List Nat
  keys : List κ
  finished : Bool := false

/-- Loads and the batches that they were put into. -/
structure Coalescer (κ : Type) where
  limit : Nat
  joins : List (Join κ) := []
  /-- The loads whose keys wait for the leader, in order. -/
  queue : List (Nat × κ) := []
  batches : List (Batch κ) := []

namespace Coalescer

variable {κ : Type}

/-- Makes a load of `key`, with the number `joins.length`. -/
def make (c : Coalescer κ) (key : κ) : Coalescer κ := { c with joins := c.joins ++ [{ key }] }

/-- Replaces the stage of load `k`. -/
def setStage (c : Coalescer κ) (k : Nat) (stage : JoinStage) : Coalescer κ :=
  { c with joins := c.joins.modify k fun x => { x with stage } }

/-- Answers load `k`, unless it has an answer. -/
def answer (c : Coalescer κ) (k : Nat) (outcome : Except LookupError Json) : Coalescer κ :=
  { c with joins := c.joins.modify k fun x => { x with answer := some (x.answer.getD outcome) } }

/-- Hands the queue over. -/
def dispatch (c : Coalescer κ) : Coalescer κ :=
  { c with
    queue := []
    batches := c.batches ++ (pieces c.limit c.queue).map fun piece =>
      { joins := piece.map (·.1), keys := piece.map (·.2) } }

/-- Gives the queue up: its loads are cancelled. -/
def abandon (c : Coalescer κ) : Coalescer κ :=
  (c.queue.map (·.1)).foldl (fun c k => c.answer k (.error .cancelled)) { c with queue := [] }

/-- Load `k` looks for its answer. -/
def look (c : Coalescer κ) (k : Nat) : Coalescer κ :=
  match c.joins[k]? with
  | some x => c.setStage k (if x.answer.isSome then .done else .waiting)
  | none => c

/-- A turn of load `k`. -/
def poll (c : Coalescer κ) (k : Nat) : Coalescer κ :=
  match c.joins[k]? with
  | none => c
  | some x =>
    match x.stage with
    | .fresh =>
      let stage := if c.queue.isEmpty then .leading else .waiting
      { c with queue := c.queue ++ [(k, x.key)] }.setStage k stage
    | .leading => c.dispatch.look k
    | .waiting => c.look k
    | .done | .dropped => c

/-- Load `k` is given up. A leader hands the queue over if `inside`, and gives it up otherwise. -/
def drop (c : Coalescer κ) (k : Nat) (inside : Bool) : Coalescer κ :=
  match c.joins[k]? with
  | none => c
  | some x =>
    match x.stage with
    | .leading => (if inside then c.dispatch else c.abandon).setStage k .dropped
    | .fresh | .waiting => c.setStage k .dropped
    | .done | .dropped => c

/-- The answers that an outcome gives to the loads of a batch. -/
def answers (b : Batch κ) (outcome : BatchOutcome) : List (Nat × Except LookupError Json) :=
  match outcome with
  | .ok results =>
    if results.length = b.joins.length then b.joins.zip results
    else
      b.joins.map fun k => (k, .error (.batchMismatch b.joins.length results.length))
  | .error cause => b.joins.map fun k => (k, .error cause)

/-- Batch `n` comes to an outcome, unless it has already. -/
def finish (c : Coalescer κ) (n : Nat) (outcome : BatchOutcome) : Coalescer κ :=
  match c.batches[n]? with
  | none => c
  | some b =>
    if b.finished then c
    else
      let c := { c with batches := c.batches.modify n fun b => { b with finished := true } }
      (answers b outcome).foldl (fun c a => c.answer a.1 a.2) c

/-- What load `k` came to, once it has taken its answer. -/
def result? (c : Coalescer κ) (k : Nat) : Option (Except LookupError Json) :=
  (c.joins[k]?).bind fun x => if x.stage = .done then x.answer else none

/-- Whether load `k` has something to do besides leading. -/
def canRun (c : Coalescer κ) (k : Nat) : Bool :=
  match c.joins[k]? with
  | none => false
  | some x => x.stage = .fresh || (x.stage = .waiting && x.answer.isSome)

/-- Whether load `k` has given way and goes on when nothing else is to do. -/
def isLeading (c : Coalescer κ) (k : Nat) : Bool :=
  match c.joins[k]? with
  | none => false
  | some x => x.stage = .leading

end Coalescer

end NodeRpc
