import NodeRpc.Cancellation
import NodeRpc.Error
import NodeRpc.Table

/-!
# Outstanding calls

The calls of one connection. An exchange is one call, or a batch of calls that go out in one frame.
When it first runs it takes its ids, enters them in the table of pending calls and writes its frame;
then it waits until each of its ids has an answer. An answer is taken out of the table together with
its id, so the first one counts. However an exchange ends, its ids leave the table.

Numbers are taken one at a time, without the lock that guards the table. So between two numbers that
an exchange takes, and before it enters its calls, others may take theirs and enter (`reserve`).

Where two things have happened to an exchange when it runs, a cancellation wins over the end of a
write, and an answer wins over a cancellation.
-/

namespace NodeRpc

/-- What the connection does with the next frame. -/
inductive Sink where
  | accepts
  | refuses (cause : CallError)
  /-- It takes the frame, but the write does not end before somebody resumes it. -/
  | stalls
  deriving DecidableEq

/-- How far an exchange has come. -/
inductive Stage where
  | fresh
  /-- The frame is being written; the reply is there once the write has ended. -/
  | writing (reply : Option (Except CallError Unit))
  | waiting
  | finished (result : Except CallError (List Outcome))
  /-- Nobody waits for the result any more. -/
  | abandoned
  deriving DecidableEq

/-- One call or one batch. -/
structure Exchange where
  calls : List Call
  batched : Bool
  token : Token
  ids : List Nat := []
  answers : Table Nat Outcome := []
  stage : Stage := .fresh
  deriving DecidableEq

namespace Exchange

/-- The answers in the order of the calls, once all are there. -/
def collected? (x : Exchange) : Option (List Outcome) := x.ids.mapM fun id => x.answers.get? id

/-- The frame that carries the calls under their ids. -/
def frame (x : Exchange) : Outgoing :=
  let requests := List.zipWith Request.mk x.ids x.calls
  match x.batched, requests with
  | false, [request] => .single request
  | _, _ => .batch requests

/-- What a batch came to. -/
def result? (x : Exchange) : Option (Except CallError (List Outcome)) :=
  match x.stage with
  | .finished result => some result
  | _ => none

/-- What a single call came to. -/
def outcome? (x : Exchange) : Option Outcome :=
  match x.stage with
  | .finished (.ok (outcome :: _)) => some outcome
  | .finished (.error cause) => some (.error cause)
  | _ => none

/-- Whether the exchange can still come to a result. -/
def isLive (x : Exchange) : Bool :=
  match x.stage with
  | .finished _ | .abandoned => false
  | _ => true

end Exchange

/-- A pending call: the exchange that waits for it, and the number of its batch. -/
structure Entry where
  exchange : Nat
  batch : Option Nat
  deriving DecidableEq, Inhabited

/-- The numbers that an exchange has taken before it enters its calls. -/
structure Reservation where
  /-- The number of its batch. -/
  batch : Option Nat := none
  ids : List Nat := []
  deriving DecidableEq, Inhabited

/-- The calls of one connection. -/
structure Calls where
  sink : Sink := .accepts
  nextId : Nat := 1
  nextBatch : Nat := 1
  /-- What exchanges have taken that have not entered their calls. -/
  reserved : Table Nat Reservation := []
  closed : Bool := false
  pending : Table Nat Entry := []
  /-- All exchanges, in the order in which they were made. -/
  exchanges : List Exchange := []
  cancelled : List Token := []
  /-- The frames that the sink has taken, in order. -/
  written : List Outgoing := []

namespace Calls

/-- Makes an exchange, which has the number `exchanges.length`. -/
def make (c : Calls) (calls : List Call) (batched : Bool) (token : Token) : Calls :=
  { c with exchanges := c.exchanges ++ [{ calls, batched, token }] }

/-- Whether a token has been cancelled. -/
def isCancelled (c : Calls) (token : Token) : Bool := c.cancelled.contains token

/-- Replaces exchange `k`. -/
def setExchange (c : Calls) (k : Nat) (x : Exchange) : Calls :=
  { c with exchanges := c.exchanges.set k x }

/-- Takes ids out of the table. -/
def forget (c : Calls) (ids : List Nat) : Calls :=
  { c with pending := c.pending.filter fun p => !ids.contains p.1 }

/-! ### Running an exchange -/

/-- Ends exchange `k` with a result. -/
def finish (c : Calls) (k : Nat) (x : Exchange) (result : Except CallError (List Outcome)) : Calls :=
  (c.forget x.ids).setExchange k { x with stage := .finished result }

/-- Waits for the answers that are missing. -/
def await (c : Calls) (k : Nat) (x : Exchange) : Calls :=
  match x.collected? with
  | some outcomes => c.finish k x (.ok outcomes)
  | none =>
    if c.isCancelled x.token then c.finish k x (.error .cancelled)
    else c.setExchange k { x with stage := .waiting }

/-- Writes the frame of exchange `k`. -/
def write (c : Calls) (k : Nat) (x : Exchange) : Calls :=
  if c.isCancelled x.token then c.finish k x (.error .cancelled)
  else
    match c.sink with
    | .accepts => { c with written := c.written ++ [x.frame] }.await k x
    | .refuses cause => c.finish k x (.error cause)
    | .stalls =>
      { c with written := c.written ++ [x.frame] }.setExchange k { x with stage := .writing none }

/-- What exchange `k` has taken so far. -/
def reservation (c : Calls) (k : Nat) : Reservation := (c.reserved.get? k).getD {}

/-- Exchange `k` takes the next number that it lacks: first that of its batch, if it is one, and
then one id after the other. -/
def reserve (c : Calls) (k : Nat) : Calls :=
  match c.exchanges[k]? with
  | none => c
  | some x =>
    let r := c.reservation k
    if x.stage ≠ .fresh || x.calls.isEmpty then c
    else if x.batched && r.batch.isNone then
      { c with
        nextBatch := c.nextBatch + 1
        reserved := c.reserved.put k { r with batch := some c.nextBatch } }
    else if r.ids.length < x.calls.length then
      { c with
        nextId := c.nextId + 1
        reserved := c.reserved.put k { r with ids := r.ids ++ [c.nextId] } }
    else c

/-- Takes what exchange `k` lacks of its ids, one per call, and of the number of its batch; all are
used up even if the connection is closed. An empty batch is answered without any of this. -/
def start (c : Calls) (k : Nat) (x : Exchange) : Calls :=
  if x.calls.isEmpty then c.setExchange k { x with stage := .finished (.ok []) }
  else
    let r := c.reservation k
    let lacking := x.calls.length - r.ids.length
    let x := { x with ids := r.ids ++ List.range' c.nextId lacking }
    let batch := if x.batched then some (r.batch.getD c.nextBatch) else none
    let c := { c with
      nextId := c.nextId + lacking
      nextBatch := if x.batched && r.batch.isNone then c.nextBatch + 1 else c.nextBatch
      reserved := c.reserved.erase k }
    if c.closed then c.finish k x (.error .transportClosed)
    else
      let entries := x.ids.map fun id => (id, Entry.mk k batch)
      { c with pending := c.pending ++ entries }.write k x

/-- Lets exchange `k` go as far as it can. -/
def run (c : Calls) (k : Nat) : Calls :=
  match c.exchanges[k]? with
  | none => c
  | some x =>
    match x.stage with
    | .fresh => c.start k x
    | .writing reply =>
      if c.isCancelled x.token then c.finish k x (.error .cancelled)
      else
        match reply with
        | none => c
        | some (.ok _) => c.await k x
        | some (.error cause) => c.finish k x (.error cause)
    | .waiting => c.await k x
    | .finished _ | .abandoned => c

/-- Whether exchange `k` has something to do. -/
def canRun (c : Calls) (k : Nat) : Bool :=
  match c.exchanges[k]? with
  | none => false
  | some x =>
    match x.stage with
    | .fresh => true
    | .writing reply => reply.isSome || c.isCancelled x.token
    | .waiting => x.collected?.isSome || c.isCancelled x.token
    | .finished _ | .abandoned => false

/-! ### What happens to exchanges -/

/-- Cancels a token. -/
def cancel (c : Calls) (token : Token) : Calls := { c with cancelled := token :: c.cancelled }

/-- Gives up exchange `k`. -/
def abandon (c : Calls) (k : Nat) : Calls :=
  match c.exchanges[k]? with
  | some x => if x.isLive then (c.forget x.ids).setExchange k { x with stage := .abandoned } else c
  | none => c

/-- Ends the write of exchange `k`, if it is under way. -/
def resume (c : Calls) (k : Nat) (reply : Except CallError Unit) : Calls :=
  match c.exchanges[k]? with
  | some x =>
    match x.stage with
    | .writing none => c.setExchange k { x with stage := .writing (some reply) }
    | _ => c
  | none => c

/-- Ends all writes that are under way. -/
def resumeAll (c : Calls) : Calls :=
  (List.range c.exchanges.length).foldl (fun c k => c.resume k (.ok ())) c

/-- Hands the answer to the pending call `id` to its exchange. -/
def answer (c : Calls) (id : Nat) (outcome : Outcome) : Calls :=
  match c.pending.get? id with
  | none => c
  | some entry =>
    { c with
      pending := c.pending.erase id
      exchanges := c.exchanges.modify entry.exchange fun x =>
        { x with answers := x.answers.put id outcome } }

/-- Hands out answers, one after the other. -/
def answerAll (c : Calls) (answers : List (Nat × Outcome)) : Calls :=
  answers.foldl (fun c a => c.answer a.1 a.2) c

/-! ### What the node answers -/

/-- The answer that a response is to a pending call, if it is one. -/
def answerOf (c : Calls) (r : Response) : List (Nat × Outcome) :=
  if !c.closed && c.pending.has r.id then [(r.id, r.result)] else []

/-- The first response to each pending call. -/
def firstAnswers (c : Calls) : List Response → List (Nat × Outcome)
  | [] => []
  | r :: rs =>
    c.answerOf r ++ firstAnswers { c with pending := c.pending.erase r.id } rs

/-- The pending calls of batch `batch`. -/
def ofBatch (c : Calls) (batch : Nat) : List Nat :=
  (c.pending.filter fun p => p.2.batch = some batch).map (·.1)

/-- The answers that a batch of responses gives: the responses to pending calls, and an error for
every other pending call of a batch that is answered in part. -/
def batchAnswers (c : Calls) (responses : List Response) : List (Nat × Outcome) :=
  let given := c.firstAnswers responses
  let touched := given.filterMap fun a => (c.pending.get? a.1).bind Entry.batch
  let missing := c.pending.filter fun p =>
    !(given.map (·.1)).contains p.1 && (p.2.batch.map touched.contains).getD false
  given ++ missing.map fun p => (p.1, .error (.malformed (.missingFromBatch p.1)))

/-- The number of the oldest batch with a pending call. -/
def oldestBatch? (c : Calls) : Option Nat := (c.pending.filterMap fun p => p.2.batch).min?

/-- The answers that an error without an id gives: it goes to the oldest batch that is pending. -/
def rejectionAnswers (c : Calls) (error : ErrorObject) : List (Nat × Outcome) :=
  match c.oldestBatch? with
  | some batch => (c.ofBatch batch).map fun id => (id, .error (.protocol error))
  | none => []

/-- Routes a response. -/
def route (c : Calls) (r : Response) : Calls := c.answerAll (c.answerOf r)

/-- Routes a batch of responses. -/
def routeBatch (c : Calls) (responses : List Response) : Calls :=
  c.answerAll (c.batchAnswers responses)

/-- Routes an error without an id. -/
def reject (c : Calls) (error : ErrorObject) : Calls := c.answerAll (c.rejectionAnswers error)

/-- Fails every pending call, and every later one. -/
def close (c : Calls) : Calls :=
  { c.answerAll (c.pending.keys.map fun id => (id, .error .transportClosed)) with closed := true }

end Calls

end NodeRpc
