import NodeRpc.Duplex.Basic
import NodeRpc.Simulation.Caller

/-!
# Callers of a shared connection

The same steps as of any caller, taken on a connection that is made on demand. Opening a
subscription is tried once: if that would have to wait, it is given up.
-/

namespace NodeRpc

/-- What a use comes to. -/
inductive UseEnding where
  | result (r : Except CallError (List Outcome))
  | opened
  | closed

/-- What the callers of a shared connection know by name. -/
structure Shared where
  running : Running Duplex Duplex.Task
  uses : Table String Nat := []
  /-- The session and the handle of each stream. -/
  streams : Table String (Nat × Nat) := []
  tokens : Tokens := {}
  /-- How many frames the node has read of each connection. -/
  taken : Table Nat Nat := []

namespace Shared

/-- The shared connection. -/
def duplex (c : Shared) : Duplex := c.running.state

/-- Applies `f` to the connection. -/
def update (c : Shared) (f : Duplex → Duplex) : Shared :=
  { c with running := c.running.update Duplex.machine f }

/-- Applies `f` to the link of session `n`. -/
def onLink (c : Shared) (n : Nat) (f : Link → Link) : Shared :=
  c.update (·.onSession n (·.onLink f))

/-- Starts a use with a name. -/
def use (c : Shared) (name : String) (purpose : Purpose) (t : Token) : Shared :=
  { c.update (·.make purpose t) with uses := c.uses.put name c.duplex.uses.length }

/-- The stream of a name. -/
def stream? (c : Shared) (name : String) : Option Stream := do
  let (n, handle) ← c.streams.get? name
  let s ← c.duplex.sessions[n]?
  s.link.streams.get? handle

/-- Tries to open a subscription under a name; a stream that had the name is dropped. -/
def openStream (c : Shared) (name : String) (request : SubscriptionRequest) (t : Token) :
    Reply × Shared :=
  let u := c.duplex.uses.length
  let c := c.update (·.attempt request t)
  match (c.duplex.uses[u]?).map Use.stage with
  | some (.opened n handle) =>
    let old := c.streams.get? name
    let c := { c with streams := c.streams.put name (n, handle) }
    let c := old.elim c fun p => c.onLink p.1 (·.dropStream p.2 true)
    (((c.stream? name).map .stream).getD .gone, c)
  | some (.failed cause) => (.failed cause, c)
  | _ => (.pending, c)

/-- A step of a caller, without a pause behind it. -/
def step (c : Shared) (s : CallerStep) : Reply × Shared :=
  match s with
  | .call name call token =>
    let (t, tokens) := c.tokens.get token
    (.none, { c with tokens }.use name (.call call) t)
  | .batch name calls token =>
    let (t, tokens) := c.tokens.get token
    (.none, { c with tokens }.use name (.batch calls) t)
  | .open name request token =>
    let (t, tokens) := c.tokens.get token
    { c with tokens }.openStream name request t
  | .next name =>
    match c.streams.get? name with
    | some (n, handle) =>
      let polled := (c.duplex.sessions[n]?).map fun s => (s.link.poll handle).1
      (.polled (polled.getD .ended), c.onLink n fun l => (l.poll handle).2)
    | none => (.gone, c)
  | .closeStream name telling =>
    (.none, (c.streams.get? name).elim c fun p => c.onLink p.1 (·.closeStream p.2 telling))
  | .dropStream name telling =>
    (.none, (c.streams.get? name).elim c fun p =>
      { c.onLink p.1 (·.dropStream p.2 telling) with streams := c.streams.erase name })
  | .cancel token =>
    let (t, tokens) := c.tokens.get token
    (.none, { c with tokens }.update (·.cancel t))
  | .drop name =>
    (.none, (c.uses.get? name).elim c fun u =>
      { c.update (·.abandon u) with uses := c.uses.erase name })
  | .advance ms =>
    (.none, c.update fun d =>
      { d with sessions := d.sessions.map fun s =>
          s.onLink fun l => { l with now := l.now + ms } })

/-- A step of the node at connection `n`, which has to be one that can be made. -/
def node (c : Shared) (n : Nat) (step : NodeStep) : Reply × Shared :=
  match c.duplex.plan[n]?, c.duplex.sessions[n]? with
  | some .refuses, _ | none, _ | _, none => (.noConnection, c)
  | _, some session =>
    let (received, w) := Wire.node ⟨session, (c.taken.get? n).getD 0⟩ step
    ((received.map .received).getD .none,
      { c.update (·.onSession n fun _ => w.session) with taken := c.taken.put n w.taken })

/-- Lets every task run until all of them wait. -/
def settle (c : Shared) : Shared := { c with running := c.running.settle Duplex.machine }

/-- What use `u` came to, once it has. -/
def ending? (d : Duplex) (u : Nat) : Option UseEnding :=
  match (d.uses[u]?).map Use.stage with
  | some (.failed cause) => some (.result (.error cause))
  | some .closed => some .closed
  | some (.opened ..) => some .opened
  | some (.within n k) => do
    let s ← d.sessions[n]?
    let x ← s.link.calls.exchanges[k]?
    return .result (← x.result?)
  | _ => none

/-- What the uses came to that have ended since this was last asked. -/
def endings (c : Shared) : List (String × UseEnding) × Shared :=
  let d := c.duplex
  (c.uses.filterMap fun p => (ending? d p.2).map fun e => (p.1, e),
    { c with uses := c.uses.filter fun p => (ending? d p.2).isNone })

/-- A count of the session in use, unless somebody is looking for the session. -/
def count (c : Shared) (f : Link → Nat) : Option Nat :=
  let d := c.duplex
  if d.isUnlocked then some ((d.current.bind fun n => d.sessions[n]?).elim 0 fun s => f s.link)
  else none

end Shared

end NodeRpc
