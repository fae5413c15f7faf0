import NodeRpc.Link.Basic
import NodeRpc.Session.Node

/-!
# Callers with names

In a simulation, calls, deliveries and subscriptions are known by names, and so are the tokens that
they share. A step is taken at once; then, unless the simulation goes on without a pause, every task
runs until all of them wait.

`Caller` is what a caller knows; it acts on anything that holds a link: the link itself, or a
session.
-/

namespace NodeRpc

/-- Tokens by name. -/
structure Tokens where
  names : Table String Nat := []
  next : Nat := 0
  deriving DecidableEq, Inhabited

/-- The token of a name, which is made when the name first comes up; without a name, a new one. -/
def Tokens.get (t : Tokens) (name : Option String) : Token × Tokens :=
  match name with
  | none => (.caller t.next, { t with next := t.next + 1 })
  | some name =>
    match t.names.get? name with
    | some n => (.caller n, t)
    | none => (.caller t.next, ⟨t.names.put name t.next, t.next + 1⟩)

/-- A machine that holds a link. -/
structure Holder (σ τ : Type) where
  machine : Machine σ τ
  link : σ → Link
  onLink : σ → (Link → Link) → σ

/-- A link by itself. -/
def Holder.bare : Holder Link Link.Task := ⟨Link.machine, id, fun l f => f l⟩

/-- The link of a session whose node has read some frames. -/
def Holder.wire : Holder Wire Session.Task where
  machine :=
    { enabled := fun w => w.session.enabled
      run := fun w t => { w with session := w.session.run t }
      effort := fun w => w.session.effort }
  link w := w.session.link
  onLink w f := { w with session := w.session.onLink f }

/-- A task with a name. -/
inductive Awaited where
  | call (k : Nat)
  | batch (k : Nat)
  | unsubscribe (k : Nat)
  | delivery (d : Nat)
  deriving DecidableEq, Inhabited

/-- What a task with a name comes to. -/
inductive Ending where
  | outcome (o : Outcome)
  | outcomes (r : Except CallError (List Outcome))
  /-- Whether the node has confirmed the end of a subscription. -/
  | confirmed (yes : Bool)
  | delivered
  deriving DecidableEq

namespace Awaited

/-- The task of the link. -/
def task : Awaited → Link.Task
  | .call k | .batch k | .unsubscribe k => .exchange k
  | .delivery d => .delivery d

/-- What the task came to, once it has. -/
def ending? (l : Link) : Awaited → Option Ending
  | .call k => (l.calls.exchanges[k]?).bind fun x => x.outcome?.map .outcome
  | .batch k => (l.calls.exchanges[k]?).bind fun x => x.result?.map .outcomes
  | .unsubscribe k =>
    (l.calls.exchanges[k]?).bind fun x =>
      if x.isLive then none
      else
        match x.outcome? with
        | some (.ok _) => some (.confirmed true)
        | _ => some (.confirmed false)
  | .delivery d =>
    (l.deliveries[d]?).bind fun x => if x.stage = .done then some .delivered else none

end Awaited

/-- What a caller knows by name. -/
structure Caller (σ τ : Type) where
  running : Running σ τ
  awaited : Table String Awaited := []
  streams : Table String Nat := []
  tokens : Tokens := {}
  /-- How many frames have been looked at. -/
  seen : Nat := 0

/-- A step of a caller. -/
inductive CallerStep where
  | call (name : String) (call : Call) (token : Option String)
  | batch (name : String) (calls : List Call) (token : Option String)
  | «open» (name : String) (request : SubscriptionRequest) (token : Option String)
  | next (name : String)
  | closeStream (name : String) (telling : Bool)
  | dropStream (name : String) (telling : Bool)
  | cancel (token : Option String)
  | drop (name : String)
  | advance (ms : Nat)

/-- What a step answers at once. -/
inductive Reply where
  | none
  | stream (s : Stream)
  | polled (p : Polled)
  /-- There is no such stream. -/
  | gone
  | failed (cause : CallError)
  /-- The attempt would have had to wait, and was given up. -/
  | pending
  | received (r : Received)
  | noConnection

namespace Caller

variable {σ τ : Type} [DecidableEq τ] (h : Holder σ τ)

/-- The link. -/
def link (c : Caller σ τ) : Link := h.link c.running.state

/-- Applies `f` to the state. -/
def update (c : Caller σ τ) (f : σ → σ) : Caller σ τ :=
  { c with running := c.running.update h.machine f }

/-- Applies `f` to the link. -/
def onLink (c : Caller σ τ) (f : Link → Link) : Caller σ τ := c.update h fun s => h.onLink s f

/-- Starts a task with a name. -/
def start (c : Caller σ τ) (name : String) (a : Awaited) (f : Link → Link) : Caller σ τ :=
  { c.onLink h f with awaited := c.awaited.put name a }

/-- The stream of a name. -/
def stream? (c : Caller σ τ) (name : String) : Option Stream :=
  (c.streams.get? name).bind fun n => (c.link h).streams.get? n

/-- Cancels a token; everything that it reaches is reached one after the other. -/
def cancel (c : Caller σ τ) (t : Token) : Caller σ τ :=
  let c := ((c.link h).below t).foldl (fun c n => c.onLink h (·.cancelStream n)) c
  c.onLink h (·.cancelCalls t)

/-- Opens a subscription under a name; a stream that had the name is dropped. -/
def openStream (c : Caller σ τ) (name : String) (request : SubscriptionRequest) (t : Token) :
    Caller σ τ :=
  let handle := (c.link h).subscriptions.nextHandle
  let old := c.streams.get? name
  let c := { c with streams := c.streams.put name handle }.onLink h (·.open request t)
  old.elim c fun n => c.onLink h (·.dropStream n true)

/-- A step of the caller, without a pause behind it. -/
def step (c : Caller σ τ) (s : CallerStep) : Reply × Caller σ τ :=
  let here := (c.link h).calls.exchanges.length
  match s with
  | .call name call token =>
    let (t, tokens) := c.tokens.get token
    (.none, { c with tokens }.start h name (.call here) (·.call call t))
  | .batch name calls token =>
    let (t, tokens) := c.tokens.get token
    (.none, { c with tokens }.start h name (.batch here) (·.batch calls t))
  | .open name request token =>
    let (t, tokens) := c.tokens.get token
    let c := { c with tokens }.openStream h name request t
    (((c.stream? h name).map .stream).getD .gone, c)
  | .next name =>
    match c.streams.get? name with
    | some n => (.polled ((c.link h).poll n).1, c.onLink h fun l => (l.poll n).2)
    | none => (.gone, c)
  | .closeStream name telling =>
    (.none, (c.streams.get? name).elim c fun n => c.onLink h (·.closeStream n telling))
  | .dropStream name telling =>
    (.none, (c.streams.get? name).elim c fun n =>
      { c.onLink h (·.dropStream n telling) with streams := c.streams.erase name })
  | .cancel token =>
    let (t, tokens) := c.tokens.get token
    (.none, { c with tokens }.cancel h t)
  | .drop name =>
    (.none, (c.awaited.get? name).elim c fun a =>
      { c.onLink h (·.drop a.task) with awaited := c.awaited.erase name })
  | .advance ms => (.none, c.onLink h fun l => { l with now := l.now + ms })

/-- Delivers a notification under a name. -/
def dispatch (c : Caller σ τ) (name : String) (n : Notification) : Caller σ τ :=
  c.start h name (.delivery (c.link h).deliveries.length) (·.dispatch n)

/-- Closes a subscription at the node, under a name. -/
def unsubscribe (c : Caller σ τ) (name : String) (id : SubscriptionId) (method : String) :
    Caller σ τ :=
  c.start h name (.unsubscribe (c.link h).calls.exchanges.length) (·.unsubscribe id method)

/-- Lets every task run until all of them wait. -/
def settle (c : Caller σ τ) : Caller σ τ := { c with running := c.running.settle h.machine }

/-- What the tasks came to that have ended since this was last asked. -/
def endings (c : Caller σ τ) : List (String × Ending) × Caller σ τ :=
  let l := c.link h
  (c.awaited.filterMap fun p => (p.2.ending? l).map fun e => (p.1, e),
    { c with awaited := c.awaited.filter fun p => (p.2.ending? l).isNone })

/-- The frames that were written since this was last asked. -/
def sent (c : Caller σ τ) : List Outgoing × Caller σ τ :=
  let written := (c.link h).calls.written
  (written.drop c.seen, { c with seen := written.length })

end Caller

end NodeRpc
